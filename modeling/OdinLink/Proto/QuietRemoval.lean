import OdinLink.Proto.HopLedger
import OdinLink.Proto.WindingUp

/-!
# What a removal leaves behind

The removal sets the state to DISCONNECTED and cancels the poll timer and the work items. Whoever
was past its look at the state goes on as if nothing had happened, and packets and control frames
still queue work that was cancelled before.
-/

namespace OdinLink.Proto

open Node History

/-- A device with its poll timer. `timer` tells that it is armed, `arming` that the verify work has
announced READY and has the timer still to start, and `stopped` that the removal has cancelled
it. -/
structure Polled where
  bound : Bound
  timer : Bool
  arming : Bool
  stopped : Bool
  deriving DecidableEq, Repr

inductive PolledAct where
  | bound (a : BoundAct)
  | arm
  | tick
  | stopTimer
  deriving DecidableEq, Repr

namespace Polled

def probe (ring : Nat) (hop : Int32) : Polled := ⟨Bound.probe ring hop, false, false, false⟩

def waitsForVerify (p : Polled) : BoundAct → Bool
  | .node .restart => p.bound.node.restartWork.running = some (.flush .verify)
  | .node (.start w) => w = .verify
  | .removal _ => p.bound.removal = some (.flush .verify)
  | _ => false

/-- `hrtimer_cancel` comes before the first `cancel_work_sync`. -/
def stopsFirst (p : Polled) : BoundAct → Bool
  | .removal _ => p.bound.removal = some (.cancel .verify) && !p.stopped
  | _ => false

def timerAfter (p : Polled) : BoundAct → Bool
  | .node (.connect _) => p.timer || p.bound.node.connectWork.running = some .scheduleVerify
  | .node .restart => p.timer && p.bound.node.restartWork.running ≠ some (.cancel .verify)
  | .node (.verify _) =>
    p.timer && p.bound.node.verifyWork.running ≠ some .resetRings &&
      p.bound.node.verifyWork.running ≠ some .outReset
  | _ => p.timer

def armingAfter (p : Polled) : BoundAct → Bool
  | .node (.verify _) => p.arming || p.bound.node.verifyWork.running = some .setReady
  | _ => p.arming

/-- `odl_tb5_rx_poll_timer_fn` asks to be run again. -/
def pollsOn (p : Polled) : Bool :=
  !p.bound.removing && ConnState.connected.code ≤ p.bound.node.state.code &&
    (p.bound.node.txStarted || p.bound.node.rxStarted)

def step (cfg : Config) (p : Polled) : PolledAct → Option (Polled × List Event)
  | .bound a =>
    if p.arming && p.waitsForVerify a || p.stopsFirst a then none
    else
      (p.bound.step cfg a).map fun r =>
        ({p with bound := r.1, timer := p.timerAfter a, arming := p.armingAfter a}, r.2)
  | .arm => if p.arming then some ({p with timer := true, arming := false}, []) else none
  | .tick => if p.timer then some ({p with timer := p.pollsOn}, []) else none
  | .stopTimer =>
    if p.bound.removal = some (.cancel .verify) then
      some ({p with timer := false, stopped := true}, [])
    else none

end Polled

def RemovePc.departed : RemovePc → Bool
  | .disconnect => false
  | _ => true

def Bound.departed (b : Bound) : Bool := b.removal.any RemovePc.departed

def RemovePc.stage : RemovePc → Nat
  | .disconnect => 0
  | .sendLogout => 1
  | .cancel .verify => 2
  | .flush .verify => 3
  | .cancel .ctrlReply => 4
  | .flush .ctrlReply => 5
  | .cancel .restart => 6
  | .flush .restart => 7
  | .cancel .connect => 8
  | .flush .connect => 9
  | .cancel .login => 10
  | .flush .login => 11
  | .disablePaths => 12
  | .stopRings => 13
  | .testHop => 14
  | .releaseHop => 15
  | .unlist => 16
  | .free => 17
  | .freed => 18

def Worker.flushStage : Worker → Nat
  | .verify => 3
  | .ctrlReply => 5
  | .restart => 7
  | .connect => 9
  | .login => 11

theorem RemovePc.stage_flush (w : Worker) : (RemovePc.flush w).stage = w.flushStage := by
  cases w <;> rfl

theorem RemovePc.departed_iff (pc : RemovePc) : pc.departed = true ↔ 1 ≤ pc.stage := by
  cases pc with
  | cancel w | flush w => cases w <;> decide
  | _ => decide

namespace Polled

structure RemovedTo (p : Polled) (n : Nat) : Prop where
  winding : 1 ≤ n → p.bound.node.state = .disconnected ∧ p.bound.node.Winding ∧ p.arming = false
  stopped : 3 ≤ n → p.stopped = true
  idle : ∀ w, w.flushStage < n → p.bound.node.Idle w
  flushing : ∀ w, w.flushStage = n → p.bound.node.pending w = false
  rings : 14 ≤ n → p.bound.node.rxStarted = false
  unlisted : 17 ≤ n → p.bound.listed = false

structure Inv (p : Polled) : Prop where
  ringsOk : p.bound.node.RingsOk
  removal : ∀ pc, p.bound.removal = some pc → p.RemovedTo pc.stage
  stopped : p.stopped = true → p.timer = false ∧ ∃ pc, p.bound.removal = some pc ∧ 2 ≤ pc.stage

def Undisturbed (p : Polled) : PolledAct → Prop
  | .bound (.node a) => p.bound.departed = true → a.calm = true
  | .bound (.removal _) =>
    p.bound.removal = some .disconnect → p.bound.node.Winding ∧ p.arming = false
  | _ => True

instance (p : Polled) : (a : PolledAct) → Decidable (p.Undisturbed a)
  | .bound (.node _) => inferInstanceAs (Decidable (_ → _))
  | .bound (.removal _) => inferInstanceAs (Decidable (_ → _))
  | .bound .list => .isTrue trivial
  | .bound .remove => .isTrue trivial
  | .arm => .isTrue trivial
  | .tick => .isTrue trivial
  | .stopTimer => .isTrue trivial

section Steps
variable {cfg : Config} {p p' : Polled} {es : List Event}
variable {pc : RemovePc} {o : Option RemovePc} {b : Bound} {exiting : Bool} {s : Node} {a : Act}

theorem nodeStep_windsUp (hst : b.node.state = .disconnected)
    (hw : b.node.Winding) (ha : a.calm = true) (hs : b.nodeStep cfg a = some (s, es)) :
    WindsUp b.node (b.blocked s) := by
  have hup : WindsUp b.node s := by
    rcases Bound.nodeStep_cases hs with hs | ⟨rfl, -⟩
    · exact step_windsUp hst hw ha hs
    · exact verifyTo_windsUp hst hw
  unfold Bound.blocked
  split
  · exact hup.setPending _
  · exact hup

theorem RemovedTo.zero (p : Polled) : p.RemovedTo 0 := by
  refine ⟨by omega, by omega, ?_, ?_, by omega, by omega⟩
  · intro w hlt
    omega
  · intro w heq
    cases w <;> contradiction

theorem node_removedTo (hpc : p.bound.removal = some pc)
    (hi : p.RemovedTo pc.stage) (ha : p.bound.departed = true → a.calm = true)
    (hs : p.bound.nodeStep cfg a = some (s, es)) {t b : Bool} (hb : 1 ≤ pc.stage → b = false) :
    RemovedTo ⟨{p.bound with node := p.bound.blocked s}, t, b, p.stopped⟩ pc.stage := by
  by_cases hn : 1 ≤ pc.stage
  · obtain ⟨hst, hw, -⟩ := hi.winding hn
    have hdep : p.bound.departed = true := by
      rw [Bound.departed, hpc]
      exact pc.departed_iff.mpr hn
    have hup := nodeStep_windsUp hst hw (ha hdep) hs
    refine ⟨fun _ => ⟨hup.state, hup.winding, hb hn⟩, hi.stopped, ?_, ?_, ?_, hi.unlisted⟩
    · intro w hlt
      apply hup.idle (hi.idle w hlt)
      rintro rfl
      exact hi.idle .connect (Nat.lt_trans (by decide) hlt)
    · intro w heq
      -- the item that is waited for cannot be queued
      have hflush : pc = .flush w := by
        cases pc with
        | cancel v => cases v <;> cases w <;> contradiction
        | flush v => cases v <;> cases w <;> first | rfl | contradiction
        | _ => cases w <;> contradiction
      simp only [Bound.blocked, hpc, hflush, pending_setPending, if_true]
    · intro hge
      have hidle := hi.idle .connect (Nat.lt_of_lt_of_le (by decide) hge)
      exact hup.rings (by simpa [running] using hidle.2) (hi.rings hge)
  · have hzero : pc.stage = 0 := by omega
    rw [hzero]
    exact .zero _

theorem timer_of_winding (hw : p.bound.node.Winding) (harming : p.arming = false) (a : Act) :
    p.armingAfter (.node a) = false ∧ (p.timer = false → p.timerAfter (.node a) = false) := by
  cases a with
  | connect env =>
    have hann := hw.connect
    refine ⟨harming, fun htimer => ?_⟩
    have hne : p.bound.node.connectWork.running ≠ some .scheduleVerify := by
      intro hpc
      rw [hpc] at hann
      contradiction
    simp [timerAfter, htimer, hne]
  | verify ok =>
    have huns := hw.verify
    have hne : p.bound.node.verifyWork.running ≠ some .setReady := by
      intro hpc
      rw [hpc] at huns
      contradiction
    exact ⟨by simp [armingAfter, harming, hne], fun htimer => by simp [timerAfter, htimer]⟩
  | restart => exact ⟨harming, fun htimer => by simp [timerAfter, htimer]⟩
  | _ => exact ⟨harming, fun htimer => htimer⟩

theorem step_bound {a : BoundAct} (hs : p.step cfg (.bound a) = some (p', es)) :
    (p.arming && p.waitsForVerify a) = false ∧ p.stopsFirst a = false ∧
      p.bound.step cfg a = some (p'.bound, es) ∧
      p' = ⟨p'.bound, p.timerAfter a, p.armingAfter a, p.stopped⟩ := by
  simp only [step] at hs
  split at hs
  · contradiction
  · rename_i hfree
    obtain ⟨⟨b, fs⟩, hb, heq⟩ := Option.map_eq_some_iff.mp hs
    obtain ⟨rfl, rfl⟩ := Prod.mk.inj heq
    simp only [Bool.or_eq_true, not_or, Bool.not_eq_true] at hfree
    exact ⟨hfree.1, hfree.2, hb, rfl⟩

theorem blocked_ringsOk (hi : s.RingsOk) : (b.blocked s).RingsOk := by
  unfold RingsOk
  rw [Bound.blocked_toDevice]
  exact hi

theorem node_inv (hi : p.Inv) (ha : p.Undisturbed (.bound (.node a)))
    (hs : p.step cfg (.bound (.node a)) = some (p', es)) : p'.Inv := by
  obtain ⟨-, -, hb, hp⟩ := step_bound hs
  obtain ⟨-, s, hnode, hbound⟩ := Bound.step_node.mp hb
  rw [hbound] at hp
  subst hp
  have hquiet (pc : RemovePc) (hpc : p.bound.removal = some pc) (hn : 1 ≤ pc.stage) :=
    timer_of_winding ((hi.removal pc hpc).winding hn).2.1 ((hi.removal pc hpc).winding hn).2.2 a
  refine ⟨?_, ?_, ?_⟩
  · apply blocked_ringsOk
    rcases Bound.nodeStep_cases hnode with hstep | ⟨rfl, -⟩
    · exact step_ringsOk hi.ringsOk hstep
    · exact hi.ringsOk
  · intro pc hpc
    exact node_removedTo (p := p) hpc (hi.removal pc hpc) ha hnode fun hn => (hquiet pc hpc hn).1
  · intro hstop
    obtain ⟨htimer, pc, hpc, hn⟩ := hi.stopped hstop
    exact ⟨(hquiet pc hpc (by omega)).2 htimer, pc, hpc, hn⟩

theorem RemovedTo.early {t ar st : Bool} {n : Nat} (hst : b.node.state = .disconnected)
    (hw : b.node.Winding) (har : ar = false) (hn : n ≤ 2) : RemovedTo ⟨b, t, ar, st⟩ n := by
  have hlate (w : Worker) : 2 < w.flushStage := by cases w <;> decide
  refine ⟨fun _ => ⟨hst, hw, har⟩, by omega, ?_, ?_, by omega, by omega⟩
  · intro w hlt
    have := hlate w
    omega
  · intro w heq
    have := hlate w
    omega

theorem RemovedTo.late {d : Device} {l r t : Bool} {n m : Nat}
    (hi : p.RemovedTo n) (hn : 12 ≤ n) (hm : n ≤ m) (hst : d.state = p.bound.node.state)
    (hrx : 14 ≤ m → d.rxStarted = false) (hl : 17 ≤ m → l = false) :
    RemovedTo ⟨⟨{p.bound.node with toDevice := d}, l, r, o⟩, t, p.arming, p.stopped⟩ m := by
  obtain ⟨hdisc, hw, har⟩ := hi.winding (by omega)
  have hearly (w : Worker) : w.flushStage < 12 := by cases w <;> decide
  refine ⟨fun _ => ⟨hst.trans hdisc, ?_, har⟩, fun _ => hi.stopped (by omega), ?_, ?_, hrx, hl⟩
  · exact ⟨hw.handler, hw.restart, hw.connect, hw.login, hw.verify⟩
  · intro w _
    have hidle := hi.idle w (Nat.lt_of_lt_of_le (hearly w) hn)
    cases w <;> exact hidle
  · intro w heq
    have := hearly w
    omega

theorem RemovedTo.cancel {w : Worker} {r t : Bool}
    (hi : p.RemovedTo (RemovePc.cancel w).stage) (hstop : w = .verify → p.stopped = true) :
    RemovedTo ⟨⟨p.bound.node.setPending w false, p.bound.listed, r, o⟩, t, p.arming, p.stopped⟩
      (RemovePc.flush w).stage := by
  have hpos : 2 ≤ (RemovePc.cancel w).stage := by cases w <;> decide
  have hsucc : (RemovePc.flush w).stage = (RemovePc.cancel w).stage + 1 := by cases w <;> rfl
  have hlast : (RemovePc.flush w).stage ≤ 11 := by cases w <;> decide
  obtain ⟨hdisc, hw, har⟩ := hi.winding (by omega)
  refine ⟨fun _ => ⟨?_, hw.setPending w, har⟩, ?_, ?_, ?_, by omega, by omega⟩
  · rw [setPending_toDevice]
    exact hdisc
  · intro _
    by_cases hv : w = .verify
    · exact hstop hv
    · exact hi.stopped (by cases w <;> first | decide | exact absurd rfl hv)
  · intro v hlt
    have hne : v.flushStage ≠ (RemovePc.cancel w).stage := by cases v <;> cases w <;> decide
    have hidle := hi.idle v (by omega)
    refine ⟨?_, (running_setPending ..).trans hidle.2⟩
    rw [pending_setPending]
    split
    · rfl
    · exact hidle.1
  · intro v heq
    obtain rfl : v = w := by cases v <;> cases w <;> first | rfl | contradiction
    rw [pending_setPending, if_pos rfl]

theorem RemovedTo.flush {w : Worker} {r t : Bool}
    (hi : p.RemovedTo (RemovePc.flush w).stage) (hrun : p.bound.node.running w = false) :
    RemovedTo ⟨⟨p.bound.node, p.bound.listed, r, o⟩, t, p.arming, p.stopped⟩
      (Bound.afterFlush w).stage := by
  have hpos : 3 ≤ (RemovePc.flush w).stage := by cases w <;> decide
  have hsucc : (Bound.afterFlush w).stage = (RemovePc.flush w).stage + 1 := by cases w <;> rfl
  have hlast : (Bound.afterFlush w).stage ≤ 12 := by cases w <;> decide
  refine ⟨fun _ => hi.winding (by omega), fun _ => hi.stopped (by omega), ?_, ?_, by omega,
    by omega⟩
  · intro v hlt
    by_cases hvw : v = w
    · subst hvw
      exact ⟨hi.flushing v (RemovePc.stage_flush v).symm, hrun⟩
    · have hne : v.flushStage ≠ (RemovePc.flush w).stage := by
        cases v <;> cases w <;> first | decide | exact absurd rfl hvw
      exact hi.idle v (by omega)
  · intro v heq
    cases v <;> cases w <;> contradiction

theorem removeStep_removedTo {t : Bool} (hi : p.RemovedTo pc.stage) (hrings : p.bound.node.RingsOk)
    (hw : pc = .disconnect → p.bound.node.Winding ∧ p.arming = false)
    (hstop : pc = .cancel .verify → p.stopped = true)
    (hs : p.bound.removeStep exiting pc = some (b, es)) :
    ∃ pc', b.removal = some pc' ∧ pc.stage ≤ pc'.stage ∧
      RemovedTo ⟨b, t, p.arming, p.stopped⟩ pc'.stage := by
  cases pc with
  | disconnect =>
    obtain ⟨hwind, har⟩ := hw rfl
    cases hs
    refine ⟨_, rfl, Nat.zero_le _, RemovedTo.early rfl ?_ har (by split <;> decide)⟩
    exact ⟨hwind.handler, hwind.restart, hwind.connect, hwind.login, hwind.verify⟩
  | sendLogout =>
    obtain ⟨-, hwind, har⟩ := hi.winding (by decide)
    cases hs
    refine ⟨_, rfl, by decide, RemovedTo.early rfl ?_ har (by decide)⟩
    exact ⟨hwind.handler, hwind.restart, hwind.connect, hwind.login, hwind.verify⟩
  | cancel w =>
    cases hs
    exact ⟨_, rfl, by cases w <;> decide, hi.cancel fun hv => hstop (by rw [hv])⟩
  | flush w =>
    simp only [Bound.removeStep] at hs
    split at hs
    · contradiction
    · rename_i hrun
      cases hs
      exact ⟨_, rfl, by cases w <;> decide, hi.flush (Bool.eq_false_of_not_eq_true hrun)⟩
  | disablePaths =>
    cases hs
    exact ⟨_, rfl, by decide, hi.late (by decide) (by decide) rfl (fun h => absurd h (by decide))
      (fun h => absurd h (by decide))⟩
  | stopRings =>
    cases hs
    refine ⟨_, rfl, by decide, hi.late (by decide) (by decide) rfl (fun _ => ?_)
      (fun h => absurd h (by decide))⟩
    cases hrx : p.bound.node.rxStarted with
    | false => rfl
    | true =>
      rw [hrings hrx]
      rfl
  | testHop =>
    cases hs
    refine ⟨_, rfl, by split <;> decide, hi.late (by decide) ?_ rfl (fun _ => ?_) (fun h => ?_)⟩
    · split <;> decide
    · exact hi.rings (by decide)
    · exact absurd h (by split <;> decide)
  | releaseHop =>
    cases hs
    exact ⟨_, rfl, by decide, hi.late (by decide) (by decide) rfl
      (fun _ => hi.rings (by decide)) (fun h => absurd h (by decide))⟩
  | unlist =>
    cases hs
    exact ⟨_, rfl, by decide, hi.late (by decide) (by decide) rfl
      (fun _ => hi.rings (by decide)) (fun _ => rfl)⟩
  | free =>
    cases hs
    exact ⟨_, rfl, by decide, hi.late (by decide) (by decide) rfl
      (fun _ => hi.rings (by decide)) (fun _ => hi.unlisted (by decide))⟩
  | freed => contradiction

theorem removeStep_ringsOk {b b' : Bound}
    (hi : b.node.RingsOk) (hs : b.removeStep exiting pc = some (b', es)) : b'.node.RingsOk := by
  cases pc with
  | cancel w =>
    cases hs
    unfold RingsOk
    rw [setPending_toDevice]
    exact hi
  | flush w =>
    simp only [Bound.removeStep] at hs
    split at hs
    · contradiction
    · cases hs
      exact hi
  | stopRings =>
    cases hs
    intro hrx
    exact hi (Bool.and_eq_true_iff.mp hrx).1
  | freed => contradiction
  | _ =>
    cases hs
    exact hi

theorem removal_inv (hi : p.Inv) (ha : p.Undisturbed (.bound (.removal exiting)))
    (hs : p.step cfg (.bound (.removal exiting)) = some (p', es)) : p'.Inv := by
  obtain ⟨-, hfirst, hb, hp⟩ := step_bound hs
  obtain ⟨pc, hpc, hrem⟩ := Bound.step_removal.mp hb
  have hstop : pc = .cancel .verify → p.stopped = true := by
    rintro rfl
    simpa [stopsFirst, hpc] using hfirst
  have hw : pc = .disconnect → p.bound.node.Winding ∧ p.arming = false := by
    rintro rfl
    exact ha hpc
  obtain ⟨pc', hpc', hle, hto⟩ :=
    removeStep_removedTo (t := p.timer) (hi.removal pc hpc) hi.ringsOk hw hstop hrem
  rw [hp]
  refine ⟨removeStep_ringsOk hi.ringsOk hrem, ?_, ?_⟩
  · intro q hq
    obtain rfl : pc' = q := Option.some.inj (hpc'.symm.trans hq)
    exact hto
  · intro hstopped
    obtain ⟨htimer, q, hq, hn⟩ := hi.stopped hstopped
    obtain rfl : pc = q := Option.some.inj (hpc.symm.trans hq)
    exact ⟨htimer, pc', hpc', by omega⟩

theorem step_inv {a : PolledAct} (hi : p.Inv) (ha : p.Undisturbed a)
    (hs : p.step cfg a = some (p', es)) : p'.Inv := by
  cases a with
  | bound a =>
    cases a with
    | node a => exact node_inv hi ha hs
    | removal exiting => exact removal_inv hi ha hs
    | list =>
      obtain ⟨-, -, hb, hp⟩ := step_bound hs
      simp only [Bound.step] at hb
      split at hb
      · contradiction
      · rename_i hfree
        have hnone : p.bound.removal = none := by
          simpa using (not_or.mp (mt (Bool.or_eq_true _ _).mpr hfree)).2
        rw [hp, ← (Prod.mk.inj (Option.some.inj hb)).1]
        refine ⟨hi.ringsOk, ?_, hi.stopped⟩
        intro pc hpc
        rw [hnone] at hpc
        contradiction
    | remove =>
      obtain ⟨-, -, hb, hp⟩ := step_bound hs
      simp only [Bound.step] at hb
      split at hb
      · rename_i hlisted
        have hnone : p.bound.removal = none := by
          simpa using (Bool.and_eq_true_iff.mp hlisted).2
        rw [hp, ← (Prod.mk.inj (Option.some.inj hb)).1]
        refine ⟨hi.ringsOk, ?_, ?_⟩
        · rintro pc ⟨⟩
          exact .zero _
        · intro hstop
          obtain ⟨-, pc, hpc, -⟩ := hi.stopped hstop
          rw [hnone] at hpc
          contradiction
      · contradiction
  | arm =>
    simp only [step] at hs
    split at hs
    · rename_i harm
      cases hs
      refine ⟨hi.ringsOk, ?_, ?_⟩
      · intro pc hpc
        have hto := hi.removal pc hpc
        refine ⟨?_, hto.stopped, hto.idle, hto.flushing, hto.rings, hto.unlisted⟩
        intro hn
        exact ⟨(hto.winding hn).1, (hto.winding hn).2.1, rfl⟩
      · intro hstop
        obtain ⟨-, pc, hpc, hn⟩ := hi.stopped hstop
        have harming := ((hi.removal pc hpc).winding (by omega)).2.2
        rw [harming] at harm
        contradiction
    · contradiction
  | tick =>
    simp only [step] at hs
    split at hs
    · rename_i htick
      cases hs
      refine ⟨hi.ringsOk, ?_, ?_⟩
      · intro pc hpc
        have hto := hi.removal pc hpc
        exact ⟨hto.winding, hto.stopped, hto.idle, hto.flushing, hto.rings, hto.unlisted⟩
      · intro hstop
        rw [(hi.stopped hstop).1] at htick
        contradiction
    · contradiction
  | stopTimer =>
    simp only [step] at hs
    split at hs
    · rename_i hpc
      cases hs
      refine ⟨hi.ringsOk, ?_, fun _ => ⟨rfl, _, hpc, by decide⟩⟩
      intro pc hpc'
      have hto := hi.removal pc hpc'
      exact ⟨hto.winding, fun _ => rfl, hto.idle, hto.flushing, hto.rings, hto.unlisted⟩
    · contradiction

theorem probe_inv (ring : Nat) (hop : Int32) : (probe ring hop).Inv := by
  refine ⟨?_, ?_, ?_⟩
  · rintro ⟨⟩
  · rintro pc ⟨⟩
  · rintro ⟨⟩

end Steps

structure Quiet (p : Polled) : Prop where
  idle : ∀ w, p.bound.node.Idle w
  timer : p.timer = false
  arming : p.arming = false
  handler : p.bound.node.handler = none
  rings : p.bound.node.rxStarted = false
  unlisted : p.bound.listed = false

theorem Inv.quiet {p : Polled} {pc : RemovePc} (hi : p.Inv) (hpc : p.bound.removal = some pc)
    (hn : 17 ≤ pc.stage) : p.Quiet := by
  have hto := hi.removal pc hpc
  obtain ⟨-, hw, har⟩ := hto.winding (by omega)
  refine ⟨fun w => hto.idle w ?_, ?_, har, hw.handler, hto.rings (by omega), hto.unlisted hn⟩
  · have hearly : w.flushStage < 12 := by cases w <;> decide
    omega
  · exact (hi.stopped (hto.stopped (by omega))).1

theorem Quiet.no_step {cfg : Config} {p : Polled} (hq : p.Quiet) (a : Act) :
    p.bound.step cfg (.node a) = none := by
  rw [Option.eq_none_iff_forall_ne_some]
  rintro ⟨b, es⟩ hb
  obtain ⟨hreach, s, hs, -⟩ := Bound.step_node.mp hb
  have hverify : p.bound.node.verifyWork.running = none := by
    simpa [running] using (hq.idle .verify).2
  have hnone (hp : ∀ q sent, a ≠ .packet q sent) : p.bound.node.step cfg a = none :=
    step_of_idle hq.idle hq.handler hq.rings hp
  cases a with
  | packet q sent => simp [Bound.reaches, hq.unlisted] at hreach
  | verify ok => simp [Bound.nodeStep, hverify, Node.step] at hs
  | _ => exact absurd ((hnone (by simp)).symm.trans hs) (by simp)

/-- In every run in which the removal finds nobody past his look at the state and nothing comes in
after it, the state stays DISCONNECTED once it is set, and from the moment the device is off the
list and about to be freed nothing of it runs, is queued or can be queued. -/
theorem removal_leaves_nothing_running {cfg : Config} {ring : Nat} {hop : Int32} {p : Polled}
    {h : List Event}
    (hr : Reaches (step cfg) (fun p _ a => p.Undisturbed a) (probe ring hop) p h) :
    (p.bound.departed = true → p.bound.node.state = .disconnected) ∧
      (p.bound.removal = some .free ∨ p.bound.removal = some .freed →
        p.Quiet ∧ ∀ a, p.bound.step cfg (.node a) = none) := by
  have hi : p.Inv := by
    refine hr.invariant (fun p _ => p.Inv) (probe_inv ring hop) ?_
    intro p h a p' es _ hi hok hs
    exact step_inv hi hok hs
  constructor
  · intro hdep
    cases hpc : p.bound.removal with
    | none => simp [Bound.departed, hpc] at hdep
    | some pc =>
      rw [Bound.departed, hpc] at hdep
      exact ((hi.removal pc hpc).winding (pc.departed_iff.mp hdep)).1
  · intro hfree
    have hquiet : p.Quiet := by
      rcases hfree with hpc | hpc
      · exact hi.quiet hpc (by decide)
      · exact hi.quiet hpc (by decide)
    exact ⟨hquiet, hquiet.no_step⟩

def demoRemoved : List PolledAct := List.flatten
  [[.bound .list], demoHop.map (.bound <| .node ·), [.bound (.node (.start .verify)),
    .bound .remove, .bound (.removal false), .bound (.removal false), .tick],
    List.replicate 4 (.bound (.node (.verify true))), [.stopTimer],
    List.replicate 16 (.bound (.removal false))]

theorem demoRemoved_run : (run (step (demoCfg 3)) (fun p _ a => decide (p.Undisturbed a))
    (probe 64 8) [] demoRemoved).isSome = true := by decide +kernel

theorem removal_leaves_nothing_running_demo :
    ∃ p h, Reaches (step (demoCfg 3)) (fun p _ a => p.Undisturbed a) (probe 64 8) p h ∧
      p.bound.node.state = .disconnected ∧ p.bound.removal = some .freed ∧ p.Quiet := by
  have hr := Reaches.of_final (fun (p : Polled) _ a => p.Undisturbed a)
    (fun _ _ _ h => of_decide_eq_true h) demoRemoved_run
  have hdep : (final _ _ _ _ demoRemoved_run).1.bound.departed = true := by decide +kernel
  have hfreed : (final _ _ _ _ demoRemoved_run).1.bound.removal = some .freed := by decide +kernel
  obtain ⟨hstate, hquiet⟩ := removal_leaves_nothing_running hr
  exact ⟨_, _, hr, hstate hdep, hfreed, (hquiet (.inr hfreed)).1⟩

/-- The peer logs out while the device is removed; the restart work is queued before the removal
cancels it, and sets the state. -/
def demoReset : List PolledAct := List.flatten
  [[.bound .list], demoHop.map (.bound <| .node ·), [.bound .remove, .bound (.removal false),
    .bound (.node (.packet (demoPacket msgLogout 0 0 0) true)), .bound (.node .wake),
    .bound (.node (.start .restart))], List.replicate 14 (.bound (.node .restart))]

theorem demoReset_run : (run (step (demoCfg 3)) (fun _ _ _ => true)
    (probe 64 8) [] demoReset).isSome = true := by decide +kernel

/-- The peer logs out after the removal has cancelled the restart work. -/
def demoRequeued : List PolledAct := List.flatten
  [[.bound .list], demoHop.map (.bound <| .node ·), [.bound .remove, .bound (.removal false),
    .bound (.removal false), .stopTimer], List.replicate 14 (.bound (.removal false)),
    [.bound (.node (.packet (demoPacket msgLogout 0 0 0) true)), .bound (.node .wake),
    .bound (.removal false), .bound (.removal false)]]

theorem demoRequeued_run : (run (step (demoCfg 3)) (fun _ _ _ => true)
    (probe 64 8) [] demoRequeued).isSome = true := by decide +kernel

theorem removed_device_revived :
    (∃ p h, Reaches (step (demoCfg 3)) (fun _ _ _ => True) (probe 64 8) p h ∧
      p.bound.departed = true ∧ p.bound.node.state = .handshake) ∧
    ∃ p h, Reaches (step (demoCfg 3)) (fun _ _ _ => True) (probe 64 8) p h ∧
      p.bound.removal = some .freed ∧ p.bound.node.pending .restart = true := by
  have hreset := Reaches.of_final (fun _ _ _ => True) (fun _ _ _ _ => trivial) demoReset_run
  have hqueued := Reaches.of_final (fun _ _ _ => True) (fun _ _ _ _ => trivial) demoRequeued_run
  constructor
  · exact ⟨_, _, hreset, by decide +kernel, by decide +kernel⟩
  · exact ⟨_, _, hqueued, by decide +kernel, by decide +kernel⟩

end Polled

end OdinLink.Proto
