import OdinLink.Proto.FailClosed
import OdinLink.Proto.Removal

/-!
# Input hops are taken and given back

The connect work takes an input hop; the connect work, the restart work and the removal give it
back, with a flag as the only record of who still has to.
-/

namespace OdinLink.Proto

open History Node

/-- The hops held after the events, from those held before; `none` once a hop is given back that
is not held. -/
def ledger : List Int32 → List Event → Option (List Int32)
  | held, [] => some held
  | held, .hopAllocated _ granted :: es => ledger (granted :: held) es
  | held, .hopReleased id :: es => if id ∈ held then ledger (held.erase id) es else none
  | held, _ :: es => ledger held es

def Event.takesHop (id : Int32) : Event → Bool
  | .hopAllocated _ granted => granted == id
  | _ => false

def Event.givesHop (id : Int32) : Event → Bool
  | .hopReleased id' => id' == id
  | _ => false

def Event.isHop : Event → Bool
  | .hopAllocated _ _ | .hopReleased _ => true
  | _ => false

section Ledger
variable {held held' : List Int32} {e : Event} {h es : List Event}

theorem ledger_cons_of_not (he : e.isHop = false) : ledger held (e :: es) = ledger held es := by
  cases e <;> first | rfl | contradiction

theorem ledger_of_none (hes : es.any Event.isHop = false) : ledger held es = some held := by
  induction es with
  | nil => rfl
  | cons e es ih =>
    rw [List.any_cons, Bool.or_eq_false_iff] at hes
    rw [ledger_cons_of_not hes.1, ih hes.2]

theorem ledger_append (held : List Int32) (h es : List Event) :
    ledger held (h ++ es) = (ledger held h).bind fun l => ledger l es := by
  induction h generalizing held with
  | nil => rfl
  | cons e h ih =>
    rw [List.cons_append]
    cases hop : e.isHop with
    | false => rw [ledger_cons_of_not hop, ledger_cons_of_not hop, ih]
    | true =>
      cases e with
      | hopAllocated path granted => exact ih _
      | hopReleased id =>
        rw [ledger, ledger]
        split
        · exact ih _
        · rfl
      | _ => contradiction

theorem ledger_count (hl : ledger held h = some held') (id : Int32) :
    held.count id + h.countP (·.takesHop id) = h.countP (·.givesHop id) + held'.count id := by
  induction h generalizing held with
  | nil =>
    cases hl
    simp
  | cons e h ih =>
    rw [List.countP_cons, List.countP_cons]
    cases hop : e.isHop with
    | false =>
      rw [ledger_cons_of_not hop] at hl
      have hsum := ih hl
      have hnone : e.takesHop id = false ∧ e.givesHop id = false := by
        cases e <;> first | exact ⟨rfl, rfl⟩ | contradiction
      simp only [hnone, Bool.false_eq_true, if_false]
      omega
    | true =>
      cases e with
      | hopAllocated path granted =>
        have hsum := ih hl
        rw [List.count_cons] at hsum
        change _ + (_ + if (granted == id) = true then 1 else 0) = _ + 0 + _
        omega
      | hopReleased id' =>
        rw [ledger] at hl
        split at hl
        · rename_i hmem
          have hsum := ih hl
          have hpos := List.count_pos_iff.mpr hmem
          rw [List.count_erase] at hsum
          change _ + (_ + 0) = _ + (if (id' == id) = true then 1 else 0) + _
          by_cases heq : id' = id
          · subst heq
            simp only [beq_self_eq_true, if_true] at hsum ⊢
            omega
          · simp only [beq_eq_false_iff_ne.mpr heq, Bool.false_eq_true, if_false] at hsum ⊢
            omega
        · contradiction
      | _ => contradiction

end Ledger

def ConnectPc.atHop : ConnectPc → Bool
  | .setup _ _ _ | .disablePaths _ | .stopRings | .releaseHop => true
  | _ => false

/-- What the connect work relies on: no hop is held when it takes one, and the one it took is
still held when it gives it back. -/
def ConnectPc.holds : ConnectPc → Option Bool
  | .setup _ _ .releaseOld => none
  | .setup _ _ .allocHop => some false
  | .setup _ _ _ | .disablePaths _ | .stopRings | .releaseHop => some true
  | _ => none

theorem ConnectPc.holds_of_not {pc : ConnectPc} (hpc : pc.atHop = false) : pc.holds = none := by
  cases pc <;> first | rfl | contradiction

theorem Change.sameHop {cfg : Config} {s : Node} {a : Act} {es : List Event} {d : Device}
    (hc : Change cfg s a es d) (hn : a.moves ≠ some .connect) (hr : a.moves ≠ some .restart) :
    d.inHopidValid = s.inHopidValid ∧ d.inHopid = s.inHopid := by
  cases hc with
  | hopReleased es hq ha => exact absurd ha (by simp [hn, hr])
  | hopAllocated ha => exact absurd ha hn
  | _ => exact ⟨rfl, rfl⟩

namespace Node

def held (s : Node) : List Int32 := if s.inHopidValid then [s.inHopid] else []

def connectAtHop (s : Node) : Bool := s.connectWork.running.any ConnectPc.atHop

def KnowsHop (s : Node) : Prop :=
  ∀ pc v, s.connectWork.running = some pc → pc.holds = some v → s.inHopidValid = v

def grants (s : Node) : Act → Bool
  | .connect env =>
    match s.connectWork.running with
    | some (.setup path _ .allocHop) => env.hop < 0 || env.hop == path
    | _ => true
  | _ => true

structure HopStep (s s' : Node) (es : List Event) : Prop where
  kept : ledger s.held es = some s'.held
  knows : s'.KnowsHop
  same : s.connectAtHop = false →
    s'.inHopidValid = s.inHopidValid ∨
      s.restartWork.running = some .releaseHop ∧ s'.inHopidValid = false

section Steps
variable {cfg : Config} {s s' : Node} {a : Act} {es : List Event}

theorem step_no_hop (hc : a.moves ≠ some .connect) (hr : a.moves ≠ some .restart)
    (hs : s.step cfg a = some (s', es)) : es.any Event.isHop = false := by
  cases a with
  | packet p sent =>
    have he := (step_packet.mp hs).2
    unfold handlePacket handleLogin handleLogout acceptLogin at he
    grind [Event.isHop]
  | wake =>
    obtain ⟨w, -, -, rfl⟩ := step_wake.mp hs
    rfl
  | control pool type =>
    have he := (step_control.mp hs).2
    unfold rxControl at he
    grind [Event.isHop]
  | start w =>
    obtain ⟨-, rfl⟩ := step_start.mp hs
    rfl
  | login reply =>
    obtain ⟨pc, -, he⟩ := step_login.mp hs
    cases pc <;> cases reply <;> grind [loginStep, Event.isHop]
  | connect env => exact absurd rfl hc
  | restart => exact absurd rfl hr
  | verify ok =>
    obtain ⟨pc, -, he⟩ := step_verify.mp hs
    cases pc <;> grind [verifyStep, Event.isHop]
  | ctrlReply ok =>
    obtain ⟨pc, -, he⟩ := step_ctrlReply.mp hs
    cases pc <;> grind [ctrlReplyStep, Event.isHop]

theorem held_congr (hvalid : s'.inHopidValid = s.inHopidValid) (hid : s'.inHopid = s.inHopid) :
    s'.held = s.held := by
  rw [held, held, hvalid, hid]

theorem held_of_not (hvalid : s.inHopidValid = false) : s.held = [] := by
  rw [held, hvalid]
  rfl

theorem held_of_valid (hvalid : s.inHopidValid = true) : s.held = [s.inHopid] := by
  rw [held, hvalid]
  rfl

theorem HopStep.of_same (hvalid : s'.inHopidValid = s.inHopidValid) (hid : s'.inHopid = s.inHopid)
    (hes : es.any Event.isHop = false) (hk : s'.KnowsHop) : HopStep s s' es :=
  ⟨by rw [ledger_of_none hes, held_congr hvalid hid], hk, fun _ => .inl hvalid⟩

theorem HopStep.of_connect {pc' : Option ConnectPc}
    (hk : ∀ pc v, pc' = some pc → pc.holds = some v → s.inHopidValid = v)
    (hpc : s'.connectWork.running = pc' := by rfl)
    (hvalid : s'.inHopidValid = s.inHopidValid := by rfl) (hid : s'.inHopid = s.inHopid := by rfl)
    (hes : es.any Event.isHop = false := by rfl) : HopStep s s' es := by
  refine .of_same hvalid hid hes fun pc v hrun hv => ?_
  rw [hvalid]
  exact hk pc v (hpc.symm.trans hrun) hv

theorem HopStep.of_release (hvalid : s.inHopidValid = true) (hes : ledger [s.inHopid] es = some [])
    (hvalid' : s'.inHopidValid = false)
    (hk : ∀ pc v, s'.connectWork.running = some pc → pc.holds = some v → v = false)
    (hat : s.connectAtHop = true ∨ s.restartWork.running = some .releaseHop) : HopStep s s' es := by
  refine ⟨?_, fun pc v hrun hv => hvalid'.trans (hk pc v hrun hv).symm, fun hnot => .inr ?_⟩
  · rw [held_of_valid hvalid, hes, held_of_not hvalid']
  · refine ⟨hat.resolve_left ?_, hvalid'⟩
    rw [hnot]
    exact Bool.false_ne_true

theorem ledger_single (id : Int32) (es : List Event) (hes : es.any Event.isHop = false) :
    ledger [id] (es ++ [.hopReleased id]) = some [] := by
  rw [ledger_append, ledger_of_none hes]
  simp [ledger]

theorem setupStep_hop {env : ConnectEnv} {path : Int32} {gen : UInt32} {pc : SetupPc}
    (hpc : s.connectWork.running = some (.setup path gen pc)) (hk : s.KnowsHop)
    (hg : s.grants (.connect env) = true) (hs : s.setupStep env path gen pc = some (s', es)) :
    HopStep s s' es := by
  have hat : s.connectAtHop = true := by
    rw [connectAtHop, hpc]
    rfl
  cases pc with
  | releaseOld =>
    simp only [setupStep] at hs
    split at hs
    · rename_i hvalid
      cases hs
      refine .of_release hvalid (ledger_single _ _ ?_) rfl ?_ (.inl hat)
      · split <;> rfl
      · rintro pc v ⟨⟩ hv
        cases hv
        rfl
    · rename_i hvalid
      cases hs
      refine .of_connect ?_
      rintro pc v ⟨⟩ hv
      cases hv
      exact Bool.eq_false_iff.mpr hvalid
  | allocHop =>
    have hfree : s.inHopidValid = false := hk _ _ hpc rfl
    simp only [setupStep] at hs
    split at hs
    · cases hs
      refine .of_connect ?_
      rintro pc v ⟨⟩ hv
      cases hv
    · rename_i hneg
      cases hs
      have hgrant : env.hop = path := by
        simpa [grants, hpc, hneg] using hg
      refine ⟨?_, ?_, fun hnot => ?_⟩
      · rw [held_of_not hfree, hgrant]
        rfl
      · rintro pc v ⟨⟩ hv
        cases hv
        rfl
      · rw [hat] at hnot
        contradiction
  | startRings =>
    simp only [setupStep] at hs
    split at hs
    · cases hs
      refine .of_connect ?_
      rintro pc v ⟨⟩ hv
      cases hv
      exact hk _ _ hpc rfl
    · contradiction
  | primeRx =>
    simp only [setupStep] at hs
    split at hs <;> cases hs <;> refine .of_connect ?_ <;> rintro pc v ⟨⟩ hv <;>
      cases hv <;> exact hk _ _ hpc rfl
  | enablePaths attempt =>
    simp only [setupStep] at hs
    split at hs
    · cases hs
      refine .of_connect ?_
      rintro pc v ⟨⟩ hv
      cases hv
      exact hk _ _ hpc rfl
    · split at hs <;> cases hs <;> refine .of_connect ?_ <;>
        rintro pc v ⟨⟩ hv <;> cases hv <;> exact hk _ _ hpc rfl
  | finish =>
    simp only [setupStep] at hs
    split at hs
    · cases hs
      refine .of_connect ?_
      rintro pc v ⟨⟩ hv
      cases hv
      exact hk _ _ hpc rfl
    · cases hs
      refine .of_connect ?_
      rintro pc v ⟨⟩ hv
      cases hv

theorem ringsResize_hop (n : Nat) (env : ConnectEnv) :
    (s.ringsResize n env).2.inHopidValid = s.inHopidValid ∧
      (s.ringsResize n env).2.inHopid = s.inHopid := by
  unfold ringsResize ringsAlloc ringsFree
  constructor <;> grind

theorem connectBegin_hop {env : ConnectEnv} (hs : s.connectBegin cfg env = (s', es)) :
    HopStep s s' es := by
  unfold connectBegin at hs
  split at hs
  · cases hs
    refine .of_connect ?_
    nofun
  · dsimp only at hs
    split at hs
    · obtain ⟨hvalid, hid⟩ := s.ringsResize_hop s.peerRingSize env
      split at hs <;> cases hs
      · refine .of_connect ?_ rfl hvalid hid
        rintro pc v ⟨⟩ ⟨⟩
      · exact .of_connect (by nofun) rfl hvalid hid
    · split at hs <;> cases hs <;> refine .of_connect ?_ <;>
        rintro pc v ⟨⟩ ⟨⟩

theorem connectStep_hop {env : ConnectEnv} {pc : ConnectPc} (hpc : s.connectWork.running = some pc)
    (hk : s.KnowsHop) (hg : s.grants (.connect env) = true)
    (hs : s.connectStep cfg env pc = some (s', es)) : HopStep s s' es := by
  cases pc with
  | setup path gen pc => exact setupStep_hop hpc hk hg hs
  | begin =>
    simp only [connectStep, Option.some.injEq] at hs
    exact connectBegin_hop hs
  | disablePaths path | stopRings =>
    cases hs
    refine .of_connect ?_
    rintro pc v ⟨⟩ hv
    cases hv
    exact hk _ _ hpc rfl
  | releaseHop =>
    cases hs
    refine .of_release (hk _ _ hpc rfl) (ledger_single _ [] rfl) rfl ?_ (.inl ?_)
    · rintro pc v ⟨⟩ hv
      cases hv
    · rw [connectAtHop, hpc]
      rfl
  | failed | allocPools =>
    cases hs
    refine .of_connect ?_
    rintro pc v ⟨⟩ hv
    cases hv
  | relogin | retryLogin | scheduleVerify =>
    cases hs
    refine .of_connect (by simp) (show _ = (none : Option ConnectPc) from rfl) ?_ ?_
    · exact congrArg Device.inHopidValid (s.schedule_toDevice _)
    · exact congrArg Device.inHopid (s.schedule_toDevice _)

theorem restartStep_hop {pc : RestartPc} (hpc : s.restartWork.running = some pc) (hk : s.KnowsHop)
    (hapart : pc = .releaseHop → s.connectAtHop = false) (hs : s.restartStep pc = some (s', es)) :
    HopStep s s' es := by
  have hconn : s'.connectWork.running = s.connectWork.running :=
    (restartStep_others hs).connect (by simp)
  have hkept (hvalid : s'.inHopidValid = s.inHopidValid) : s'.KnowsHop := fun pc v hrun hv =>
    hvalid.trans (hk pc v (hconn.symm.trans hrun) hv)
  cases pc with
  | releaseHop =>
    have hnot := hapart rfl
    cases hs
    by_cases hvalid : s.inHopidValid = true
    · rw [if_pos hvalid]
      refine .of_release hvalid (ledger_single _ [] rfl) rfl ?_ (.inr hpc)
      intro pc v hrun hv
      rw [connectAtHop, ← hconn, hrun] at hnot
      exact absurd ((ConnectPc.holds_of_not hnot).symm.trans hv) nofun
    · rw [if_neg hvalid]
      have hfalse := Bool.eq_false_iff.mpr hvalid
      exact .of_same hfalse.symm rfl rfl (hkept hfalse.symm)
  | cancel w =>
    cases hs
    have hdev : (s.setPending w false).toDevice = s.toDevice := s.setPending_toDevice w false
    have hvalid := congrArg Device.inHopidValid hdev
    exact .of_same hvalid (congrArg Device.inHopid hdev) rfl (hkept hvalid)
  | flush w =>
    simp only [restartStep] at hs
    split at hs
    · contradiction
    · cases hs
      exact .of_same rfl rfl rfl (hkept rfl)
  | teardown =>
    simp only [restartStep] at hs
    split at hs <;> cases hs
    · refine .of_same rfl rfl ?_ (hkept rfl)
      split <;> rfl
    · exact .of_same rfl rfl rfl (hkept rfl)
  | relogin =>
    cases hs
    have hdev : (s.schedule .login).toDevice = s.toDevice := s.schedule_toDevice .login
    have hvalid := congrArg Device.inHopidValid hdev
    exact .of_same hvalid (congrArg Device.inHopid hdev) rfl (hkept hvalid)
  | clearPong | stopRings | reset =>
    cases hs
    exact .of_same rfl rfl rfl (hkept rfl)

theorem startWork_hop {w : Worker} (hk : s.KnowsHop) (hs : s.startWork w = some s') :
    HopStep s s' [] := by
  have hdev := startWork_toDevice hs
  have hvalid := congrArg Device.inHopidValid hdev
  refine .of_same hvalid (congrArg Device.inHopid hdev) rfl fun pc v hrun hv => ?_
  by_cases hw : w = .connect
  · subst hw
    unfold startWork at hs
    split at hs
    · cases hs
      cases hrun
      cases hv
    · contradiction
  · rw [(startWork_others hs).connect (by simpa using hw)] at hrun
    exact hvalid.trans (hk pc v hrun hv)

theorem step_hop (hk : s.KnowsHop) (hg : s.grants a = true)
    (hapart : s.restartWork.running = some .releaseHop → s.connectAtHop = false)
    (hs : s.step cfg a = some (s', es)) : HopStep s s' es := by
  cases a with
  | connect env =>
    obtain ⟨pc, hpc, hs⟩ := step_connect.mp hs
    exact connectStep_hop hpc hk hg hs
  | restart =>
    obtain ⟨pc, hpc, hs⟩ := step_restart.mp hs
    exact restartStep_hop hpc hk (fun hrel => hapart (hrel ▸ hpc)) hs
  | start w =>
    obtain ⟨hw, rfl⟩ := step_start.mp hs
    exact startWork_hop hk hw
  | packet | wake | control | login | verify | ctrlReply =>
    obtain ⟨hvalid, hid⟩ := (step_change hs).sameHop (by simp [Act.moves]) (by simp [Act.moves])
    refine .of_same hvalid hid (step_no_hop (by simp [Act.moves]) (by simp [Act.moves]) hs) ?_
    intro pc v hrun hv
    rw [(step_others hs).connect (by simp [Act.moves])] at hrun
    exact hvalid.trans (hk pc v hrun hv)

end Steps

end Node

def RemovePc.atHop : RemovePc → Bool
  | .releaseHop | .unlist | .free | .freed => true
  | _ => false

namespace Bound

/-- The connect work is not at the hop while the restart work or the removal gives it back, nor
after the removal has, and the restart work does not give it back together with the removal. -/
def HopsApart (b : Bound) : Prop :=
  (b.node.connectAtHop = true →
    b.node.restartWork.running ≠ some .releaseHop ∧ b.removal.any RemovePc.atHop = false) ∧
  (b.node.restartWork.running = some .releaseHop → b.removal ≠ some .releaseHop)

instance (b : Bound) : Decidable b.HopsApart := inferInstanceAs (Decidable (_ ∧ _))

def grants (b : Bound) : BoundAct → Bool
  | .node a => b.node.grants a
  | _ => true

structure HopInv (b : Bound) (h : List Event) : Prop where
  kept : ledger [] h = some b.node.held
  knows : b.node.KnowsHop
  tested : b.removal = some .releaseHop → b.node.inHopidValid = true
  released : ∀ pc, b.removal = some pc → pc.atHop = true → pc ≠ .releaseHop →
    b.node.inHopidValid = false

section Steps
variable {cfg : Config} {b b' : Bound} {h es : List Event}

theorem HopsApart.away (hx : b.HopsApart) (hat : b.removal.any RemovePc.atHop = true) :
    b.node.connectAtHop = false := by
  by_contra hconn
  rw [(hx.1 (by simpa using hconn)).2] at hat
  contradiction

theorem HopInv.extend (hi : HopInv b h) (hes : ledger b.node.held es = some b'.node.held) :
    ledger [] (h ++ es) = some b'.node.held := by
  rw [ledger_append, hi.kept]
  exact hes

theorem HopInv.of_same (hi : HopInv b h) (hes : es.any Event.isHop = false)
    (hvalid : b'.node.inHopidValid = b.node.inHopidValid) (hid : b'.node.inHopid = b.node.inHopid)
    (hconn : b'.node.connectWork.running = b.node.connectWork.running)
    (htested : b'.removal = some .releaseHop → b.node.inHopidValid = true)
    (hreleased : ∀ pc, b'.removal = some pc → pc.atHop = true → pc ≠ .releaseHop →
      b.node.inHopidValid = false) : HopInv b' (h ++ es) where
  kept := hi.extend (by rw [ledger_of_none hes, held_congr hvalid hid])
  knows pc v hrun hv := hvalid.trans (hi.knows pc v (hconn.symm.trans hrun) hv)
  tested hpc := hvalid.trans (htested hpc)
  released pc hpc hat hne := hvalid.trans (hreleased pc hpc hat hne)

theorem HopInv.of_before (hi : HopInv b h) (hes : es.any Event.isHop = false)
    (hvalid : b'.node.inHopidValid = b.node.inHopidValid) (hid : b'.node.inHopid = b.node.inHopid)
    (hconn : b'.node.connectWork.running = b.node.connectWork.running)
    (hbefore : b'.removal.any RemovePc.atHop = false) : HopInv b' (h ++ es) := by
  refine hi.of_same hes hvalid hid hconn (fun hpc => ?_) fun pc hpc hat _ => ?_
  · rw [hpc] at hbefore
    contradiction
  · rw [hpc, Option.any_some, hat] at hbefore
    contradiction

theorem node_hop {a : Act} (hi : HopInv b h) (hx : b.HopsApart) (hg : b.node.grants a = true)
    (hs : b.step cfg (.node a) = some (b', es)) : HopInv b' (h ++ es) := by
  obtain ⟨-, s, hn, rfl⟩ := step_node.mp hs
  have hstep : HopStep b.node s es := by
    have hapart (hrel : b.node.restartWork.running = some .releaseHop) :
        b.node.connectAtHop = false := by
      by_contra hat
      exact (hx.1 (by simpa using hat)).1 hrel
    rcases nodeStep_cases hn with hn | ⟨rfl, rfl⟩
    · exact step_hop hi.knows hg hapart hn
    · exact .of_same rfl rfl rfl hi.knows
  have hdev := b.blocked_toDevice s
  have hvalid : (b.blocked s).inHopidValid = s.inHopidValid := congrArg Device.inHopidValid hdev
  have hheld : (b.blocked s).held = s.held := held_congr hvalid (congrArg Device.inHopid hdev)
  refine ⟨hi.extend (hheld ▸ hstep.kept), ?_, ?_, ?_⟩
  · intro pc v hrun hv
    rw [blocked_connect] at hrun
    exact hvalid.trans (hstep.knows pc v hrun hv)
  · intro hrel
    have hsame := (hstep.same (hx.away (hrel ▸ rfl))).resolve_right fun hrest => hx.2 hrest.1 hrel
    exact hvalid.trans (hsame.trans (hi.tested hrel))
  · intro pc hpc hat hne
    have hfalse := hi.released pc hpc hat hne
    rw [hvalid]
    rcases hstep.same (hx.away (by rw [hpc]; exact hat)) with hsame | ⟨-, hsame⟩
    · exact hsame.trans hfalse
    · exact hsame

theorem remove_hop {exiting : Bool} (hi : HopInv b h) (hx : b.HopsApart)
    (hs : b.step cfg (.removal exiting) = some (b', es)) : HopInv b' (h ++ es) := by
  obtain ⟨pc, hpc, hs⟩ := step_removal.mp hs
  cases pc with
  | disconnect =>
    cases hs
    refine hi.of_before rfl rfl rfl rfl ?_
    split <;> rfl
  | sendLogout | stopRings =>
    cases hs
    exact hi.of_before rfl rfl rfl rfl rfl
  | cancel w =>
    cases hs
    have hdev := b.node.setPending_toDevice w false
    refine hi.of_before rfl (congrArg Device.inHopidValid hdev) (congrArg Device.inHopid hdev) ?_ rfl
    exact (setPending_others (m := none) b.node w false).connect (by simp)
  | flush w =>
    rw [removeStep] at hs
    split at hs
    · contradiction
    · cases hs
      refine hi.of_before rfl rfl rfl rfl ?_
      cases w <;> rfl
  | disablePaths =>
    cases hs
    refine hi.of_before ?_ rfl rfl rfl rfl
    split <;> rfl
  | testHop =>
    cases hs
    by_cases hvalid : b.node.inHopidValid = true
    · rw [if_pos hvalid]
      refine hi.of_same rfl rfl rfl rfl (fun _ => hvalid) ?_
      rintro pc ⟨⟩ - hne
      exact absurd rfl hne
    · rw [if_neg hvalid]
      exact hi.of_same rfl rfl rfl rfl nofun fun _ _ _ _ => Bool.eq_false_iff.mpr hvalid
  | releaseHop =>
    cases hs
    have hvalid := hi.tested hpc
    have hnot := hx.away (hpc ▸ rfl)
    refine ⟨hi.extend ?_, fun pc v hrun hv => ?_, nofun, fun _ _ _ _ => rfl⟩
    · rw [held_of_valid hvalid]
      exact ledger_single _ [] rfl
    · change b.node.connectWork.running = some pc at hrun
      rw [connectAtHop, hrun] at hnot
      exact absurd ((ConnectPc.holds_of_not hnot).symm.trans hv) nofun
  | unlist | free =>
    cases hs
    exact hi.of_same rfl rfl rfl rfl nofun fun _ _ _ _ => hi.released _ hpc rfl nofun
  | freed => cases hs

theorem step_inv {a : BoundAct} (hi : HopInv b h) (hx : b.HopsApart) (hg : b.grants a = true)
    (hs : b.step cfg a = some (b', es)) : HopInv b' (h ++ es) := by
  cases a with
  | node a => exact node_hop hi hx hg hs
  | removal exiting => exact remove_hop hi hx hs
  | list =>
    simp only [step] at hs
    split at hs
    · contradiction
    · cases hs
      exact hi.of_same rfl rfl rfl rfl hi.tested hi.released
  | remove =>
    simp only [step] at hs
    split at hs
    · cases hs
      exact hi.of_before rfl rfl rfl rfl rfl
    · contradiction

end Steps

end Bound

/-- From probe to removal, in every run in which the parties to the hop keep apart and every hop
granted is the one asked for: a hop that is given back is held, at most one is held, and once the
device is freed none is, each having been given back as often as it was taken. -/
theorem hops_released_once {cfg : Config} {ring : Nat} {hop : Int32} {b : Bound} {h : List Event}
    (hr : Reaches (Bound.step cfg) (fun b _ a => b.HopsApart ∧ b.grants a = true) (Bound.probe ring hop)
      b h) :
    ∃ held, ledger [] h = some held ∧ held.length ≤ 1 ∧
      (b.removal = some .freed →
        held = [] ∧ ∀ id, h.countP (·.takesHop id) = h.countP (·.givesHop id)) := by
  have hi : b.HopInv h := by
    refine hr.invariant (fun b h => b.HopInv h) ⟨rfl, nofun, nofun, nofun⟩ ?_
    rintro b h a b' es - hi ⟨hx, hg⟩ hs
    exact Bound.step_inv hi hx hg hs
  refine ⟨b.node.held, hi.kept, ?_, fun hfreed => ?_⟩
  · rw [held]
    split <;> simp
  · have hnone := held_of_not (hi.released _ hfreed rfl nofun)
    refine ⟨hnone, fun id => ?_⟩
    have hcount := ledger_count hi.kept id
    simpa [hnone] using hcount

def demoHop : List Act := demoLogin 9 64 ++ List.replicate 3 (.connect (demoEnv 9))

def demoReconnect : List Act := List.flatten
  [demoHop, [.packet (demoPacket msgLogout 0 0 0) true, .wake, .start .restart],
    List.replicate 14 .restart, demoHop]

def demoRemoval : List BoundAct :=
  .list :: demoReconnect.map .node ++ .remove :: List.replicate 18 (.removal true)

theorem demoRemoval_run : (run (Bound.step (demoCfg 3))
    (fun b _ a => decide (b.HopsApart ∧ b.grants a = true)) (.probe 64 8) []
      demoRemoval).isSome = true := by
  decide +kernel

theorem hops_released_once_demo : ∃ b h, Reaches (Bound.step (demoCfg 3))
      (fun b _ a => b.HopsApart ∧ b.grants a = true) (.probe 64 8) b h ∧ b.removal = some .freed ∧
    h.countP (·.takesHop 9) = 2 ∧ h.countP (·.givesHop 9) = 2 := by
  have hr := Reaches.of_final (fun (b : Bound) _ a => b.HopsApart ∧ b.grants a = true)
    (fun _ _ _ h => of_decide_eq_true h) demoRemoval_run
  have hfreed : (final _ _ _ _ demoRemoval_run).1.removal = some .freed := by decide +kernel
  have htwo : (final _ _ _ _ demoRemoval_run).2.countP (·.takesHop 9) = 2 := by decide +kernel
  obtain ⟨_, -, -, hend⟩ := hops_released_once hr
  exact ⟨_, _, hr, hfreed, htwo, ((hend hfreed).2 9).symm.trans htwo⟩

/-- The login work queues the connect work after the restart work has cancelled it; the restart
work then gives back the hop the connect work has just taken, and so does the connect work. -/
def demoOverlap : List Act := List.flatten
  [[.start .login, .login none, .packet (demoPacket msgLogout 0 0 0) true, .wake, .start .restart],
    List.replicate 6 .restart,
    [.packet (demoPacket msgLogin 3 9 64) true, .login (some (demoReply 9 64)), .login none,
      .login none],
    List.replicate 3 .restart, [.start .connect], List.replicate 4 (.connect (demoEnv 9)),
    List.replicate 3 .restart, List.replicate 3 (.connect (demoEnv 9))]

theorem demoOverlap_run : (run (Bound.step (demoCfg 3)) (fun b _ a => b.grants a)
    (.probe 64 8) [] (.list :: demoOverlap.map .node)).isSome = true := by
  decide +kernel

theorem hop_released_twice : ∃ b h, Reaches (Bound.step (demoCfg 3)) (fun b _ a => b.grants a = true)
      (.probe 64 8) b h ∧ ledger [] h = none ∧ h.countP (·.takesHop 9) = 1 ∧
    h.countP (·.givesHop 9) = 2 :=
  ⟨_, _, .of_final (fun (b : Bound) _ a => b.grants a = true) (fun _ _ _ h => h)
    demoOverlap_run, by decide +kernel⟩

end OdinLink.Proto
