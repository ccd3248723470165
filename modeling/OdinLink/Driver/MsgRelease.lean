import OdinLink.Driver.SendAccounting

/-!
# The release of a message

Whoever drops the last reference of a message releases it. Nobody looks at it afterwards if the last
reference is dropped when nobody is left in the completion check.
-/

namespace OdinLink

open Threads History

variable {ok : Sys TxMem TxPc → List TxEvent → Move TxStart Bool → Prop} {s : Sys TxMem TxPc}
  {h : List TxEvent}

theorem step_msg (hr : Reaches txProg.step ok ⟨.init, []⟩ s h) {i : Nat} {x : Bool} {p p' : TxPc}
    {m : TxMem} {es : List TxEvent} (hp : s.pcs[i]? = some p)
    (ho : txOp s.mem p x = some (m, p', es)) :
    (∃ k pos g g', p = .on k pos ∧ s.mem.msgs k = some g ∧ Covered g pos ∧
      MsgStep s.mem k g pos m g' p' es) ∨
    p' = .returned ∧ ∀ k e, .msg k e ∉ es := by
  by_cases hon : ∃ k pos, p = .on k pos
  · obtain ⟨k, pos, rfl⟩ := hon
    obtain ⟨g, hg, ho⟩ := Option.bind_eq_some_iff.mp ho
    obtain ⟨hb, hinf, ht⟩ := msgBalanced hr
    have hmem := List.mem_of_getElem? hp
    have hc := covered hb hg (ht.of_some hg) hmem
    obtain ⟨g₁, hg₁, hknown⟩ := hinf _ hmem
    obtain rfl : g₁ = g := Option.some.inj (hg₁.symm.trans hg)
    obtain ⟨g', hs⟩ := onOp_msg hg ((bufBalanced hr).2.1 _ hmem) hknown hc ho
    exact .inl ⟨k, pos, g₁, g', rfl, hg, hc, hs⟩
  · obtain ⟨-, hp', st, -, hes⟩ := txOp_waiter (fun k pos he => hon ⟨k, pos, he⟩) ho
    refine .inr ⟨hp', fun k e => ?_⟩
    rcases hes with rfl | ⟨rfl, -⟩ <;> simp

def sendAndWait : List (Move TxStart Bool) :=
  Move.start (TxStart.send 0 7 .latency 1) :: List.replicate 12 (.run 0 true) ++
    Move.start (TxStart.complete 0 false) :: List.replicate 10 (.run 1 true) ++
    [Move.start (TxStart.waitTx 7), .run 2 true]

def putsAlone (s : Sys TxMem TxPc) : Move TxStart Bool → Bool
  | .run i _ =>
    match s.pcs[i]? with
    | some (.on k pos) =>
      match s.mem.msgs k with
      | some g => !(pos.puts && g.refs == 1) || s.pcs.all fun p => !p.completing k
      | none => true
    | _ => true
  | .start _ => true

theorem zero_of_mem {k : Nat} (hzero : .msg k .zero ∈ h) : occurs k (· == .zero) h ≠ 0 := by
  have hpos : 0 < occurs k (· == .zero) h := List.countP_pos_iff.mpr ⟨_, hzero, by simp⟩
  omega

theorem puts_parts {pos : TxPos} (hputs : pos.puts = true) :
    pos.parts.pre = 0 ∧ pos.parts.pend = 0 := by
  cases pos with
  | complete own stage => cases stage <;> simp
  | ownPut => simp
  | _ => simp at hputs

theorem txStart_completing {m m' : TxMem} {x : TxStart} {p : TxPc} {es : List TxEvent}
    (hx : txStart m x = some (m', some p, es)) (k : Nat) : p.completing k = false := by
  cases x with
  | send j st mode frames =>
    rw [txStart] at hx
    split at hx <;> cases hx
    simp
  | complete i canceled =>
    simp only [txStart, Option.map_eq_some_iff, Prod.mk.injEq, Option.some.injEq] at hx
    obtain ⟨f, -, -, rfl, -⟩ := hx
    cases f <;> simp [RingFrame.callback]
  | waitTx st =>
    cases hx
    rfl

section Alone
variable (hr : Reaches txProg.step (fun s _ a => putsAlone s a = true) ⟨.init, []⟩ s h)
include hr

theorem not_completing {k : Nat} (hzero : .msg k .zero ∈ h) :
    ∀ p ∈ s.pcs, p.completing k = false := by
  refine hr.invariant (fun (s : Sys TxMem TxPc) h => .msg k .zero ∈ h →
    ∀ p ∈ s.pcs, p.completing k = false) nofun ?_ hzero
  intro s h a s' es hr hI hok hs hzero
  cases a with
  | start x =>
    obtain ⟨m, o, hx, rfl⟩ := step_start.mp hs
    rw [(txStart_msg (msgBalanced hr).2.2 hx).1, List.append_nil] at hzero
    intro p hp
    rcases List.mem_append.mp hp with hp | hp
    · exact hI hzero p hp
    · rw [Option.mem_toList.mp hp] at hx
      exact txStart_completing hx k
  | run i x =>
    obtain ⟨p, m, p', hp, ho, rfl⟩ := step_run.mp hs
    have hmem := List.mem_of_getElem? hp
    intro q hq
    rcases step_msg hr hp ho with ⟨j, pos, g, g', rfl, hg, hc, hstep⟩ | ⟨rfl, hnone⟩
    · by_cases hj : k = j
      · subst hj
        obtain ⟨hall, hpre, hpend⟩ : (∀ q ∈ s.pcs, q.completing k = false) ∧
            pos.parts.pre ≤ 0 ∧ pos.parts.pend ≤ 0 := by
          rcases List.mem_append.mp hzero with hold | hnew
          · obtain ⟨-, -, hdone, hpend⟩ := settled_quiet (msgBalanced hr).1 hg
              ((msgBalanced hr).2.2.of_some hg) (zero_of_mem hold)
            refine ⟨hI hold, ?_, hpend ▸ hc.pend⟩
            by_contra hpre
            simp [hc.pre (by omega)] at hdone
          · obtain ⟨-, hone, hputs⟩ := hstep.last hnew
            refine ⟨?_, (puts_parts hputs).1.le, (puts_parts hputs).2.le⟩
            simp only [putsAlone, hp, hg, hone, hputs] at hok
            simpa only [beq_self_eq_true, Bool.and_self, Bool.not_true, Bool.false_or,
              List.all_eq_true, Bool.not_eq_eq_eq_not] using hok
        rcases List.mem_or_eq_of_mem_set hq with hq | rfl
        · exact hall q hq
        · by_contra hq'
          rcases hstep.entering (by simpa using hq') with hcomp | hpos | hpos
          · have hfalse := hall _ hmem
            rw [TxPc.completing, hcomp, beq_self_eq_true] at hfalse
            contradiction
          · omega
          · omega
      · rcases List.mem_append.mp hzero with hold | hnew
        · rcases List.mem_or_eq_of_mem_set hq with hq | rfl
          · exact hI hold q hq
          · cases q with
            | on l pos' =>
              rw [hstep.next l pos' rfl, TxPc.completing, beq_false_of_ne (Ne.symm hj),
                Bool.false_and]
            | waitTx st | returned => rfl
        · exact absurd hnew (hstep.not_mem hj _)
    · have hold := (List.mem_append.mp hzero).resolve_right (hnone k _)
      rcases List.mem_or_eq_of_mem_set hq with hq | rfl
      · exact hI hold q hq
      · rfl

/-- In every run in which the last put comes when nobody is left in the completion check, a
released message is not accessed any more. -/
theorem released_untouched {k : Nat} {u v : List TxEvent} (hsplit : h = u ++ .msg k .zero :: v) :
    .msg k .touch ∉ v := by
  intro hmem
  obtain ⟨v₁, v₂, rfl⟩ := List.append_of_mem hmem
  have hsplit' : h = (u ++ .msg k .zero :: v₁) ++ .msg k .touch :: v₂ := by
    rw [hsplit, List.append_assoc, List.cons_append]
  refine hr.before (.msg k .touch) (fun u => .msg k .zero ∉ u) ?_ _ _ hsplit' (by simp)
  intro s h a s' es hr _ hs u v hes hzero
  have hmem : .msg k .touch ∈ es := by simp [hes]
  cases a with
  | start x =>
    obtain ⟨m, o, hx, -⟩ := step_start.mp hs
    rw [(txStart_msg (msgBalanced hr).2.2 hx).1] at hmem
    contradiction
  | run i x =>
    obtain ⟨p, m, p', hp, ho, -⟩ := step_run.mp hs
    rcases step_msg hr hp ho with ⟨j, pos, g, g', rfl, hg, hc, hstep⟩ | ⟨-, hnone⟩
    · obtain rfl : k = j := by
        by_contra hj
        exact hstep.not_mem hj _ hmem
      rcases List.mem_append.mp hzero with hold | hnew
      · obtain ⟨hrefs, -, -, hpend⟩ := settled_quiet (msgBalanced hr).1 hg
          ((msgBalanced hr).2.2.of_some hg) (zero_of_mem hold)
        rcases hstep.touch hmem with href | hpos | hcomp
        · have hle := hc.refs href
          omega
        · have hle := hc.pend
          omega
        · have hfalse := not_completing hr hold _ (List.mem_of_getElem? hp)
          rw [TxPc.completing, hcomp, beq_self_eq_true] at hfalse
          contradiction
      · -- the put that drops the last reference reads the message before
        obtain ⟨hpair, -⟩ := hstep.last (by simp [hes, hnew])
        rw [hpair] at hes
        cases u with
        | nil => contradiction
        | cons e u =>
          rw [List.cons_append, List.cons.injEq] at hes
          cases u with
          | nil =>
            rw [← hes.1] at hnew
            simp at hnew
          | cons e' u =>
            have hlen := congrArg List.length hes.2
            simp at hlen
    · exact hnone k _ hmem

end Alone

/-- The callback's decrement reaches zero while the sender finishes: the sender takes the
completion reference, puts it and its own, and the callback goes on to look at the message. -/
def lateCallback : List (Move TxStart Bool) :=
  Move.start (TxStart.send 0 7 .latency 1) :: List.replicate 8 (.run 0 true) ++
    Move.start (TxStart.complete 0 false) :: List.replicate 2 (.run 1 true) ++
    List.replicate 6 (Move.run 0 true) ++ [Move.run 1 true]

theorem lateCallback_runs : (run txProg.step (fun _ _ _ => true) ⟨.init, []⟩ []
    lateCallback).isSome = true := by
  decide +kernel

theorem callback_touches_released : ∃ s h u v,
    Reaches txProg.step (fun _ _ _ => True) ⟨.init, []⟩ s h ∧ h = u ++ .msg 0 .zero :: v ∧
      .msg 0 .touch ∈ v :=
  ⟨_, _, (final _ _ _ _ lateCallback_runs).2.dropLast.dropLast, [.msg 0 .touch],
    .of_final _ (fun _ _ _ _ => trivial) lateCallback_runs, by decide +kernel, by decide +kernel⟩

theorem sendAndWait_alone : (run txProg.step (fun s _ a => putsAlone s a) ⟨.init, []⟩ []
    sendAndWait).isSome = true := by
  decide +kernel

def afterRelease : List TxEvent :=
  [.msg 0 (.settled 7 true), .msg 0 (.uncounted 7), .msg 0 .putStream, .msg 0 .freed, .waited 7]

theorem released_untouched_sendAndWait : ∃ s h u,
    Reaches txProg.step (fun s _ a => putsAlone s a = true) ⟨.init, []⟩ s h ∧
      h = u ++ .msg 0 .zero :: afterRelease ∧ .msg 0 .touch ∉ afterRelease := by
  have hr : Reaches txProg.step (fun s _ a => putsAlone s a = true) ⟨.init, []⟩ _ _ :=
    .of_final _ (fun _ _ _ hc => hc) sendAndWait_alone
  have hsplit : (final _ _ _ _ sendAndWait_alone).2 =
      (final _ _ _ _ sendAndWait_alone).2.take 18 ++ .msg 0 .zero :: afterRelease := by
    decide +kernel
  exact ⟨_, _, _, hr, hsplit, released_untouched hr hsplit⟩

end OdinLink
