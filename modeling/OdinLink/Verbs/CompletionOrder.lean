import OdinLink.Verbs.SendLog

/-!
# The order of send completions

A request is sent, or taken off the queue, with the send queue lock held, but its completion is
posted after the lock is released.
-/

namespace OdinLink

open Threads History

def reportsFirst (s : Sys QpLog SendPc) : Move SendStart SendRet → Bool
  | .start _ => true
  | .run i ret =>
    !(s.pcs[i]?.any fun p => p.finishes ret) || s.pcs.all fun q => q.owes.isNone

def QpLog.own (l : QpLog) : List Nat := l.posted.filterMap Prod.fst

structure OrderInv (s : Sys QpLog SendPc) : Prop where
  sorted : s.mem.own.Pairwise (· < ·)
  single : s.pcs.countP (fun p => p.owes.isSome) ≤ 1
  later : ∀ p ∈ s.pcs, ∀ k ∈ p.owes, ∀ j ∈ s.mem.own, j < k

section Step
variable {cfg : QpConfig} {s : Sys QpLog SendPc} {m' : QpMem} {i : Nat} {x : SendRet}
  {p p' : SendPc} {es : List SendEvent}

theorem cqPost_own (m : QpMem) (seq : Nat) (wc : Wc) :
    ((cqPost m seq wc).2.filterMap SendEvent.posted).filterMap Prod.fst = [] ∨
      ((cqPost m seq wc).2.filterMap SendEvent.posted).filterMap Prod.fst = [seq] := by
  rcases cqPost_events (m := m) seq wc with hes | ⟨why, hes⟩ <;> rw [hes]
  · exact .inr rfl
  · exact .inl rfl

theorem OrderInv.report {seq : Nat} (wc : Wc) (ho : OrderInv s) (hp : s.pcs[i]? = some p)
    (howes : p.owes = some seq) (hfree : p'.owes = none) {l' : QpLog}
    (hown : l'.own = s.mem.own ++
      ((cqPost s.mem.mem seq wc).2.filterMap SendEvent.posted).filterMap Prod.fst) :
    OrderInv ⟨l', s.pcs.set i p'⟩ := by
  have hset := countP_set hp (fun p => p.owes.isSome) p'
  have hle := ho.single
  simp only [howes, hfree, Option.isSome_some, Option.isSome_none, if_true] at hset
  have hnone : (s.pcs.set i p').countP (fun p => p.owes.isSome) = 0 := by
    simp at hset
    omega
  refine ⟨?_, by simp only [hnone]; omega, fun q hq k hk => ?_⟩
  · rw [hown]
    rcases cqPost_own s.mem.mem seq wc with hnil | hone
    · rw [hnil, List.append_nil]
      exact ho.sorted
    · rw [hone, List.pairwise_append]
      refine ⟨ho.sorted, List.pairwise_singleton _ _, fun j hj k hk => ?_⟩
      rw [List.mem_singleton.mp hk]
      exact ho.later p (List.mem_of_getElem? hp) seq howes j hj
  · have hq' := List.countP_eq_zero.mp hnone q hq
    rw [Option.mem_def] at hk
    simp [hk] at hq'

theorem OrderInv.finish (ho : OrderInv s) (hp : s.pcs[i]? = some p)
    (hfree : ∀ q ∈ s.pcs, q.owes = none) {k : Nat} (howes : p'.owes = some k)
    (hk : ∀ j ∈ s.mem.own, j < k) {l' : QpLog} (hown : l'.own = s.mem.own) :
    OrderInv ⟨l', s.pcs.set i p'⟩ := by
  have hset := countP_set hp (fun p => p.owes.isSome) p'
  have hzero : s.pcs.countP (fun p => p.owes.isSome) = 0 :=
    List.countP_eq_zero.mpr fun q hq => by simp [hfree q hq]
  refine ⟨hown ▸ ho.sorted, ?_, fun q hq j hj => ?_⟩
  · simp only [hzero, hfree p (List.mem_of_getElem? hp), howes, Option.isSome_some,
      Option.isSome_none, if_true] at hset
    simp at hset
    simp only
    omega
  · rcases mem_set_cases hq with rfl | ⟨j', -, hq⟩
    · rw [howes, Option.mem_def, Option.some.injEq] at hj
      rw [hown, ← hj]
      exact hk
    · rw [hfree q (List.mem_of_getElem? hq)] at hj
      contradiction

theorem OrderInv.same (ho : OrderInv s) (hp : s.pcs[i]? = some p) (howes : p'.owes = p.owes)
    {l' : QpLog} (hown : l'.own = s.mem.own) : OrderInv ⟨l', s.pcs.set i p'⟩ := by
  have hset := countP_set hp (fun p => p.owes.isSome) p'
  have hle := ho.single
  refine ⟨hown ▸ ho.sorted, ?_, fun q hq k hk => ?_⟩
  · rw [howes] at hset
    simp only
    omega
  · rw [hown]
    rcases mem_set_cases hq with rfl | ⟨j, -, hq⟩
    · rw [howes] at hk
      exact ho.later p (List.mem_of_getElem? hp) k hk
    · exact ho.later q (List.mem_of_getElem? hq) k hk

theorem ran_own (l : QpLog) (hes : es = []) : (l.ran p m' es).own = l.own := by
  subst hes
  change (l.posted ++ []).filterMap Prod.fst = _
  rw [List.append_nil]
  rfl

theorem OrderInv.run (ho : OrderInv s) (hi : LogInv cfg s.mem) (hposted : PostedInv cfg s.mem)
    (hp : s.pcs[i]? = some p) (hk : p.Tracks cfg s.mem)
    (hfirst : reportsFirst s (.run i x) = true)
    (hop : sendOp cfg s.mem.mem p x = some (m', p', es)) :
    OrderInv ⟨s.mem.ran p m' es, s.pcs.set i p'⟩ := by
  rcases (sendOp_effect hop).2 with ⟨hes, -, hsame | ⟨hfin, -, hnew⟩⟩ | ⟨seq, wc, hrep, hes, -, hfree⟩
  · exact ho.same hp hsame (ran_own _ hes)
  · have hall : ∀ q ∈ s.pcs, q.owes = none := by
      simpa [reportsFirst, hp, hfin] using hfirst
    have hlt (j : Nat) (hj : j ∈ s.mem.own) : j < s.mem.done := by
      obtain ⟨⟨o, wc⟩, hmem, hfst⟩ := List.mem_filterMap.mp hj
      obtain rfl : o = some j := hfst
      exact (hposted j wc hmem).1
    rcases hnew with howes | ⟨seq, wc, rfl, howes⟩
    · refine ho.finish hp hall howes (fun j hj => (hlt j hj).trans_le ?_) (ran_own _ hes)
      rw [hi.accepted]
      exact Nat.sub_le _ _
    · obtain ⟨-, hseq, -⟩ := hk
      exact ho.finish hp hall howes (fun j hj => hseq ▸ hlt j hj) (ran_own _ hes)
  · have howes : p.owes = some seq := by
      rcases hrep with rfl | rfl <;> rfl
    refine ho.report wc hp howes hfree ?_
    subst hes
    exact List.filterMap_append

end Step

section Runs
variable {cfg : QpConfig} {n : Nat} {cqe : Option Int} {user : Mem} {dmabuf : Nat → Mem}
  {s : Sys QpLog SendPc} {h : List SendEvent}
  (hr : Reaches (logProg cfg).step (fun s _ a => reportsFirst s a = true)
    ⟨.create n cqe user dmabuf, []⟩ s h)
include hr

theorem order_invariant : OrderInv s := by
  refine hr.invariant (fun s _ => OrderInv s) ?_ ?_
  · exact ⟨List.Pairwise.nil, Nat.zero_le _, by simp⟩
  · intro s h a s' es hr ho hfirst hs
    obtain ⟨hk, hi, -, hposted⟩ := log_invariant hr
    cases a with
    | start x =>
      obtain ⟨l, o, hlog, rfl⟩ := step_start.mp hs
      obtain ⟨m', hx, rfl⟩ := logProg_start hlog
      have hown : (s.mem.started x m').own = s.mem.own := started_own x
      have howes : ∀ p ∈ o, p.owes = none := by
        obtain ⟨-, -, -, -, -, hstart⟩ := sendStart_same hx
        rcases hstart with ⟨-, rfl | ⟨wrs, -, rfl⟩⟩ | ⟨-, -, rfl⟩ <;> simp [SendPc.owes]
      refine ⟨hown ▸ ho.sorted, ?_, fun p hp k hkp => ?_⟩
      · have hzero : o.toList.countP (fun p => p.owes.isSome) = 0 :=
          List.countP_eq_zero.mpr fun p hp => by simp [howes p (Option.mem_toList.mp hp)]
        simp only [List.countP_append, hzero]
        exact ho.single
      · rw [hown]
        rcases List.mem_append.mp hp with hp | hp
        · exact ho.later p hp k hkp
        · rw [howes p (Option.mem_toList.mp hp)] at hkp
          contradiction
    | run i x =>
      obtain ⟨p, l, p', hp, hlog, rfl⟩ := step_run.mp hs
      obtain ⟨m', hop, rfl⟩ := logProg_op hlog
      exact ho.run hi hposted hp (hk p (List.mem_of_getElem? hp)) hfirst hop

/-- If no request is taken off while a completion is owed, the completion queue holds, and the
application polls, the completions in the order in which the requests were accepted. -/
theorem completions_in_post_order :
    s.mem.posted.map Prod.snd =
        s.mem.polled ++ (s.mem.mem.sendCq.map Cq.contents).getD [] ∧
      s.mem.own.Pairwise (· < ·) ∧
      ∀ k wc, (some k, wc) ∈ s.mem.posted →
        ∃ wr b, s.mem.requests[k]? = some (wr, b) ∧ wc.wrId = wr.wrId := by
  obtain ⟨-, -, hring, hposted⟩ := log_invariant hr
  refine ⟨hring.fifo, (order_invariant hr).sorted, fun k wc hmem => ?_⟩
  obtain ⟨wr, b, hreq, hid, -⟩ := (hposted k wc hmem).2
  exact ⟨wr, b, hreq, hid⟩

end Runs

def openLog : QpLog := .create 1 (some 1) (fun i => UInt8.ofNat i) fun _ i => UInt8.ofNat (i + 100)

theorem mixedSends_reportsFirst : (run (logProg defaultQp).step (fun s _ a => reportsFirst s a)
    ⟨openLog, []⟩ [] mixedSends).isSome = true := by
  decide +kernel

theorem completions_in_post_order_mixedSends : ∃ s h,
    Reaches (logProg defaultQp).step (fun s _ a => reportsFirst s a = true) ⟨openLog, []⟩ s h ∧
      s.mem.own = [0, 1, 2] ∧ s.mem.own.Pairwise (· < ·) := by
  have hr : Reaches (logProg defaultQp).step (fun s _ a => reportsFirst s a = true)
      ⟨openLog, []⟩ _ _ := .of_final _ (fun _ _ _ hc => hc) mixedSends_reportsFirst
  exact ⟨_, _, hr, by decide +kernel, (completions_in_post_order hr).2.1⟩

/-- Two threads send inline, one after the other; the second is faster to post its completion. -/
def overtakenReport : List (Move SendStart SendRet) := List.flatten
  [[.start (.post [⟨1, [⟨10, 2, 0⟩]⟩]), .start (.post [⟨2, [⟨20, 2, 0⟩]⟩])],
    List.replicate 3 (.run 0 .ok), List.replicate 4 (.run 1 .ok), [.run 0 .ok]]

theorem later_request_completes_first : ∃ s h,
    Reaches (logProg defaultQp).step (fun _ _ _ => True) ⟨openLog, []⟩ s h ∧
      s.mem.requests.map (·.1.wrId) = [1, 2] ∧ s.mem.own = [1, 0] ∧
      (s.mem.mem.sendCq.map fun cq => cq.contents.map Wc.wrId) = some [2, 1] :=
  ⟨_, _, .of_free overtakenReport (by decide +kernel), by decide +kernel⟩

end OdinLink
