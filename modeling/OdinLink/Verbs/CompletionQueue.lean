import OdinLink.Verbs.SendQueue

/-!
# The completion ring is a queue

What the ring holds is the list from its head to its tail. A completion that is posted goes to the
end of that list, and polling takes completions off its front.
-/

namespace OdinLink

theorem getElem?_append_some {α : Type} {u v : List α} {n : Nat} {x : α} (hx : u[n]? = some x) :
    (u ++ v)[n]? = some x := by
  obtain ⟨hlt, -⟩ := List.getElem?_eq_some_iff.mp hx
  rwa [List.getElem?_append_left hlt]

namespace Cq
variable {cq cq' : Cq} {wc : Wc}

def count (cq : Cq) : Nat :=
  if cq.head ≤ cq.tail then cq.tail - cq.head else cq.tail + cq.ringCap - cq.head

def buffer (cq : Cq) : CircularBuffer Wc := ⟨cq.ringCap, cq.ring, cq.head, cq.tail, cq.count⟩

def contents (cq : Cq) : List Wc := cq.buffer.contents

structure WF (cq : Cq) : Prop where
  head_lt : cq.head < cq.ringCap
  tail_lt : cq.tail < cq.ringCap

theorem create_wf (cqe : Int) : (create cqe).WF := by
  have hcap : 0 < (create cqe).ringCap := by
    simp only [create, compChannelBacklog, compChannelMax]
    omega
  exact ⟨hcap, hcap⟩

@[simp] theorem contents_create (cqe : Int) : (create cqe).contents = [] := rfl

theorem WF.buffer (hcq : cq.WF) : cq.buffer.WF where
  head_lt := hcq.head_lt
  count_le := by
    have hhead := hcq.head_lt
    have htail := hcq.tail_lt
    simp only [Cq.buffer, count]
    split <;> omega
  tail_eq := by
    have hhead := hcq.head_lt
    have htail := hcq.tail_lt
    simp only [Cq.buffer, count]
    split
    · rw [Nat.add_sub_cancel' ‹_›, Nat.mod_eq_of_lt htail]
    · have hsum : cq.head + (cq.tail + cq.ringCap - cq.head) = cq.tail + cq.ringCap := by omega
      rw [hsum, Nat.add_mod_right, Nat.mod_eq_of_lt htail]

theorem succ_mod {i n : Nat} (hi : i < n) :
    i + 1 < n ∧ (i + 1) % n = i + 1 ∨ i + 1 = n ∧ (i + 1) % n = 0 := by
  rcases Nat.lt_or_ge (i + 1) n with hlt | hge
  · exact .inl ⟨hlt, Nat.mod_eq_of_lt hlt⟩
  · have heq : i + 1 = n := by omega
    exact .inr ⟨heq, by rw [heq, Nat.mod_self]⟩

theorem WF.buffer_post (hcq : cq.WF) (hpost : cq.post wc = some cq') :
    cq'.WF ∧ cq'.buffer = cq.buffer.push wc ∧ cq.buffer.count < cq.buffer.depth := by
  have hhead := hcq.head_lt
  have htail := hcq.tail_lt
  rw [post] at hpost
  split at hpost
  · contradiction
  · rename_i hfull
    cases hpost
    refine ⟨⟨hhead, Nat.mod_lt _ (by omega)⟩, ?_, ?_⟩
    · simp only [Cq.buffer, CircularBuffer.push, CircularBuffer.write, CircularBuffer.mk.injEq,
        true_and, count]
      rcases succ_mod htail with ⟨hlt, hnext⟩ | ⟨heq, hnext⟩ <;> rw [hnext] at hfull ⊢ <;>
        split <;> split <;> omega
    · simp only [Cq.buffer, count]
      split <;> omega

theorem WF.post (hcq : cq.WF) (hpost : cq.post wc = some cq') :
    cq'.WF ∧ cq'.contents = cq.contents ++ [wc] := by
  obtain ⟨hwf, hpush, hroom⟩ := hcq.buffer_post hpost
  refine ⟨hwf, ?_⟩
  rw [contents, hpush, hcq.buffer.contents_push hroom]
  rfl

theorem WF.poll (hcq : cq.WF) (n : Nat) :
    (cq.poll n).2.WF ∧ (cq.poll n).1 ++ (cq.poll n).2.contents = cq.contents := by
  induction n generalizing cq with
  | zero => exact ⟨hcq, rfl⟩
  | succ n ih =>
    rw [Cq.poll]
    split
    · exact ⟨hcq, rfl⟩
    · rename_i hne
      have hhead := hcq.head_lt
      have htail := hcq.tail_lt
      have hpop : {cq with head := (cq.head + 1) % cq.ringCap}.buffer = cq.buffer.pop := by
        simp only [Cq.buffer, CircularBuffer.pop, CircularBuffer.mk.injEq, true_and, count]
        rcases succ_mod hhead with ⟨hlt, hnext⟩ | ⟨heq, hnext⟩ <;> rw [hnext] <;>
          split <;> split <;> omega
      have hpos : 0 < cq.buffer.count := by
        simp only [Cq.buffer, count]
        split <;> omega
      have hnext : {cq with head := (cq.head + 1) % cq.ringCap}.WF :=
        ⟨Nat.mod_lt _ (by omega), htail⟩
      obtain ⟨hwf, hrest⟩ := ih hnext
      refine ⟨hwf, ?_⟩
      rw [List.cons_append, hrest, contents, contents, hpop, hcq.buffer.contents_eq_cons hpos]
      rfl

theorem length_contents (cq : Cq) : cq.contents.length = cq.count := cq.buffer.length_contents

/-- The depth that the caller is told. -/
def cqe (cq : Cq) : Nat := cq.ringCap - 1

theorem WF.post_eq_none_iff (hcq : cq.WF) : cq.post wc = none ↔ cq.contents.length = cq.cqe := by
  have hhead := hcq.head_lt
  have htail := hcq.tail_lt
  have hnext : (cq.tail + 1) % cq.ringCap = cq.head ↔ cq.count = cq.ringCap - 1 := by
    unfold count
    rcases succ_mod htail with ⟨hlt, hnext⟩ | ⟨heq, hnext⟩ <;> rw [hnext] <;> split <;> omega
  rw [length_contents, cqe, ← hnext, Cq.post]
  split
  · rename_i hfull
    exact ⟨fun _ => hfull, fun _ => rfl⟩
  · rename_i hfull
    exact ⟨fun h => absurd h.symm (Option.some_ne_none _).symm, fun h => absurd h hfull⟩

theorem WF.poll_length (hcq : cq.WF) (n : Nat) :
    (cq.poll n).1.length = min n cq.contents.length := by
  induction n generalizing cq with
  | zero => simp [Cq.poll]
  | succ n ih =>
    have hhead := hcq.head_lt
    have htail := hcq.tail_lt
    rw [Cq.poll, length_contents]
    split
    · rename_i hempty
      have h0 : cq.count = 0 := by
        unfold count
        split <;> omega
      rw [h0, Nat.min_zero]
      rfl
    · rename_i hne
      have hnext : {cq with head := (cq.head + 1) % cq.ringCap}.WF :=
        ⟨Nat.mod_lt _ (by omega), htail⟩
      have hcount : {cq with head := (cq.head + 1) % cq.ringCap}.count + 1 = cq.count := by
        simp only [count]
        rcases succ_mod hhead with ⟨hlt, hnext⟩ | ⟨heq, hnext⟩ <;> rw [hnext] <;>
          split <;> split <;> omega
      have hih := ih hnext
      rw [length_contents] at hih
      simp only [List.length_cons, hih]
      omega

theorem WF.poll_eq (hcq : cq.WF) (n : Nat) :
    (cq.poll n).1 = cq.contents.take n ∧ (cq.poll n).2.contents = cq.contents.drop n := by
  have happend := (hcq.poll n).2
  have hlen := hcq.poll_length n
  rcases Nat.le_total n cq.contents.length with hle | hle
  · rw [Nat.min_eq_left hle] at hlen
    rw [← happend]
    exact ⟨(List.take_left' hlen).symm, (List.drop_left' hlen).symm⟩
  · rw [Nat.min_eq_right hle] at hlen
    have hrest : (cq.poll n).2.contents = [] := by
      have htotal := congrArg List.length happend
      rw [List.length_append, hlen] at htotal
      exact List.eq_nil_of_length_eq_zero (by omega)
    rw [hrest, List.append_nil] at happend
    rw [happend, hrest, List.take_of_length_le hle, List.drop_eq_nil_of_le hle]
    exact ⟨rfl, rfl⟩

theorem post_ringCap (hpost : cq.post wc = some cq') : cq'.ringCap = cq.ringCap := by
  rw [post] at hpost
  split at hpost
  · contradiction
  · cases hpost
    rfl

theorem poll_ringCap (cq : Cq) (n : Nat) : (cq.poll n).2.ringCap = cq.ringCap := by
  induction n generalizing cq with
  | zero => rfl
  | succ n ih =>
    rw [Cq.poll]
    split
    · rfl
    · exact ih _

end Cq

/-! ## A bounded queue -/

/-- What a completion queue is for: it keeps up to `cap` completions in the order of their posts. -/
structure Fifo where
  cap : Nat
  waiting : List Wc

inductive CqOp where
  | post (wc : Wc)
  | poll (numEntries : Int)

inductive CqAnswer where
  | posted (ok : Bool)
  | polled (wcs : List Wc)
  deriving DecidableEq, Repr

def Fifo.step (q : Fifo) : CqOp → Fifo × CqAnswer
  | .post wc =>
    if q.waiting.length = q.cap then (q, .posted false)
    else ({q with waiting := q.waiting ++ [wc]}, .posted true)
  | .poll n => ({q with waiting := q.waiting.drop n.toNat}, .polled (q.waiting.take n.toNat))

def Cq.step (cq : Cq) : CqOp → Cq × CqAnswer
  | .post wc =>
    match cq.post wc with
    | none => (cq, .posted false)
    | some cq' => (cq', .posted true)
  | .poll n => ((cq.poll n.toNat).2, .polled (cq.poll n.toNat).1)

def Fifo.answers (q : Fifo) : List CqOp → List CqAnswer
  | [] => []
  | op :: ops => (q.step op).2 :: (q.step op).1.answers ops

def Cq.answers (cq : Cq) : List CqOp → List CqAnswer
  | [] => []
  | op :: ops => (cq.step op).2 :: (cq.step op).1.answers ops

section Refinement

structure Represents (cq : Cq) (q : Fifo) : Prop where
  wf : cq.WF
  cap : q.cap = cq.cqe
  waiting : q.waiting = cq.contents

variable {cq : Cq} {q : Fifo}

theorem Represents.step (h : Represents cq q) (op : CqOp) :
    (cq.step op).2 = (q.step op).2 ∧ Represents (cq.step op).1 (q.step op).1 := by
  cases op with
  | post wc =>
    simp only [Cq.step, Fifo.step]
    cases hpost : cq.post wc with
    | none =>
      have hfull := h.wf.post_eq_none_iff.mp hpost
      rw [← h.waiting, ← h.cap] at hfull
      rw [if_pos hfull]
      exact ⟨rfl, h⟩
    | some cq' =>
      have hroom : ¬ q.waiting.length = q.cap := by
        intro hfull
        rw [h.waiting, h.cap] at hfull
        rw [h.wf.post_eq_none_iff.mpr hfull] at hpost
        exact Option.some_ne_none cq' hpost.symm
      obtain ⟨hwf, hcontents⟩ := h.wf.post hpost
      rw [if_neg hroom]
      refine ⟨rfl, hwf, ?_, ?_⟩
      · rw [Cq.cqe, Cq.post_ringCap hpost]
        exact h.cap
      · dsimp only
        rw [hcontents, h.waiting]
  | poll n =>
    obtain ⟨htake, hdrop⟩ := h.wf.poll_eq n.toNat
    simp only [Cq.step, Fifo.step]
    rw [htake, h.waiting]
    refine ⟨rfl, (h.wf.poll n.toNat).1, ?_, hdrop.symm⟩
    rw [Cq.cqe, Cq.poll_ringCap]
    exact h.cap

theorem Represents.answers (h : Represents cq q) (ops : List CqOp) :
    cq.answers ops = q.answers ops := by
  induction ops generalizing cq q with
  | nil => rfl
  | cons op ops ih =>
    obtain ⟨hans, hnext⟩ := h.step op
    rw [Cq.answers, Fifo.answers, hans, ih hnext]

end Refinement

/-- A completion queue answers every sequence of posts and polls as a queue does whose capacity is
the depth that was reported. -/
theorem completion_queue_is_bounded_fifo (cqe : Int) (ops : List CqOp) :
    (Cq.create cqe).answers ops = Fifo.answers ⟨(Cq.create cqe).cqe, []⟩ ops := by
  apply Represents.answers
  exact ⟨Cq.create_wf cqe, rfl, (Cq.contents_create cqe).symm⟩

end OdinLink
