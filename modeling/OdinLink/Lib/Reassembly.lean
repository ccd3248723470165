import Mathlib.Data.List.Basic
import Mathlib.Data.List.Nodup
import Mathlib.Data.List.Range
import Mathlib.Data.List.Induction

/-!
# Reassembly from a start flag, an end flag and a fragment index

A receiver holds one partial message. A fragment with the start flag resets it,
an index other than the expected one spoils it, and a fragment with the end flag
hands it up unless it is spoiled. After a message has been handed up the expected
index keeps its value; this is what lets fragments of two messages line up.

Messages are a family over an index type; a fragment is a message and a position in it.
-/

namespace Reassembly

universe u v w

variable {τ : Type u} {α : Type v} {ι : Type w}

structure Frag (τ : Type u) (α : Type v) where
  src : τ
  start : Bool
  fin : Bool
  idx : Nat
  body : List α

structure Asm (τ : Type u) (α : Type v) where
  src : τ
  next : Nat
  bad : Bool
  buf : List α

def Asm.reset (s : Asm τ α) (f : Frag τ α) : Asm τ α :=
  if f.start then ⟨f.src, 0, false, []⟩ else s

def Asm.accept (s : Asm τ α) (f : Frag τ α) : Asm τ α :=
  ⟨s.src, f.idx + 1, s.bad || f.idx != s.next, s.buf ++ f.body⟩

def Asm.close (s : Asm τ α) : Asm τ α × Option (τ × List α) :=
  if s.bad then (⟨s.src, 0, false, []⟩, none) else (⟨s.src, s.next, false, []⟩, some (s.src, s.buf))

def feed (s : Asm τ α) (f : Frag τ α) : Asm τ α × Option (τ × List α) :=
  let t := (s.reset f).accept f
  if f.fin then t.close else (t, none)

def feedAll (s : Asm τ α) : List (Frag τ α) → Asm τ α × List (τ × List α)
  | [] => (s, [])
  | f :: fs =>
    let r := feed s f
    let q := feedAll r.1 fs
    (q.1, r.2.toList ++ q.2)

@[simp] theorem feedAll_nil (s : Asm τ α) : feedAll s [] = (s, []) := rfl

theorem feedAll_append (s : Asm τ α) (fs gs : List (Frag τ α)) :
    feedAll s (fs ++ gs) =
      ((feedAll (feedAll s fs).1 gs).1, (feedAll s fs).2 ++ (feedAll (feedAll s fs).1 gs).2) := by
  induction fs generalizing s with
  | nil => simp
  | cons f fs ih => simp [feedAll, ih, List.append_assoc]

/-- The messages being sent: `size i` fragments, the `k`-th carrying `body i k`. -/
structure Family (ι : Type w) (τ : Type u) (α : Type v) where
  src : ι → τ
  size : ι → Nat
  body : ι → Nat → List α

namespace Family
variable (F : Family ι τ α)

def frag (e : ι × Nat) : Frag τ α :=
  ⟨F.src e.1, e.2 == 0, e.2 + 1 == F.size e.1, e.2, F.body e.1 e.2⟩

def whole (i : ι) : τ × List α := (F.src i, (List.range (F.size i)).flatMap (F.body i))

def run (s : Asm τ α) (es : List (ι × Nat)) : Asm τ α × List (τ × List α) :=
  feedAll s (es.map F.frag)

theorem run_append (s : Asm τ α) (es fs : List (ι × Nat)) :
    F.run s (es ++ fs) =
      ((F.run (F.run s es).1 fs).1, (F.run s es).2 ++ (F.run (F.run s es).1 fs).2) := by
  simp [run, feedAll_append]

def leading (i : ι) (k : Nat) : List (ι × Nat) := (List.range k).map (Prod.mk i)

/-- Whatever the receiver held, leading fragments of a message short of the last
leave exactly their bodies. -/
theorem run_leading (s : Asm τ α) (i : ι) (k : Nat) (h : k + 1 < F.size i) :
    F.run s (leading i (k + 1)) =
      (⟨F.src i, k + 1, false, (List.range (k + 1)).flatMap (F.body i)⟩, []) := by
  induction k with
  | zero =>
    have hf : (1 == F.size i) = false := by simpa using Nat.ne_of_lt h
    simp [run, leading, feedAll, feed, frag, hf, Asm.reset, Asm.accept]
  | succ k ih =>
    have hf : (k + 1 + 1 == F.size i) = false := by simpa using Nat.ne_of_lt h
    have hl : leading i (k + 1 + 1) = leading i (k + 1) ++ [(i, k + 1)] := by
      simp [leading, List.range_succ]
    rw [hl, run_append, ih (by omega), List.range_succ (n := k + 1)]
    simp [run, feedAll, feed, frag, hf, Asm.reset, Asm.accept]

theorem run_whole (s : Asm τ α) (i : ι) (h : 0 < F.size i) :
    F.run s (leading i (F.size i)) = (⟨F.src i, F.size i, false, []⟩, [F.whole i]) := by
  obtain ⟨n, hn⟩ := Nat.exists_eq_succ_of_ne_zero (Nat.ne_of_gt h)
  cases n with
  | zero =>
    simp [run, leading, feedAll, feed, frag, hn, whole, Asm.reset, Asm.accept, Asm.close]
  | succ n =>
    have hl : leading i (n + 1 + 1) = leading i (n + 1) ++ [(i, n + 1)] := by
      simp [leading, List.range_succ]
    have hw : F.whole i = (F.src i, (List.range (n + 1)).flatMap (F.body i) ++ F.body i (n + 1)) := by
      simp only [whole, hn, Nat.succ_eq_add_one, List.range_succ (n := n + 1), List.flatMap_append,
        List.flatMap_cons, List.flatMap_nil, List.append_nil]
    rw [hw, hn, Nat.succ_eq_add_one, hl, run_append, F.run_leading s i n (by omega)]
    simp [run, feedAll, feed, frag, hn, Asm.reset, Asm.accept, Asm.close]

theorem run_leading_handed (s : Asm τ α) (i : ι) {n : Nat} (hn : n ≤ F.size i) (h : 0 < F.size i) :
    (F.run s (leading i n)).2 = if n = F.size i then [F.whole i] else [] := by
  by_cases hall : n = F.size i
  · rw [if_pos hall, hall, F.run_whole s i h]
  · rw [if_neg hall]
    cases n with
    | zero => rfl
    | succ k => rw [F.run_leading s i k (by omega)]

theorem run_flatMap_leading (count : ι → Nat) (is : List ι)
    (hc : ∀ i ∈ is, count i ≤ F.size i ∧ 0 < F.size i) (s : Asm τ α) :
    (F.run s (is.flatMap fun i => leading i (count i))).2 =
      (is.filter fun i => count i = F.size i).map F.whole := by
  induction is generalizing s with
  | nil => rfl
  | cons i is ih =>
    obtain ⟨hle, hpos⟩ := hc i List.mem_cons_self
    rw [List.flatMap_cons, run_append, ih fun j hj => hc j (List.mem_cons_of_mem i hj),
      F.run_leading_handed s i hle hpos]
    by_cases hall : count i = F.size i <;> simp [hall]

theorem run_whole_buf (s : Asm τ α) (es : List (ι × Nat)) (i : ι) (h : 0 < F.size i) :
    (F.run s (es ++ leading i (F.size i))).1.buf = [] := by
  rw [run_append, F.run_whole _ i h]

end Family

end Reassembly
