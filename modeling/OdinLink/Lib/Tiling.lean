import Mathlib.Algebra.BigOperators.Group.List.Basic
import Mathlib.Algebra.GroupWithZero.Nat
import Mathlib.Data.List.TakeDrop

/-!
# Pieces laid end to end

A list of pieces tiles a range when the first one stands at its start, each next one where the one
before it ends, and the last one ends where the range does.
-/

namespace OdinLink

universe u

variable {α : Type u} {size : α → Nat} {At At' : Nat → α → Prop} {lo mid hi : Nat} {xs ys : List α}

/-- `xs`, in order, fill the range from `lo` to `hi`. -/
inductive Tiles (size : α → Nat) (At : Nat → α → Prop) : Nat → List α → Nat → Prop
  | nil (lo : Nat) : Tiles size At lo [] lo
  | cons {lo hi : Nat} {x : α} {xs : List α} (hx : At lo x)
      (hxs : Tiles size At (lo + size x) xs hi) : Tiles size At lo (x :: xs) hi

namespace Tiles

theorem total (h : Tiles size At lo xs hi) : lo + (xs.map size).sum = hi := by
  induction h with
  | nil => simp
  | cons _ _ ih => simpa [Nat.add_assoc] using ih

theorem append (h : Tiles size At lo xs mid) (h' : Tiles size At mid ys hi) :
    Tiles size At lo (xs ++ ys) hi := by
  induction h with
  | nil => exact h'
  | cons hx _ ih => exact .cons hx (ih h')

theorem translate (h : Tiles size At lo xs hi) (k : Nat)
    (hat : ∀ p, ∀ x ∈ xs, At p x → At' (k + p) x) : Tiles size At' (k + lo) xs (k + hi) := by
  induction h with
  | nil => exact .nil _
  | @cons lo hi x xs hx _ ih =>
    apply Tiles.cons (hat lo x List.mem_cons_self hx)
    rw [Nat.add_assoc]
    exact ih fun p y hy => hat p y (List.mem_cons_of_mem _ hy)

theorem mem (h : Tiles size At lo xs hi) {x : α} (hx : x ∈ xs) :
    ∃ p, At p x ∧ lo ≤ p ∧ p + size x ≤ hi := by
  induction h with
  | nil => cases hx
  | @cons lo hi y ys hy hys ih =>
    rcases List.mem_cons.mp hx with rfl | hmem
    · have htotal := hys.total
      exact ⟨lo, hy, Nat.le_refl _, by omega⟩
    · obtain ⟨p, hp, hlo, hhi⟩ := ih hmem
      exact ⟨p, hp, by omega, hhi⟩

theorem end_le (h : Tiles size At lo xs hi) {bound : Nat}
    (hat : ∀ p x, At p x → p + size x ≤ bound) (hxs : xs ≠ []) : hi ≤ bound := by
  induction h with
  | nil => exact absurd rfl hxs
  | @cons lo hi x xs hx hrest ih =>
    cases xs with
    | nil =>
      cases hrest
      exact hat _ _ hx
    | cons y ys => exact ih (List.cons_ne_nil _ _)

theorem range_map {f : Nat → α} {n c : Nat} (hsize : ∀ k < n, size (f k) = c)
    (hat : ∀ k < n, At (lo + k * c) (f k)) :
    Tiles size At lo ((List.range n).map f) (lo + n * c) := by
  induction n with
  | zero =>
    rw [Nat.zero_mul]
    exact .nil _
  | succ n ih =>
    rw [List.range_succ, List.map_append, Nat.succ_mul, ← Nat.add_assoc]
    refine (ih (fun k hk => hsize k (by omega)) fun k hk => hat k (by omega)).append ?_
    refine .cons (hat n (Nat.lt_succ_self n)) ?_
    rw [hsize n (Nat.lt_succ_self n)]
    exact .nil _

end Tiles

/-- A piece of the concatenation stands in the row of one element, behind the rows before it. -/
theorem getElem?_flatMap_iff {β : Type u} {f : α → List β} {l : List α} {j : Nat} {b : β} :
    (l.flatMap f)[j]? = some b ↔ ∃ before x after k, l = before ++ x :: after ∧
      j = (before.flatMap f).length + k ∧ (f x)[k]? = some b := by
  induction l generalizing j with
  | nil => simp
  | cons a l ih =>
    rw [List.flatMap_cons]
    constructor
    · intro h
      by_cases hj : j < (f a).length
      · rw [List.getElem?_append_left hj] at h
        exact ⟨[], a, l, j, rfl, by simp, h⟩
      · rw [List.getElem?_append_right (Nat.not_lt.mp hj)] at h
        obtain ⟨before, x, after, k, rfl, hk, hb⟩ := ih.mp h
        refine ⟨a :: before, x, after, k, rfl, ?_, hb⟩
        rw [List.flatMap_cons, List.length_append]
        omega
    · rintro ⟨before, x, after, k, hl, rfl, hb⟩
      cases before with
      | nil =>
        obtain ⟨rfl, rfl⟩ := List.cons.inj hl
        have hk : k < (f a).length := (List.getElem?_eq_some_iff.mp hb).1
        rw [List.flatMap_nil, List.length_nil, Nat.zero_add, List.getElem?_append_left hk]
        exact hb
      | cons y before =>
        obtain ⟨rfl, rfl⟩ := List.cons.inj hl
        rw [List.flatMap_cons, List.length_append, Nat.add_assoc,
          List.getElem?_append_right (Nat.le_add_right _ _), Nat.add_sub_cancel_left]
        exact ih.mpr ⟨before, x, after, k, rfl, rfl, hb⟩

end OdinLink
