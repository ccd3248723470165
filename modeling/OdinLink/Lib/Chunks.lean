import Mathlib.Data.List.Basic
import Mathlib.Data.List.Range
import Mathlib.Data.Nat.Basic

/-!
# Cutting a list into pieces of one size
-/

namespace Chunks

universe u

variable {α : Type u} {n : Nat}

def count (n len : Nat) : Nat := (len + (n - 1)) / n

def piece (n : Nat) (m : List α) (k : Nat) : List α := (m.drop (k * n)).take n

@[simp] theorem piece_length (m : List α) (k : Nat) :
    (piece n m k).length = min n (m.length - k * n) := by
  simp [piece]

theorem lt_count_iff (hn : 0 < n) {k len : Nat} : k < count n len ↔ k * n < len := by
  rw [count, Nat.lt_iff_add_one_le, Nat.le_div_iff_mul_le hn, Nat.add_mul]
  omega

theorem count_pos (hn : 0 < n) {len : Nat} (h : 0 < len) : 0 < count n len := by
  rw [lt_count_iff hn]
  omega

theorem le_count_mul (hn : 0 < n) (len : Nat) : len ≤ count n len * n := by
  have h : count n len < count n len ↔ count n len * n < len := lt_count_iff hn
  omega

theorem count_mul (hn : 0 < n) (k : Nat) : count n (k * n) = k := by
  rw [count, Nat.add_comm, Nat.add_mul_div_right _ _ hn, Nat.div_eq_of_lt (by omega), Nat.zero_add]

theorem count_mono {a b : Nat} (h : a ≤ b) : count n a ≤ count n b :=
  Nat.div_le_div_right (Nat.add_le_add_right h _)

theorem count_sub (hn : 0 < n) {k len : Nat} (h : k * n ≤ len) :
    k + count n (len - k * n) = count n len := by
  have hl : len + (n - 1) = (len - k * n + (n - 1)) + k * n := by omega
  rw [count, count, hl, Nat.add_mul_div_right _ _ hn, Nat.add_comm]

theorem count_le (hn : 0 < n) {len c : Nat} (h : len ≤ n * c) : count n len ≤ c := by
  by_contra hlt
  have := (lt_count_iff hn).mp (Nat.lt_of_not_le hlt)
  rw [Nat.mul_comm] at this
  omega

theorem succ_eq_count_iff (hn : 0 < n) {k len : Nat} (hk : k < count n len) :
    k + 1 = count n len ↔ k * n + min n (len - k * n) = len := by
  have hlt := (lt_count_iff hn).mp hk
  have hnext : k + 1 < count n len ↔ (k + 1) * n < len := lt_count_iff hn
  rw [Nat.add_mul, Nat.one_mul] at hnext
  omega

theorem piece_ne_nil (hn : 0 < n) {m : List α} {k : Nat} (hk : k < count n m.length) :
    piece n m k ≠ [] := by
  have hlt := (lt_count_iff hn).mp hk
  apply List.ne_nil_of_length_pos
  rw [piece_length]
  omega

theorem flatMap_piece (m : List α) (k : Nat) :
    (List.range k).flatMap (piece n m) = m.take (k * n) := by
  induction k with
  | zero => simp
  | succ k ih =>
    rw [List.range_succ, List.flatMap_append, ih, Nat.add_mul, Nat.one_mul, List.take_add]
    simp [piece]

theorem flatMap_pieces (hn : 0 < n) (m : List α) :
    (List.range (count n m.length)).flatMap (piece n m) = m := by
  rw [flatMap_piece, List.take_of_length_le (le_count_mul hn m.length)]

theorem piece_replicate (a : α) (len k : Nat) :
    piece n (List.replicate len a) k = List.replicate (min n (len - k * n)) a := by
  simp [piece]

def pieces (n : Nat) (m : List α) : List (List α) :=
  (List.range (count n m.length)).map (piece n m)

@[simp] theorem pieces_nil (hn : 0 < n) : pieces n ([] : List α) = [] := by
  have hzero : count n 0 = 0 := by
    rw [count]
    exact Nat.div_eq_of_lt (by omega)
  simp [pieces, hzero]

theorem pieces_ne_nil (hn : 0 < n) {m : List α} (hm : 0 < m.length) : pieces n m ≠ [] := by
  intro hnil
  have hlen := congrArg List.length hnil
  have hpos := count_pos hn hm
  simp only [pieces, List.length_map, List.length_range, List.length_nil] at hlen
  omega

theorem pieces_eq_cons (hn : 0 < n) {m : List α} (hm : 0 < m.length) :
    pieces n m = m.take n :: pieces n (m.drop n) := by
  have hcount : count n m.length = count n (m.drop n).length + 1 := by
    rw [List.length_drop]
    by_cases hle : n ≤ m.length
    · have hsub : 1 + count n (m.length - 1 * n) = count n m.length := count_sub hn (by omega)
      rw [Nat.one_mul] at hsub
      omega
    · have hzero : m.length - n = 0 := by omega
      have hcount_zero : count n 0 = 0 := Nat.div_eq_of_lt (by omega)
      have hone : count n m.length ≤ 1 := count_le hn (by omega)
      have hpos := count_pos hn hm
      rw [hzero, hcount_zero]
      omega
  have hshift (k : Nat) : piece n m (k + 1) = piece n (m.drop n) k := by
    rw [piece, piece, List.drop_drop, Nat.add_mul, Nat.one_mul, Nat.add_comm]
  rw [pieces, hcount, List.range_succ_eq_map, List.map_cons, List.map_map, piece, Nat.zero_mul,
    List.drop_zero]
  congr 1
  exact List.map_congr_left fun k _ => hshift k

end Chunks
