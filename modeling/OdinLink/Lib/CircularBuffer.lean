import Mathlib.Data.List.Range
import Mathlib.Data.Nat.ModEq
import Mathlib.Logic.Function.Basic

/-!
# Circular buffers

A queue in an array of fixed depth, with a head, a tail and a count. What it holds is the list read
from the head on; a push appends to that list and a pop takes its first entry off.
-/

structure CircularBuffer (α : Type) where
  depth : Nat
  slot : Nat → α
  head : Nat
  tail : Nat
  count : Nat

namespace CircularBuffer

variable {α : Type}

def write (r : CircularBuffer α) (a : α) : CircularBuffer α :=
  {r with slot := Function.update r.slot r.tail a}

def push (r : CircularBuffer α) (a : α) : CircularBuffer α :=
  {r.write a with tail := (r.tail + 1) % r.depth, count := r.count + 1}

def pop (r : CircularBuffer α) : CircularBuffer α :=
  {r with head := (r.head + 1) % r.depth, count := r.count - 1}

def front (r : CircularBuffer α) : α := r.slot r.head

def contents (r : CircularBuffer α) : List α :=
  (List.range r.count).map fun i => r.slot ((r.head + i) % r.depth)

structure WF (r : CircularBuffer α) : Prop where
  head_lt : r.head < r.depth
  count_le : r.count ≤ r.depth
  tail_eq : r.tail = (r.head + r.count) % r.depth

@[simp] theorem length_contents (r : CircularBuffer α) : r.contents.length = r.count := by
  simp [contents]

@[simp] theorem write_count (r : CircularBuffer α) (a : α) : (r.write a).count = r.count := rfl

@[simp] theorem push_count (r : CircularBuffer α) (a : α) : (r.push a).count = r.count + 1 := rfl

@[simp] theorem pop_count (r : CircularBuffer α) : r.pop.count = r.count - 1 := rfl

theorem write_slots {P : Nat → α → Prop} {r : CircularBuffer α} {a : α} (hold : ∀ j, P j (r.slot j))
    (hnew : P r.tail a) (j : Nat) : P j ((r.write a).slot j) := by
  change P j (Function.update r.slot r.tail a j)
  by_cases hj : j = r.tail
  · rw [hj, Function.update_self]
    exact hnew
  · rw [Function.update_of_ne hj]
    exact hold j

theorem add_mod_ne {d i n : Nat} (h : Nat) (hin : i < n) (hnd : n < d) :
    (h + i) % d ≠ (h + n) % d := by
  intro heq
  have hmod : i % d = n % d := Nat.ModEq.add_left_cancel' h heq
  rw [Nat.mod_eq_of_lt (hin.trans hnd), Nat.mod_eq_of_lt hnd] at hmod
  exact hin.ne hmod

namespace WF
variable {r : CircularBuffer α} (hr : r.WF)
include hr

theorem slot_ne_tail (hroom : r.count < r.depth) {i : Nat} (hi : i < r.count) :
    (r.head + i) % r.depth ≠ r.tail := by
  rw [hr.tail_eq]
  exact add_mod_ne r.head hi hroom

theorem head_ne_tail (hpos : 0 < r.count) (hroom : r.count < r.depth) : r.head ≠ r.tail := by
  have hne := hr.slot_ne_tail hroom hpos
  rwa [Nat.add_zero, Nat.mod_eq_of_lt hr.head_lt] at hne

theorem write (a : α) : (r.write a).WF := ⟨hr.head_lt, hr.count_le, hr.tail_eq⟩

theorem push (hroom : r.count < r.depth) (a : α) : (r.push a).WF where
  head_lt := hr.head_lt
  count_le := hroom
  tail_eq := by
    change (r.tail + 1) % r.depth = (r.head + (r.count + 1)) % r.depth
    rw [hr.tail_eq, Nat.mod_add_mod, Nat.add_assoc]

theorem pop (hpos : 0 < r.count) : r.pop.WF where
  head_lt := Nat.mod_lt _ (Nat.zero_lt_of_lt hr.head_lt)
  count_le := (Nat.sub_le _ _).trans hr.count_le
  tail_eq := by
    change r.tail = ((r.head + 1) % r.depth + (r.count - 1)) % r.depth
    have hsum : r.head + 1 + (r.count - 1) = r.head + r.count := by omega
    rw [Nat.mod_add_mod, hsum, hr.tail_eq]

theorem front_push (hpos : 0 < r.count) (hroom : r.count < r.depth) (a : α) :
    (r.push a).front = r.front := by
  change Function.update r.slot r.tail a r.head = r.slot r.head
  exact Function.update_of_ne (hr.head_ne_tail hpos hroom) a r.slot

theorem front_write (hpos : 0 < r.count) (hroom : r.count < r.depth) (a : α) :
    (r.write a).front = r.front :=
  hr.front_push hpos hroom a

theorem contents_write (hroom : r.count < r.depth) (a : α) :
    (r.write a).contents = r.contents := by
  refine List.map_congr_left fun i hi => ?_
  exact Function.update_of_ne (hr.slot_ne_tail hroom (List.mem_range.mp hi)) a r.slot

theorem contents_push (hroom : r.count < r.depth) (a : α) :
    (r.push a).contents = r.contents ++ [a] := by
  have hold : (List.range r.count).map
      (fun i => (r.write a).slot ((r.head + i) % r.depth)) = r.contents :=
    hr.contents_write hroom a
  have hnew : (r.write a).slot ((r.head + r.count) % r.depth) = a := by
    rw [← hr.tail_eq]
    exact Function.update_self r.tail a r.slot
  change (List.range (r.count + 1)).map (fun i => (r.write a).slot ((r.head + i) % r.depth)) = _
  rw [List.range_succ, List.map_append, hold, List.map_singleton, hnew]

theorem contents_eq_cons (hpos : 0 < r.count) : r.contents = r.front :: r.pop.contents := by
  obtain ⟨n, hn⟩ := Nat.exists_eq_succ_of_ne_zero hpos.ne'
  have hfront : r.slot ((r.head + 0) % r.depth) = r.front := by
    rw [Nat.add_zero, Nat.mod_eq_of_lt hr.head_lt]
    rfl
  have hrest : (List.range n).map (fun i => r.slot ((r.head + (i + 1)) % r.depth)) =
      r.pop.contents := by
    change _ = (List.range (r.count - 1)).map
      fun i => r.slot (((r.head + 1) % r.depth + i) % r.depth)
    rw [hn, Nat.succ_sub_one]
    refine List.map_congr_left fun i _ => ?_
    rw [Nat.mod_add_mod, Nat.add_assoc, Nat.add_comm 1 i]
  rw [contents, hn, List.range_succ_eq_map, List.map_cons, List.map_map, hfront, ← hrest]
  rfl

theorem front_mem (hpos : 0 < r.count) : r.front ∈ r.contents := by
  rw [hr.contents_eq_cons hpos]
  exact List.mem_cons_self

end WF

end CircularBuffer
