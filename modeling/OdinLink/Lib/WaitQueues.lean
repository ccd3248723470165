import Mathlib.Logic.Function.Basic
import Mathlib.Data.List.Basic

/-!
# Wait queues

A task that waits puts itself on a queue and marks itself asleep, and only then looks at what it
waits for; a wake-up clears the mark of every task on the queue and empties it.
-/

namespace WaitQueues

structure Queues (W : Type) where
  waiting : W → List Nat
  asleep : Nat → Bool

namespace Queues
variable {W : Type} [DecidableEq W]

def empty : Queues W := ⟨fun _ => [], fun _ => false⟩

def park (q : Queues W) (w : W) (t : Nat) : Queues W where
  waiting := Function.update q.waiting w
    (if (q.waiting w).contains t then q.waiting w else t :: q.waiting w)
  asleep := Function.update q.asleep t true

def wakeUp (q : Queues W) (w : W) : Queues W where
  waiting := Function.update q.waiting w []
  asleep t := q.asleep t && !(q.waiting w).contains t

def leave (q : Queues W) (w : W) (t : Nat) : Queues W where
  waiting := Function.update q.waiting w ((q.waiting w).filter (· != t))
  asleep := Function.update q.asleep t false

/-- If task `t` sleeps, the next wake-up of `w` finds it. -/
def Found (q : Queues W) (w : W) (t : Nat) : Prop := q.asleep t = true → t ∈ q.waiting w

variable {q : Queues W} {v w : W} {t u : Nat}

theorem found_park (q : Queues W) (w : W) (t : Nat) : (q.park w t).Found w t := by
  intro _
  simp only [park, Function.update_self]
  split
  · next h => exact List.contains_iff_mem.mp h
  · exact List.mem_cons_self

theorem waiting_park_of_ne (h : v ≠ w) : (q.park w t).waiting v = q.waiting v :=
  Function.update_of_ne h _ _

theorem waiting_leave_of_ne (h : v ≠ w) : (q.leave w t).waiting v = q.waiting v :=
  Function.update_of_ne h _ _

theorem waiting_wakeUp_of_ne (h : v ≠ w) : (q.wakeUp w).waiting v = q.waiting v :=
  Function.update_of_ne h _ _

@[simp] theorem asleep_park_of_ne (h : u ≠ t) : (q.park w t).asleep u = q.asleep u :=
  Function.update_of_ne h _ _

@[simp] theorem asleep_leave_of_ne (h : u ≠ t) : (q.leave w t).asleep u = q.asleep u :=
  Function.update_of_ne h _ _

theorem Found.park_of_ne (hf : q.Found v u) (h : u ≠ t) : (q.park w t).Found v u := by
  intro hu
  rw [asleep_park_of_ne h] at hu
  have hmem := hf hu
  by_cases hv : v = w
  · subst hv
    simp only [park, Function.update_self]
    split
    · exact hmem
    · exact List.mem_cons_of_mem t hmem
  · rw [waiting_park_of_ne hv]
    exact hmem

theorem Found.leave_of_ne (hf : q.Found v u) (h : u ≠ t) : (q.leave w t).Found v u := by
  intro hu
  rw [asleep_leave_of_ne h] at hu
  have hmem := hf hu
  by_cases hv : v = w
  · subst hv
    simp only [leave, Function.update_self]
    exact List.mem_filter.mpr ⟨hmem, bne_iff_ne.mpr h⟩
  · rw [waiting_leave_of_ne hv]
    exact hmem

theorem asleep_of_wakeUp (h : (q.wakeUp w).asleep t = true) :
    q.asleep t = true ∧ t ∉ q.waiting w := by
  simp only [wakeUp, Bool.and_eq_true, Bool.not_eq_true'] at h
  exact ⟨h.1, fun hmem => by simp [hmem] at h⟩

theorem Found.awake (hf : q.Found w t) : (q.wakeUp w).asleep t = false := by
  rw [← Bool.not_eq_true]
  intro h
  obtain ⟨hsleep, hout⟩ := asleep_of_wakeUp h
  exact hout (hf hsleep)

theorem Found.wakeUp (hf : q.Found v t) (w : W) : (q.wakeUp w).Found v t := by
  intro h
  obtain ⟨hsleep, hout⟩ := asleep_of_wakeUp h
  have hv : v ≠ w := by
    rintro rfl
    exact hout (hf hsleep)
  rw [waiting_wakeUp_of_ne hv]
  exact hf hsleep

end Queues

end WaitQueues
