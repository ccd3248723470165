import Mathlib.Data.List.Nodup
import Mathlib.Logic.Function.Basic
import OdinLink.Lib.History

/-!
# A ledger of resources

Resources are obtained under fresh numbers, kept in places and released again. While nothing is put
into a place that is taken, and nothing is released but what a place holds, the places hold exactly
what was obtained and not released.
-/

namespace Ledger

variable {σ R : Type}

inductive Entry (R : Type) where
  | obtained (x : Nat × R)
  | released (x : Nat × R)
  deriving DecidableEq, Repr

def Entry.obtained? : Entry R → Option (Nat × R)
  | .obtained x => some x
  | .released _ => none

def Entry.released? : Entry R → Option (Nat × R)
  | .obtained _ => none
  | .released x => some x

def obtained (log : List (Entry R)) : List (Nat × R) := log.filterMap Entry.obtained?

def released (log : List (Entry R)) : List (Nat × R) := log.filterMap Entry.released?

section Append
variable (log : List (Entry R)) (x : Nat × R)

@[simp] theorem obtained_obtain : obtained (log ++ [.obtained x]) = obtained log ++ [x] := by
  simp [obtained, Entry.obtained?]

@[simp] theorem obtained_release : obtained (log ++ [.released x]) = obtained log := by
  simp [obtained, Entry.obtained?]

@[simp] theorem released_obtain : released (log ++ [.obtained x]) = released log := by
  simp [released, Entry.released?]

@[simp] theorem released_release : released (log ++ [.released x]) = released log ++ [x] := by
  simp [released, Entry.released?]

end Append

structure Holds (log : List (Entry R)) (next : Nat) (held : σ → Option (Nat × R)) : Prop where
  fresh : ∀ x ∈ obtained log, x.1 < next
  numbers : ((obtained log).map Prod.fst).Nodup
  once : (released log).Nodup
  known : ∀ x ∈ released log, x ∈ obtained log
  held_iff : ∀ x, (∃ s, held s = some x) ↔ x ∈ obtained log ∧ x ∉ released log
  alone : ∀ s t x, held s = some x → held t = some x → s = t

namespace Holds
variable {log : List (Entry R)} {next : Nat} {held held' : σ → Option (Nat × R)} {s : σ}

theorem start : Holds ([] : List (Entry R)) 0 (fun _ : σ => none) where
  fresh := by simp [obtained]
  numbers := by simp [obtained]
  once := by simp [released]
  known := by simp [released]
  held_iff := by simp [obtained]
  alone := by simp

theorem congr (h : Holds log next held) (heq : ∀ s, held' s = held s) : Holds log next held' := by
  rwa [funext heq]

theorem mem_obtained {x : Nat × R} (h : Holds log next held) (hs : held s = some x) :
    x ∈ obtained log := ((h.held_iff x).mp ⟨s, hs⟩).1

theorem not_mem_released {x : Nat × R} (h : Holds log next held) (hs : held s = some x) :
    x ∉ released log := ((h.held_iff x).mp ⟨s, hs⟩).2

section Update
variable [DecidableEq σ]

theorem obtain (h : Holds log next held) (hs : held s = none) (r : R) :
    Holds (log ++ [.obtained (next, r)]) (next + 1)
      (Function.update held s (some (next, r))) := by
  have hnew : (next, r) ∉ obtained log := fun hmem => Nat.lt_irrefl _ (h.fresh _ hmem)
  constructor
  · intro x hx
    rw [obtained_obtain, List.mem_append, List.mem_singleton] at hx
    rcases hx with hx | rfl
    · exact Nat.lt_succ_of_lt (h.fresh x hx)
    · exact Nat.lt_succ_self next
  · rw [obtained_obtain, List.map_append, List.map_singleton, ← List.concat_eq_append,
      List.nodup_concat]
    refine ⟨fun hmem => ?_, h.numbers⟩
    obtain ⟨x, hx, hnum⟩ := List.mem_map.mp hmem
    exact Nat.ne_of_lt (h.fresh x hx) hnum
  · rw [released_obtain]
    exact h.once
  · intro x hx
    rw [released_obtain] at hx
    rw [obtained_obtain]
    exact List.mem_append_left _ (h.known x hx)
  · intro x
    rw [obtained_obtain, released_obtain, List.mem_append, List.mem_singleton]
    constructor
    · rintro ⟨t, ht⟩
      by_cases hts : t = s
      · subst hts
        rw [Function.update_self, Option.some.injEq] at ht
        subst ht
        exact ⟨.inr rfl, fun hrel => hnew (h.known _ hrel)⟩
      · rw [Function.update_of_ne hts] at ht
        exact ⟨.inl (h.mem_obtained ht), h.not_mem_released ht⟩
    · rintro ⟨hx | rfl, hrel⟩
      · obtain ⟨t, ht⟩ := (h.held_iff x).mpr ⟨hx, hrel⟩
        refine ⟨t, ?_⟩
        rw [Function.update_of_ne, ht]
        rintro rfl
        rw [hs] at ht
        cases ht
      · exact ⟨s, Function.update_self _ _ _⟩
  · intro t u x ht hu
    by_cases hts : t = s <;> by_cases hus : u = s
    · rw [hts, hus]
    · rw [hts, Function.update_self, Option.some.injEq] at ht
      rw [Function.update_of_ne hus, ← ht] at hu
      exact absurd (h.mem_obtained hu) hnew
    · rw [hus, Function.update_self, Option.some.injEq] at hu
      rw [Function.update_of_ne hts, ← hu] at ht
      exact absurd (h.mem_obtained ht) hnew
    · rw [Function.update_of_ne hts] at ht
      rw [Function.update_of_ne hus] at hu
      exact h.alone t u x ht hu

theorem release (h : Holds log next held) {x : Nat × R} (hs : held s = some x) :
    Holds (log ++ [.released x]) next (Function.update held s none) := by
  constructor
  · rw [obtained_release]
    exact h.fresh
  · rw [obtained_release]
    exact h.numbers
  · rw [released_release, ← List.concat_eq_append, List.nodup_concat]
    exact ⟨h.not_mem_released hs, h.once⟩
  · intro y hy
    rw [released_release, List.mem_append, List.mem_singleton] at hy
    rw [obtained_release]
    rcases hy with hy | rfl
    · exact h.known y hy
    · exact h.mem_obtained hs
  · intro y
    rw [obtained_release, released_release, List.mem_append, List.mem_singleton, not_or]
    constructor
    · rintro ⟨t, ht⟩
      have hts : t ≠ s := by
        rintro rfl
        rw [Function.update_self] at ht
        cases ht
      rw [Function.update_of_ne hts] at ht
      refine ⟨h.mem_obtained ht, h.not_mem_released ht, ?_⟩
      rintro rfl
      exact hts (h.alone t s y ht hs)
    · rintro ⟨hy, hrel, hne⟩
      obtain ⟨t, ht⟩ := (h.held_iff y).mpr ⟨hy, hrel⟩
      refine ⟨t, ?_⟩
      rw [Function.update_of_ne, ht]
      rintro rfl
      exact hne (Option.some.inj (ht.symm.trans hs))
  · intro t u y ht hu
    have hne {v : σ} (hv : Function.update held s none v = some y) : held v = some y := by
      by_cases hvs : v = s
      · rw [hvs, Function.update_self] at hv
        cases hv
      · rwa [Function.update_of_ne hvs] at hv
    exact h.alone t u y (hne ht) (hne hu)

end Update

theorem count_released [DecidableEq R] (h : Holds log next held) (hnone : ∀ s, held s = none)
    {x : Nat × R} (hx : x ∈ obtained log) : (released log).count x = 1 := by
  apply List.count_eq_one_of_mem h.once
  by_contra hrel
  obtain ⟨s, hs⟩ := (h.held_iff x).mpr ⟨hx, hrel⟩
  rw [hnone s] at hs
  cases hs

end Holds

/-- Whenever a resource of a kind that `needs` another was released, one of a kind that `backs` it
was still there. -/
def Backed (needs backs : R → Prop) (log : List (Entry R)) : Prop :=
  ∀ u x v, log = u ++ .released x :: v → needs x.2 →
    ∃ y ∈ obtained u, backs y.2 ∧ y ∉ released u

namespace Backed
variable {needs backs : R → Prop} {log : List (Entry R)}

theorem start : Backed needs backs [] := by
  intro u x v h
  simp at h

theorem append (h : Backed needs backs log) (e : Entry R)
    (he : ∀ x, e = .released x → needs x.2 → ∃ y ∈ obtained log, backs y.2 ∧ y ∉ released log) :
    Backed needs backs (log ++ [e]) := by
  intro u x v hsplit hx
  rcases History.append_singleton_split hsplit with ⟨rfl, rfl, -⟩ | ⟨w, hw, -⟩
  · exact he x rfl hx
  · exact h u x w hw hx

theorem obtain (h : Backed needs backs log) (x : Nat × R) :
    Backed needs backs (log ++ [.obtained x]) := by
  apply h.append
  intro y hy
  cases hy

theorem release {σ : Type} {next : Nat} {held : σ → Option (Nat × R)} (h : Backed needs backs log)
    (hholds : Holds log next held) {x : Nat × R}
    (hx : needs x.2 → ∃ s y, held s = some y ∧ backs y.2) :
    Backed needs backs (log ++ [.released x]) := by
  apply h.append
  intro x' hx' hneeds
  cases hx'
  obtain ⟨s, y, hs, hbacks⟩ := hx hneeds
  exact ⟨y, hholds.mem_obtained hs, hbacks, hholds.not_mem_released hs⟩

end Backed

end Ledger
