import OdinLink.Lib.Threads

/-!
# A resource with one user at a time

Some of the threads use a resource, others do not. While one thread at most uses it, what is known
of the resource is said by where that thread stands, and by a condition of its own when there is no
such thread.
-/

namespace Threads

variable {P : Type}

/-- One thread uses the resource and stands where `fits` describes it, or none does and the resource
is idle. -/
def Exclusive (uses : P → Bool) (fits : P → Prop) (idle : Prop) (ps : List P) : Prop :=
  (∃ (i : Nat) (p : P), ps[i]? = some p ∧ uses p = true ∧ fits p ∧
      ∀ (j : Nat) (q : P), ps[j]? = some q → uses q = true → j = i) ∨
    (∀ q ∈ ps, uses q = false) ∧ idle

namespace Exclusive
variable {uses : P → Bool} {fits fits' : P → Prop} {idle idle' : Prop} {ps : List P}

theorem fits_of_mem (h : Exclusive uses fits idle ps) {p : P} (hp : p ∈ ps)
    (hu : uses p = true) : fits p := by
  obtain ⟨j, hj⟩ := List.mem_iff_getElem?.mp hp
  obtain ⟨i, q, hi, -, hfit, honly⟩ | ⟨hnone, -⟩ := h
  · rw [honly j p hj hu, hi] at hj
    exact Option.some.inj hj ▸ hfit
  · rw [hnone p hp] at hu
    cases hu

theorem idle_of_none (h : Exclusive uses fits idle ps) (hnone : ∀ q ∈ ps, uses q = false) :
    idle := by
  obtain ⟨i, q, hi, hu, -, -⟩ | ⟨-, hidle⟩ := h
  · rw [hnone q (List.mem_of_getElem? hi)] at hu
    cases hu
  · exact hidle

theorem mono (h : Exclusive uses fits idle ps)
    (hfits : ∀ p ∈ ps, uses p = true → fits p → fits' p) (hidle : idle → idle') :
    Exclusive uses fits' idle' ps := by
  obtain ⟨i, p, hi, hu, hfit, honly⟩ | ⟨hnone, hid⟩ := h
  · exact .inl ⟨i, p, hi, hu, hfits p (List.mem_of_getElem? hi) hu hfit, honly⟩
  · exact .inr ⟨hnone, hidle hid⟩

theorem run (h : Exclusive uses fits idle ps) {i : Nat} {p p' : P} (hi : ps[i]? = some p)
    (hu : uses p = true) (hfits : uses p' = true → fits' p') (hidle : uses p' = false → idle') :
    Exclusive uses fits' idle' (ps.set i p') := by
  have hlt : i < ps.length := (List.getElem?_eq_some_iff.mp hi).1
  have honly : ∀ (j : Nat) (q : P), ps[j]? = some q → uses q = true → j = i := by
    obtain ⟨k, q, -, -, -, honly⟩ | ⟨hnone, -⟩ := h
    · intro j r hj hr
      rw [honly j r hj hr, honly i p hi hu]
    · rw [hnone p (List.mem_of_getElem? hi)] at hu
      cases hu
  cases hu' : uses p' with
  | true =>
    refine .inl ⟨i, p', by simp [hlt], hu', hfits hu', fun j q hj hq => ?_⟩
    by_cases hij : i = j
    · exact hij.symm
    · rw [List.getElem?_set_ne hij] at hj
      exact honly j q hj hq
  | false =>
    refine .inr ⟨fun q hq => ?_, hidle hu'⟩
    obtain ⟨j, hj⟩ := List.mem_iff_getElem?.mp hq
    by_cases hij : i = j
    · subst hij
      rw [List.getElem?_set_self hlt, Option.some.injEq] at hj
      exact hj ▸ hu'
    · rw [List.getElem?_set_ne hij] at hj
      by_contra hq'
      exact hij (honly j q hj (by simpa using hq')).symm

theorem run_other (h : Exclusive uses fits idle ps) {i : Nat} {p p' : P} (hi : ps[i]? = some p)
    (hu : uses p = false) (hu' : uses p' = false) : Exclusive uses fits idle (ps.set i p') := by
  have hlt : i < ps.length := (List.getElem?_eq_some_iff.mp hi).1
  have hset {j : Nat} {q : P} (hj : (ps.set i p')[j]? = some q) (hq : uses q = true) :
      ps[j]? = some q := by
    by_cases hij : i = j
    · subst hij
      rw [List.getElem?_set_self hlt, Option.some.injEq] at hj
      rw [← hj, hu'] at hq
      cases hq
    · rwa [List.getElem?_set_ne hij] at hj
  obtain ⟨k, q, hk, hq, hfit, honly⟩ | ⟨hnone, hidle⟩ := h
  · have hik : i ≠ k := by
      rintro rfl
      rw [hi, Option.some.injEq] at hk
      rw [← hk, hu] at hq
      cases hq
    exact .inl ⟨k, q, by rw [List.getElem?_set_ne hik]; exact hk, hq, hfit,
      fun j r hj hr => honly j r (hset hj hr) hr⟩
  · refine .inr ⟨fun q hq => ?_, hidle⟩
    obtain ⟨j, hj⟩ := List.mem_iff_getElem?.mp hq
    by_contra hq'
    have hq'' : uses q = true := by simpa using hq'
    exact hq' (hnone q (List.mem_of_getElem? (hset hj hq'')))

theorem start (hnone : ∀ q ∈ ps, uses q = false) {p : P} (hfits : uses p = true → fits p)
    (hidle : uses p = false → idle) : Exclusive uses fits idle (ps ++ [p]) := by
  have hnone' {j : Nat} {q : P} (hj : (ps ++ [p])[j]? = some q) (hq : uses q = true) :
      j = ps.length := by
    rcases Nat.lt_trichotomy j ps.length with hlt | heq | hgt
    · rw [List.getElem?_append_left hlt] at hj
      rw [hnone q (List.mem_of_getElem? hj)] at hq
      cases hq
    · exact heq
    · rw [List.getElem?_eq_none (by simp; omega)] at hj
      cases hj
  cases hu : uses p with
  | true =>
    exact .inl ⟨ps.length, p, by simp, hu, hfits hu, fun j q hj hq => hnone' hj hq⟩
  | false =>
    refine .inr ⟨fun q hq => ?_, hidle hu⟩
    rcases List.mem_append.mp hq with hq | hq
    · exact hnone q hq
    · rw [List.mem_singleton.mp hq]
      exact hu

theorem start_other (h : Exclusive uses fits idle ps) {qs : List P}
    (hqs : ∀ q ∈ qs, uses q = false) : Exclusive uses fits idle (ps ++ qs) := by
  obtain ⟨i, p, hi, hu, hfit, honly⟩ | ⟨hnone, hidle⟩ := h
  · have hlt : i < ps.length := (List.getElem?_eq_some_iff.mp hi).1
    refine .inl ⟨i, p, by rw [List.getElem?_append_left hlt]; exact hi, hu, hfit, ?_⟩
    intro j q hj hq
    by_cases hjl : j < ps.length
    · rw [List.getElem?_append_left hjl] at hj
      exact honly j q hj hq
    · rw [List.getElem?_append_right (by omega)] at hj
      rw [hqs q (List.mem_of_getElem? hj)] at hq
      cases hq
  · refine .inr ⟨fun q hq => ?_, hidle⟩
    rcases List.mem_append.mp hq with hq | hq
    · exact hnone q hq
    · exact hqs q hq

end Exclusive

end Threads
