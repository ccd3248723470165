import Mathlib.Data.List.Basic
import Mathlib.Logic.Function.Iterate
import Mathlib.Tactic.Choose

/-!
# Runs with a history

A machine steps from state to state and every step logs some events. A run is a state together with
everything logged on the way to it, and a condition on the steps restricts the runs that are
considered.
-/

namespace History

variable {S A E : Type}

section Since
variable (p : E → Bool)

/-- What was logged after the last event of kind `p`; everything when there was none. -/
def since : List E → List E
  | [] => []
  | e :: es => if es.any p then since es else if p e then es else e :: es

@[simp] theorem since_nil : since p [] = [] := rfl

theorem since_eq_self {h : List E} (hp : h.any p = false) : since p h = h := by
  cases h with
  | nil => rfl
  | cons e es =>
    rw [List.any_cons, Bool.or_eq_false_iff] at hp
    simp [since, hp.1, hp.2]

theorem since_append_of_any (h : List E) {es : List E} (hp : es.any p = true) :
    since p (h ++ es) = since p es := by
  induction h with
  | nil => rfl
  | cons e h ih =>
    have hany : (h ++ es).any p = true := by rw [List.any_append, hp, Bool.or_true]
    rw [List.cons_append, since, if_pos hany, ih]

theorem since_append_of_none (h : List E) {es : List E} (hp : es.any p = false) :
    since p (h ++ es) = since p h ++ es := by
  induction h with
  | nil => rw [List.nil_append, since_nil, List.nil_append, since_eq_self p hp]
  | cons e h ih =>
    have hany : (h ++ es).any p = h.any p := by rw [List.any_append, hp, Bool.or_false]
    rw [List.cons_append, since, since, hany, ih]
    split
    · rfl
    · split <;> rfl

theorem exists_split {h : List E} (hp : h.any p = true) :
    ∃ u e, p e = true ∧ h = u ++ e :: since p h ∧ (since p h).any p = false := by
  induction h with
  | nil => simp at hp
  | cons e h ih =>
    by_cases hany : h.any p = true
    · obtain ⟨u, e', he', hsplit, hnone⟩ := ih hany
      rw [since, if_pos hany]
      exact ⟨e :: u, e', he', by rw [List.cons_append, ← hsplit], hnone⟩
    · rw [List.any_cons, Bool.or_eq_true] at hp
      have he : p e = true := hp.resolve_right hany
      rw [since, if_neg hany, if_pos he]
      exact ⟨[], e, he, rfl, by simpa using hany⟩

theorem since_subset (h : List E) : since p h ⊆ h := by
  cases hany : h.any p with
  | false =>
    rw [since_eq_self p hany]
    exact List.Subset.refl h
  | true =>
    obtain ⟨u, e, -, hsplit, -⟩ := exists_split p hany
    intro x hx
    rw [hsplit]
    exact List.mem_append_right u (List.mem_cons_of_mem e hx)

end Since

theorem append_singleton_split {h u v : List E} {e a : E} (heq : h ++ [e] = u ++ a :: v) :
    h = u ∧ e = a ∧ v = [] ∨ ∃ w, h = u ++ a :: w ∧ v = w ++ [e] := by
  rcases List.eq_nil_or_concat v with rfl | ⟨w, b, rfl⟩
  · obtain ⟨rfl, hlast⟩ := List.append_inj' heq rfl
    exact .inl ⟨rfl, (List.cons.inj hlast).1, rfl⟩
  · rw [List.concat_eq_append, ← List.cons_append, ← List.append_assoc] at heq
    obtain ⟨rfl, hlast⟩ := List.append_inj' heq rfl
    cases hlast
    exact .inr ⟨w, rfl, List.concat_eq_append⟩

theorem eq_nil_of_only {es u v : List E} {e e' : E} (hone : es = [e']) (hes : es = u ++ e :: v) :
    u = [] := by
  rw [hone, List.singleton_eq_append_iff] at hes
  rcases hes with ⟨hu, -⟩ | ⟨-, hv⟩
  · exact hu
  · contradiction

/-- The states a machine reaches from `s₀` by steps that meet `ok`, with their histories. -/
inductive Reaches (step : S → A → Option (S × List E)) (ok : S → List E → A → Prop) (s₀ : S) :
    S → List E → Prop where
  | start : Reaches step ok s₀ s₀ []
  | next {s s' : S} {h es : List E} {a : A} : Reaches step ok s₀ s h → ok s h a →
      step s a = some (s', es) → Reaches step ok s₀ s' (h ++ es)

namespace Reaches
variable {step : S → A → Option (S × List E)} {ok : S → List E → A → Prop} {s₀ s : S}
  {h : List E}

/-- What holds at the start and survives every step holds of every run. The step may use that
the state it leaves was reached, so invariants can be proved one on top of the other. -/
theorem invariant (I : S → List E → Prop) (h0 : I s₀ [])
    (hstep : ∀ s h a s' es, Reaches step ok s₀ s h → I s h → ok s h a → step s a = some (s', es) →
      I s' (h ++ es))
    (hr : Reaches step ok s₀ s h) : I s h := by
  induction hr with
  | start => exact h0
  | next hr ha hs ih => exact hstep _ _ _ _ _ hr ih ha hs

theorem mono {ok' : S → List E → A → Prop} (hok : ∀ s h a, ok s h a → ok' s h a)
    (hr : Reaches step ok s₀ s h) : Reaches step ok' s₀ s h := by
  induction hr with
  | start => exact .start
  | next _ ha hs ih => exact .next ih (hok _ _ _ ha) hs

/-- A flag that is raised only when `P` holds of what was logged since the last `clear`, and that
does not survive a `clear`, shows that `P` still holds. -/
theorem collected (flag : S → Prop) (P : List E → Prop) (clear : E → Bool)
    (hP : ∀ u w, P u → P (u ++ w)) (h0 : ¬ flag s₀)
    (hstep : ∀ s h a s' es, Reaches step ok s₀ s h → ok s h a → step s a = some (s', es) →
      flag s' → flag s ∧ es.any clear = false ∨ P (since clear (h ++ es)))
    (hr : Reaches step ok s₀ s h) (hf : flag s) : P (since clear h) := by
  induction hr with
  | start => exact absurd hf h0
  | @next s s' h es a hr ha hs ih =>
    rcases hstep s h a s' es hr ha hs hf with ⟨hflag, hnone⟩ | hp
    · rw [since_append_of_none clear h hnone]
      exact hP _ es (ih hflag)
    · exact hp

/-- A flag that only events of kind `raise` set, and that every event of kind `clear` takes back,
is backed by an event later than the last `clear`. -/
theorem backed (flag : S → Prop) (raise : E → Prop) (clear : E → Bool) (h0 : ¬ flag s₀)
    (hstep : ∀ s h a s' es, Reaches step ok s₀ s h → ok s h a → step s a = some (s', es) →
      flag s' → flag s ∧ es.any clear = false ∨ ∃ e ∈ since clear es, raise e)
    (hr : Reaches step ok s₀ s h) (hf : flag s) : ∃ e ∈ since clear h, raise e := by
  refine hr.collected flag (fun u => ∃ e ∈ u, raise e) clear ?_ h0 ?_ hf
  · rintro u w ⟨e, he, hraise⟩
    exact ⟨e, List.mem_append_left w he, hraise⟩
  · intro s h a s' es hr ha hs hf
    refine (hstep s h a s' es hr ha hs hf).imp_right ?_
    rintro ⟨e, he, hraise⟩
    refine ⟨e, ?_, hraise⟩
    cases hany : es.any clear with
    | true =>
      rw [since_append_of_any clear h hany]
      exact he
    | false =>
      rw [since_append_of_none clear h hany]
      exact List.mem_append_right _ (since_subset clear es he)

theorem occurred (flag : S → Prop) (raise : E → Prop) (h0 : ¬ flag s₀)
    (hstep : ∀ s h a s' es, Reaches step ok s₀ s h → ok s h a → step s a = some (s', es) →
      flag s' → flag s ∨ ∃ e ∈ es, raise e)
    (hr : Reaches step ok s₀ s h) (hf : flag s) : ∃ e ∈ h, raise e := by
  have hnone (u : List E) : u.any (fun _ => false) = false := by simp
  obtain ⟨e, he, hraise⟩ := hr.backed flag raise (fun _ => false) h0 (by
    intro s h a s' es hr ha hs hf
    rw [since_eq_self _ (hnone es)]
    exact (hstep s h a s' es hr ha hs hf).imp_left fun hflag => ⟨hflag, hnone es⟩) hf
  exact ⟨e, since_subset _ h he, hraise⟩

theorem before (e : E) (P : List E → Prop)
    (hstep : ∀ s h a s' es, Reaches step ok s₀ s h → ok s h a → step s a = some (s', es) →
      ∀ u v, es = u ++ e :: v → P (h ++ u))
    (hr : Reaches step ok s₀ s h) (u v : List E) (hsplit : h = u ++ e :: v) : P u := by
  induction hr generalizing u v with
  | start => simp at hsplit
  | @next s s' h es a hr ha hs ih =>
    rcases List.append_eq_append_iff.mp hsplit with ⟨w, rfl, hes⟩ | ⟨w, hh, hes⟩
    · exact hstep s h a s' es hr ha hs w v hes
    · cases w with
      | nil =>
        rw [List.append_nil] at hh
        subst hh
        have hp := hstep s h a s' es hr ha hs [] v hes.symm
        rwa [List.append_nil] at hp
      | cons e' w =>
        rw [List.cons_append, List.cons.injEq] at hes
        obtain ⟨rfl, -⟩ := hes
        exact ih u w hh

end Reaches

def run (step : S → A → Option (S × List E)) (check : S → List E → A → Bool) (s : S)
    (h : List E) : List A → Option (S × List E)
  | [] => some (s, h)
  | a :: as =>
    if check s h a then
      match step s a with
      | none => none
      | some r => run step check r.1 (h ++ r.2) as
    else none

theorem Reaches.of_run {step : S → A → Option (S × List E)} {check : S → List E → A → Bool}
    {ok : S → List E → A → Prop} {s₀ s s' : S} {h h' : List E} {as : List A}
    (hok : ∀ s h a, check s h a = true → ok s h a) (hr : Reaches step ok s₀ s h)
    (hrun : run step check s h as = some (s', h')) : Reaches step ok s₀ s' h' := by
  induction as generalizing s h with
  | nil =>
    rw [run, Option.some.injEq, Prod.mk.injEq] at hrun
    rw [← hrun.1, ← hrun.2]
    exact hr
  | cons a as ih =>
    rw [run] at hrun
    split at hrun
    · rename_i hcheck
      split at hrun
      · contradiction
      · rename_i r hs
        exact ih (.next hr (hok s h a hcheck) hs) hrun
    · contradiction

def final (step : S → A → Option (S × List E)) (check : S → List E → A → Bool) (s₀ : S)
    (as : List A) (hrun : (run step check s₀ [] as).isSome = true) : S × List E :=
  (run step check s₀ [] as).get hrun

theorem Reaches.of_final {step : S → A → Option (S × List E)} {check : S → List E → A → Bool}
    {s₀ : S} {as : List A} (ok : S → List E → A → Prop)
    (hok : ∀ s h a, check s h a = true → ok s h a)
    (hrun : (run step check s₀ [] as).isSome = true) :
    Reaches step ok s₀ (final step check s₀ as hrun).1 (final step check s₀ as hrun).2 :=
  .of_run hok .start (Option.some_get hrun).symm

theorem Reaches.of_acts {step : S → A → Option (S × List E)} {check : S → List E → A → Bool} {s₀ : S}
    (as : List A) (hrun : (run step check s₀ [] as).isSome = true) :
    Reaches step (fun s h a => check s h a = true) s₀ (final step check s₀ as hrun).1
      (final step check s₀ as hrun).2 :=
  .of_final _ (fun _ _ _ hc => hc) hrun

theorem Reaches.of_free {step : S → A → Option (S × List E)} {s₀ : S} (as : List A)
    (hrun : (run step (fun _ _ _ => true) s₀ [] as).isSome = true) :
    Reaches step (fun _ _ _ => True) s₀ (final step _ s₀ as hrun).1 (final step _ s₀ as hrun).2 :=
  .of_final _ (fun _ _ _ _ => trivial) hrun

theorem exists_endless {r : S → S → Prop} {P : S → Prop}
    (hnext : ∀ s, P s → ∃ s', r s s' ∧ P s') {s : S} (hs : P s) :
    ∃ f : Nat → S, f 0 = s ∧ ∀ n, r (f n) (f (n + 1)) := by
  choose! next hstep hP using hnext
  have hall (n : Nat) : P (next^[n] s) := by
    induction n with
    | zero => exact hs
    | succ n ih =>
      rw [Function.iterate_succ_apply']
      exact hP _ ih
  refine ⟨fun n => next^[n] s, rfl, fun n => ?_⟩
  simp only [Function.iterate_succ_apply']
  exact hstep _ (hall n)

section Lists

variable {step : S → A → S} {Inv P : S → Prop} {cond : S → A → Prop}

def Throughout (step : S → A → S) (P : S → Prop) : S → List A → Prop
  | s, [] => P s
  | s, a :: as => P s ∧ Throughout step P (step s a) as

def Meets (step : S → A → S) (cond : S → A → Prop) : S → List A → Prop
  | _, [] => True
  | s, a :: as => cond s a ∧ Meets step cond (step s a) as

/-- Where `cond` is what one operation needs to keep `P`, it is what all of them need. -/
theorem throughout_iff_meets (hinv : ∀ s a, Inv s → Inv (step s a))
    (hstep : ∀ s a, Inv s → P s → (P (step s a) ↔ cond s a)) {s : S} (hs : Inv s) (hP : P s)
    (as : List A) : Throughout step P s as ↔ Meets step cond s as := by
  induction as generalizing s with
  | nil => exact ⟨fun _ => trivial, fun _ => hP⟩
  | cons a as ih =>
    constructor
    · rintro ⟨_, hrest⟩
      have hnext : P (step s a) := by
        cases as with
        | nil => exact hrest
        | cons b bs => exact hrest.1
      exact ⟨(hstep s a hs hP).mp hnext, (ih (hinv s a hs) hnext).mp hrest⟩
    · rintro ⟨hcond, hrest⟩
      have hnext := (hstep s a hs hP).mpr hcond
      exact ⟨hP, (ih (hinv s a hs) hnext).mpr hrest⟩

end Lists

end History
