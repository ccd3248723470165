import Mathlib.Tactic.Common

/-!
# A switch with hysteresis

An event can force the switch on, or turn it on when it is off and the event is over a limit. It
goes off again after a number of low events in a row.
-/

namespace Hysteresis

universe u

variable {E : Type u}

structure Kind (E : Type u) where
  force : E → Bool
  above : E → Bool
  low : E → Bool

structure Switch where
  on : Bool
  count : Nat
  deriving DecidableEq, Repr

/-- `limit` low events in a row turn the switch off. -/
def step (kind : Kind E) (limit : Nat) (s : Switch) (e : E) : Switch :=
  if kind.force e || !s.on && kind.above e then ⟨true, 0⟩
  else if s.on then
    if kind.low e then
      if limit ≤ s.count + 1 then ⟨false, 0⟩ else ⟨true, s.count + 1⟩
    else ⟨true, 0⟩
  else s

def after (kind : Kind E) (limit : Nat) (s : Switch) (es : Nat → E) : Nat → Switch
  | 0 => s
  | n + 1 => step kind limit (after kind limit s es n) (es n)

variable (kind : Kind E) (limit : Nat) (s : Switch) (es : Nat → E)

def Trigger (j : Nat) : Prop :=
  kind.force (es j) = true ∨ (after kind limit s es j).on = false ∧ kind.above (es j) = true

/-- Between `j` and `n` there are `limit` low events in a row. -/
def Calm (j n : Nat) : Prop :=
  ∃ i, j < i ∧ i + limit ≤ n ∧ ∀ k, i ≤ k → k < i + limit → kind.low (es k) = true

structure Trail (j n count : Nat) : Prop where
  lt : j + count < n
  lt_limit : count < limit
  low : ∀ k, n - count ≤ k → k < n → kind.low (es k) = true
  start : n = j + count + 1 ∨ kind.low (es (n - count - 1)) = false

structure On (n : Nat) : Prop where
  on : (after kind limit s es n).on = true
  since : ∃ j < n, Trigger kind limit s es j ∧ ¬ Calm kind limit es j n ∧
    Trail kind limit es j n (after kind limit s es n).count ∧
    ∀ k, j < k → k ≤ n → (after kind limit s es k).on = true

structure Off (n : Nat) : Prop where
  off : (after kind limit s es n).on = false
  calm : ∀ j < n, Trigger kind limit s es j → Calm kind limit es j n

variable {kind limit s es} {j n : Nat}

theorem Calm.mono (h : Calm kind limit es j n) : Calm kind limit es j (n + 1) := by
  obtain ⟨i, hji, hin, hlow⟩ := h
  exact ⟨i, hji, Nat.le_succ_of_le hin, hlow⟩

theorem Calm.of_succ (h : Calm kind limit es j (n + 1)) (hn : ¬ Calm kind limit es j n) :
    j + limit ≤ n ∧ ∀ k, n + 1 ≤ k + limit → k ≤ n → kind.low (es k) = true := by
  obtain ⟨i, hji, hin, hlow⟩ := h
  have hlast : i + limit = n + 1 := by
    by_contra hne
    exact hn ⟨i, hji, by omega, hlow⟩
  exact ⟨by omega, fun k hk hkn => hlow k (by omega) (by omega)⟩

section Steps

variable (hlimit : 0 < limit) (hforce : ∀ e, kind.low e = true → kind.force e = false)

theorem step_trigger (ht : Trigger kind limit s es n) :
    after kind limit s es (n + 1) = ⟨true, 0⟩ := by
  have hcond : (kind.force (es n) || !(after kind limit s es n).on && kind.above (es n)) = true := by
    rcases ht with hf | ⟨hoff, hover⟩
    · rw [hf, Bool.true_or]
    · rw [hoff, hover]
      simp
  rw [after, step, if_pos hcond]

theorem step_of_not_trigger (ht : ¬ Trigger kind limit s es n) :
    after kind limit s es (n + 1) =
      if (after kind limit s es n).on then
        if kind.low (es n) then
          if limit ≤ (after kind limit s es n).count + 1 then ⟨false, 0⟩
          else ⟨true, (after kind limit s es n).count + 1⟩
        else ⟨true, 0⟩
      else after kind limit s es n := by
  have hcond :
      ¬ (kind.force (es n) || !(after kind limit s es n).on && kind.above (es n)) = true := by
    intro h
    apply ht
    rw [Bool.or_eq_true, Bool.and_eq_true, Bool.not_eq_true'] at h
    exact h
  rw [after, step, if_neg hcond]

include hlimit in
theorem On.of_trigger (ht : Trigger kind limit s es n) : On kind limit s es (n + 1) := by
  have hstep := step_trigger ht
  refine ⟨by rw [hstep], n, Nat.lt_succ_self n, ht, ?_, ?_, ?_⟩
  · rintro ⟨i, hi, hin, _⟩
    omega
  · rw [hstep]
    exact ⟨Nat.lt_succ_self n, hlimit, fun k hk hkn => absurd hkn (by dsimp only at hk; omega),
      .inl rfl⟩
  · intro k hnk hk
    obtain rfl : k = n + 1 := by omega
    rw [hstep]

theorem On.of_low (h : On kind limit s es n) (ht : ¬ Trigger kind limit s es n)
    (hlow : kind.low (es n) = true) (hcount : ¬ limit ≤ (after kind limit s es n).count + 1) :
    On kind limit s es (n + 1) := by
  obtain ⟨hon, j, hj, htrig, hcalm, htrail, hall⟩ := h
  have hstep := step_of_not_trigger ht
  rw [if_pos hon, if_pos hlow, if_neg hcount] at hstep
  generalize (after kind limit s es n).count = c at hstep htrail hcount
  obtain ⟨hlt, hltl, hlows, hstart⟩ := htrail
  refine ⟨by rw [hstep], j, Nat.lt_succ_of_lt hj, htrig, ?_, ?_, ?_⟩
  · intro hnew
    -- the run would reach back to an event that is not low, or to `j`
    obtain ⟨hlen, hrun⟩ := hnew.of_succ hcalm
    rcases hstart with heq | hnot
    · omega
    · rw [hrun (n - c - 1) (by omega) (by omega)] at hnot
      exact Bool.noConfusion hnot
  · rw [hstep]
    refine ⟨by dsimp only; omega, by dsimp only; omega, ?_, ?_⟩
    · intro k hk hkn
      by_cases hlast : k = n
      · rw [hlast]
        exact hlow
      · exact hlows k (by dsimp only at hk; omega) (by omega)
    · rcases hstart with heq | hnot
      · exact .inl (by dsimp only; omega)
      · refine .inr ?_
        have hsub : n + 1 - (c + 1) - 1 = n - c - 1 := by omega
        rw [hsub]
        exact hnot
  · intro k hjk hk
    by_cases hlast : k = n + 1
    · rw [hlast, hstep]
    · exact hall k hjk (by omega)

include hlimit in
theorem On.of_not_low (h : On kind limit s es n) (ht : ¬ Trigger kind limit s es n)
    (hlow : kind.low (es n) = false) : On kind limit s es (n + 1) := by
  obtain ⟨hon, j, hj, htrig, hcalm, htrail, hall⟩ := h
  have hstep := step_of_not_trigger ht
  rw [if_pos hon, hlow, if_neg Bool.false_ne_true] at hstep
  refine ⟨by rw [hstep], j, Nat.lt_succ_of_lt hj, htrig, ?_, ?_, ?_⟩
  · intro hnew
    have hrun := (hnew.of_succ hcalm).2 n (by omega) (Nat.le_refl n)
    rw [hlow] at hrun
    exact Bool.noConfusion hrun
  · rw [hstep]
    exact ⟨Nat.lt_succ_of_lt hj, hlimit, fun k hk hkn => absurd hkn (by dsimp only at hk; omega),
      .inr hlow⟩
  · intro k hjk hk
    by_cases hlast : k = n + 1
    · rw [hlast, hstep]
    · exact hall k hjk (by omega)

include hforce in
theorem Off.of_on (h : On kind limit s es n) (ht : ¬ Trigger kind limit s es n)
    (hlow : kind.low (es n) = true) (hcount : limit ≤ (after kind limit s es n).count + 1) :
    Off kind limit s es (n + 1) := by
  obtain ⟨hon, j, hj, htrig, hcalm, htrail, hall⟩ := h
  have hstep := step_of_not_trigger ht
  rw [if_pos hon, if_pos hlow, if_pos hcount] at hstep
  generalize (after kind limit s es n).count = c at htrail hcount
  obtain ⟨hlt, hltl, hlows, _⟩ := htrail
  have hrun : ∀ k, n - c ≤ k → k ≤ n → kind.low (es k) = true := by
    intro k hk hkn
    by_cases hlast : k = n
    · rw [hlast]
      exact hlow
    · exact hlows k hk (by omega)
  refine ⟨by rw [hstep], fun i hi htrig' => ?_⟩
  by_cases hin : n - c ≤ i
  · exfalso
    have hion := hall i (by omega) (by omega)
    rcases htrig' with hf | ⟨hoff, _⟩
    · rw [hforce _ (hrun i hin (by omega))] at hf
      exact Bool.noConfusion hf
    · rw [hion] at hoff
      exact Bool.noConfusion hoff
  · exact ⟨n - c, by omega, by omega, fun k hk hkn => hrun k hk (by omega)⟩

theorem Off.stays (h : Off kind limit s es n) (ht : ¬ Trigger kind limit s es n) :
    Off kind limit s es (n + 1) := by
  have hstep := step_of_not_trigger ht
  rw [if_neg (by rw [h.off]; exact Bool.false_ne_true)] at hstep
  refine ⟨by rw [hstep]; exact h.off, fun j hj htrig => ?_⟩
  by_cases hlast : j = n
  · rw [hlast] at htrig
    exact absurd htrig ht
  · exact (h.calm j (by omega) htrig).mono

include hlimit hforce in
theorem on_or_off (hs : s.on = false) (n : Nat) :
    On kind limit s es n ∨ Off kind limit s es n := by
  induction n with
  | zero => exact .inr ⟨hs, fun j hj => absurd hj (Nat.not_lt_zero j)⟩
  | succ n ih =>
    by_cases ht : Trigger kind limit s es n
    · exact .inl (.of_trigger hlimit ht)
    rcases ih with h | h
    · cases hlow : kind.low (es n) with
      | false => exact .inl (h.of_not_low hlimit ht hlow)
      | true =>
        by_cases hcount : limit ≤ (after kind limit s es n).count + 1
        · exact .inr (.of_on hforce h ht hlow hcount)
        · exact .inl (h.of_low ht hlow hcount)
    · exact .inr (h.stays ht)

include hlimit hforce in
/-- A switch that starts off is on exactly when some trigger was not followed by `limit` low events
in a row. -/
theorem on_iff_trigger (hs : s.on = false) (n : Nat) :
    (after kind limit s es n).on = true ↔
      ∃ j < n, Trigger kind limit s es j ∧ ¬ Calm kind limit es j n := by
  rcases on_or_off hlimit hforce hs n with h | h
  · obtain ⟨j, hj, htrig, hcalm, _⟩ := h.since
    exact ⟨fun _ => ⟨j, hj, htrig, hcalm⟩, fun _ => h.on⟩
  · constructor
    · intro hon
      rw [h.off] at hon
      exact absurd hon Bool.false_ne_true
    · rintro ⟨j, hj, htrig, hcalm⟩
      exact absurd (h.calm j hj htrig) hcalm

end Steps

end Hysteresis
