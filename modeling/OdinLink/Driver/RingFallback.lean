import OdinLink.Driver.RingResources

/-!
# Falling back to smaller rings

When there is no memory for rings of the configured depth, the probe halves the depth and tries
again, down to the configured minimum.
-/

namespace OdinLink

open Ledger

/-- What `odl_tb5_init` checks of the two parameters. -/
def initAccepts (ringSize fallbackMin : Nat) : Bool :=
  Proto.ringDepthOk ringSize &&
    (fallbackMin == 0 ||
      Proto.isPowerOf2 fallbackMin && Proto.ringSizeMin ≤ fallbackMin && fallbackMin ≤ ringSize)

structure Probed where
  dev : RingDevice
  attempts : List (Nat × Option RingErrno)
  ret : Option RingErrno

namespace RingDevice

def probeRings (fallbackMin : Nat) (dev : RingDevice) (ringTry : Nat) : Probed :=
  let r := dev.allocDepth ringTry
  match r.2 with
  | none => ⟨r.1, [(ringTry, none)], none⟩
  | some e =>
    let dev := r.1.ringsFree
    if h : e ≠ .noMem ∨ fallbackMin = 0 ∨ ringTry ≤ fallbackMin then
      ⟨dev, [(ringTry, some e)], some e⟩
    else
      let rest := dev.probeRings fallbackMin (max (ringTry / 2) fallbackMin)
      ⟨rest.dev, (ringTry, some e) :: rest.attempts, rest.ret⟩
termination_by ringTry
decreasing_by
  rw [not_or, not_or] at h
  omega

section Loop
variable {fallbackMin : Nat} {dev : RingDevice} {a b : Nat}

theorem Sound.tidy (hs : dev.Sound) (hnone : ∀ s, dev.slot s = none) : dev.Tidy := by
  refine ⟨hs, fun s _ h => ?_⟩
  rw [hnone s] at h
  cases h

theorem probeRings_tidy (fallbackMin ringTry : Nat) (hs : dev.Sound)
    (hnone : ∀ s, dev.slot s = none) :
    (dev.probeRings fallbackMin ringTry).dev.Tidy ∧
      ((dev.probeRings fallbackMin ringTry).ret ≠ none →
        ∀ s, (dev.probeRings fallbackMin ringTry).dev.slot s = none) := by
  induction ringTry using Nat.strong_induction_on generalizing dev with
  | h ringTry ih =>
    have hatt := allocDepth_attempted hs hnone ringTry
    unfold probeRings
    dsimp only
    split
    · exact ⟨hatt.tidy, fun hne => absurd rfl hne⟩
    · rename_i e hret
      have hfreed := hatt.freed (by simp [hret])
      split
      · exact ⟨hfreed.1.tidy hfreed.2, fun _ => hfreed.2⟩
      · rename_i hmore
        rw [not_or, not_or] at hmore
        exact ih (max (ringTry / 2) fallbackMin) (by omega) hfreed.1 hfreed.2

structure Fallback (a b : Nat) (p : Probed) : Prop where
  bound : p.attempts.length ≤ a - b + 1
  success : p.ret = none → ∃ j, b ≤ j ∧ j ≤ a ∧ p.dev.ringSize = 2 ^ j ∧
    (∀ s, (p.dev.slot s).isSome = true) ∧ p.attempts.getLast? = some (2 ^ j, none) ∧
    ∀ i, j < i → i ≤ a → (2 ^ i, some .noMem) ∈ p.attempts

theorem depthFor_pow (hlo : 6 ≤ a) (hhi : a ≤ 14) : depthFor (2 ^ a) = 2 ^ a :=
  Proto.roundup_ringDepth (Proto.ringDepthOk_iff.mpr ⟨a, hlo, hhi, rfl⟩)

theorem Attempted.succeeded {r : RingDevice × Option RingErrno} (h : Attempted (2 ^ a) r)
    (hlo : 6 ≤ b) (hab : b ≤ a) (hhi : a ≤ 14) (hret : r.2 = none) :
    Fallback a b ⟨r.1, [(2 ^ a, none)], none⟩ where
  bound := by simp
  success := by
    intro _
    refine ⟨a, hab, Nat.le_refl a, ?_, h.all hret, rfl, by omega⟩
    rw [h.ringSize, depthFor_pow (by omega) hhi]

theorem Fallback.cons {p : Probed} (h : Fallback a b p) (hab : b ≤ a) :
    Fallback (a + 1) b ⟨p.dev, (2 ^ (a + 1), some .noMem) :: p.attempts, p.ret⟩ where
  bound := by
    have hbound := h.bound
    simp only [List.length_cons]
    omega
  success := by
    intro hret
    obtain ⟨j, hbj, hja, hsize, hall, hlast, htried⟩ := h.success hret
    refine ⟨j, hbj, by omega, hsize, hall, ?_, fun i hji hia => ?_⟩
    · rw [List.getLast?_cons, hlast]
      rfl
    · rcases Nat.eq_or_lt_of_le hia with rfl | hlt
      · exact List.mem_cons_self
      · exact List.mem_cons_of_mem _ (htried i hji (by omega))

theorem probeRings_fallback (hb : fallbackMin = 0 ∧ b = a ∨ fallbackMin = 2 ^ b) (hlo : 6 ≤ b)
    (hab : b ≤ a) (hhi : a ≤ 14) (hs : dev.Sound) (hnone : ∀ s, dev.slot s = none) :
    Fallback a b (dev.probeRings fallbackMin (2 ^ a)) := by
  induction a generalizing dev with
  | zero => omega
  | succ a ih =>
    have hatt := allocDepth_attempted hs hnone (2 ^ (a + 1))
    unfold probeRings
    dsimp only
    split
    · rename_i hret
      exact hatt.succeeded hlo hab hhi hret
    · rename_i e hret
      split
      · exact ⟨by simp, by simp⟩
      · rename_i hmore
        rw [not_or, not_or] at hmore
        obtain ⟨he, hzero, hdeep⟩ := hmore
        obtain rfl : e = .noMem := not_not.mp he
        have hmin : fallbackMin = 2 ^ b := hb.resolve_left fun h => hzero h.1
        subst hmin
        have hba : b ≤ a := by
          have hlt : 2 ^ b < 2 ^ (a + 1) := Nat.not_le.mp hdeep
          have := (Nat.pow_lt_pow_iff_right Nat.one_lt_two).mp hlt
          omega
        have hhalf : max (2 ^ (a + 1) / 2) (2 ^ b) = 2 ^ a := by
          rw [Nat.pow_succ, Nat.mul_div_cancel _ Nat.two_pos]
          exact Nat.max_eq_left (Nat.pow_le_pow_right Nat.two_pos hba)
        have hfreed := hatt.freed (by simp [hret])
        rw [hhalf]
        exact (ih (.inr rfl) hba (by omega) hfreed.1 hfreed.2).cons hba

end Loop

end RingDevice

theorem initAccepts_pow {ringSize fallbackMin : Nat}
    (h : initAccepts ringSize fallbackMin = true) : ∃ a, 6 ≤ a ∧ a ≤ 14 ∧ ringSize = 2 ^ a ∧
      (fallbackMin = 0 ∨ ∃ b, 6 ≤ b ∧ b ≤ a ∧ fallbackMin = 2 ^ b) := by
  simp only [initAccepts, Bool.and_eq_true, Bool.or_eq_true, beq_iff_eq, decide_eq_true_eq] at h
  obtain ⟨hring, hmin⟩ := h
  obtain ⟨a, hlo, hhi, rfl⟩ := Proto.ringDepthOk_iff.mp hring
  refine ⟨a, hlo, hhi, rfl, hmin.imp_right ?_⟩
  rintro ⟨⟨hpow, hge⟩, hle⟩
  have hdepth : Proto.ringDepthOk fallbackMin = true := by
    have hmax : 2 ^ a ≤ Proto.ringSizeMax := Nat.pow_le_pow_right Nat.two_pos hhi
    simp [Proto.ringDepthOk, hpow, hge, Nat.le_trans hle hmax]
  obtain ⟨b, hb, -, rfl⟩ := Proto.ringDepthOk_iff.mp hdepth
  exact ⟨b, hb, (Nat.pow_le_pow_iff_right Nat.one_lt_two).mp hle, rfl⟩

/-- The loop as the probe enters it. With fallback switched off the one attempt is at the configured
depth. -/
theorem RingDevice.probeRings_of_init (fails : Nat → Option RingErrno)
    {ringSize fallbackMin : Nat} (h : initAccepts ringSize fallbackMin = true) :
    ∃ a b, ringSize = 2 ^ a ∧ (fallbackMin = 0 ∧ b = a ∨ fallbackMin = 2 ^ b) ∧ b ≤ a ∧
      Fallback a b ((fresh fails).probeRings fallbackMin ringSize) := by
  obtain ⟨a, hlo, hhi, rfl, hmin⟩ := initAccepts_pow h
  obtain ⟨b, hb, hlb, hba⟩ :
      ∃ b, (fallbackMin = 0 ∧ b = a ∨ fallbackMin = 2 ^ b) ∧ 6 ≤ b ∧ b ≤ a := by
    rcases hmin with h0 | ⟨b, hlb, hba, h⟩
    · exact ⟨a, .inl ⟨h0, rfl⟩, hlo, Nat.le_refl a⟩
    · exact ⟨b, .inr h, hlb, hba⟩
  exact ⟨a, b, rfl, hb, hba, probeRings_fallback hb hlb hba hhi (fresh_sound fails) fun _ => rfl⟩

/-- For every pattern of failing calls, the probe makes at most one attempt for each halving from
the configured depth down to the minimum. If it succeeds, it has rings of a depth in between and all
buffers, and every larger depth was tried and failed for lack of memory. If it gives up, everything
it ever obtained is released. -/
theorem ring_fallback_picks_largest (ringSize fallbackMin : Nat)
    (fails : Nat → Option RingErrno) (hinit : initAccepts ringSize fallbackMin = true) :
    let p := (RingDevice.fresh fails).probeRings fallbackMin ringSize
    p.attempts.length ≤
        (if fallbackMin = 0 then 1 else Nat.log2 (ringSize / fallbackMin) + 1) ∧
      (p.ret = none → ∃ depth, p.dev.ringSize = depth ∧ Nat.isPowerOfTwo depth ∧
        fallbackMin ≤ depth ∧ depth ≤ ringSize ∧ (∀ s, (p.dev.slot s).isSome = true) ∧
        p.attempts.getLast? = some (depth, none) ∧
        ∀ i, depth < ringSize / 2 ^ i → (ringSize / 2 ^ i, some .noMem) ∈ p.attempts) ∧
      (p.ret ≠ none → (∀ s, p.dev.slot s = none) ∧
        ∀ x ∈ obtained p.dev.log, (released p.dev.log).count x = 1) := by
  intro p
  obtain ⟨a, b, rfl, hb, hba, hp⟩ := RingDevice.probeRings_of_init fails hinit
  obtain ⟨htidy, hfree⟩ := RingDevice.probeRings_tidy fallbackMin (2 ^ a)
    (RingDevice.fresh_sound fails) fun _ => rfl
  refine ⟨Nat.le_trans hp.bound ?_, fun hret => ?_, fun hret => ?_⟩
  · rcases hb with ⟨h0, rfl⟩ | h
    · simp [h0]
    · rw [if_neg (by rw [h]; exact Nat.ne_of_gt (Nat.two_pow_pos b)), h,
        Nat.pow_div hba Nat.two_pos, Nat.log2_two_pow]
  · obtain ⟨j, hbj, hja, hsize, hall, hlast, htried⟩ := hp.success hret
    refine ⟨2 ^ j, hsize, ⟨j, rfl⟩, ?_, Nat.pow_le_pow_right Nat.two_pos hja, hall, hlast, ?_⟩
    · rcases hb with ⟨h0, -⟩ | h
      · omega
      · rw [h]
        exact Nat.pow_le_pow_right Nat.two_pos hbj
    · intro i hi
      have hia : i ≤ a := by
        by_contra hlt
        rw [Nat.div_eq_of_lt (Nat.pow_lt_pow_right Nat.one_lt_two (Nat.not_le.mp hlt))] at hi
        omega
      rw [Nat.pow_div hia Nat.two_pos] at hi ⊢
      exact htried (a - i) ((Nat.pow_lt_pow_iff_right Nat.one_lt_two).mp hi) (Nat.sub_le a i)
  · refine ⟨hfree hret, fun x hx => ?_⟩
    apply htidy.sound.holds.count_released _ hx
    intro s
    rw [RingDevice.held, hfree hret s]
    rfl

def lowMemory (i : Nat) : Option RingErrno := if i = 5 ∨ i = 12 then some .noMem else none

theorem ring_fallback_picks_largest_default :
    let p := (RingDevice.fresh lowMemory).probeRings 512 4096
    p.attempts = [(4096, some .noMem), (2048, some .noMem), (1024, none)] ∧ p.ret = none ∧
      p.attempts.length ≤ 4 ∧ ∃ depth, p.dev.ringSize = depth ∧ Nat.isPowerOfTwo depth ∧
        512 ≤ depth ∧ depth ≤ 4096 := by
  intro p
  have hret : p.ret = none := by decide +kernel
  obtain ⟨hbound, hsucc, -⟩ := ring_fallback_picks_largest 4096 512 lowMemory (by decide)
  obtain ⟨depth, hsize, hpow, hlo, hhi, -⟩ := hsucc hret
  exact ⟨by decide +kernel, hret, hbound, depth, hsize, hpow, hlo, hhi⟩

end OdinLink
