import OdinLink.Driver.SlotUsers
import OdinLink.Driver.StreamSend
import OdinLink.Lib.Hysteresis
import OdinLink.Proto.Node

/-!
# The mode of a sender

Small messages go out frame by frame from the frame pool, large ones and those of a busy device
through the batch buffers. The choice compares the used part of the frame pool with two watermarks
and has a hysteresis.
-/

namespace OdinLink

def txReserve : Nat := txPoolReserve.toNat

def rxTarget : Nat := framePoolSize / 2

def updateTxWatermarks (ringSize : Nat) (dev : TxDevice) : TxDevice :=
  {dev with
    highWatermark := min (ringSize * 3 / 4) (framePoolSize - txReserve)
    lowWatermark := min (ringSize / 4) ((framePoolSize - txReserve) / 2)}

/-! ## The choice of the mode -/

structure Load where
  len : Nat
  free : Nat
  deriving DecidableEq, Repr

def chooseMode (dev : TxDevice) (l : Load) : TxDevice × TxMode :=
  evaluateTxMode {dev with poolFree := l.free} l.len

def afterLoads (dev : TxDevice) (loads : Nat → Load) : Nat → TxDevice
  | 0 => dev
  | n + 1 => (chooseMode (afterLoads dev loads n) (loads n)).1

namespace TxDevice

def occupancy (dev : TxDevice) (l : Load) : Nat := dev.poolSize - l.free

def loadKind (dev : TxDevice) : Hysteresis.Kind Load where
  force l := throughputThresh < l.len
  above l := dev.highWatermark < dev.occupancy l + Chunks.count streamPayloadMax l.len
  low l := l.len ≤ throughputThresh && dev.occupancy l < dev.lowWatermark

def switch (dev : TxDevice) : Hysteresis.Switch := ⟨dev.mode = .throughput, dev.consecutiveLow⟩

def setSwitch (dev : TxDevice) (free : Nat) (r : Hysteresis.Switch) : TxDevice :=
  {dev with
    poolFree := free
    mode := if r.on then .throughput else .latency
    consecutiveLow := r.count}

end TxDevice

section Choice

variable {dev : TxDevice} {loads : Nat → Load}

/-- Where there are batch buffers, the mode and its counter are a switch with hysteresis: turned on
by a large message or by load, off after four small ones with little load. -/
theorem chooseMode_eq (hpool : dev.batchPool = true) (l : Load) :
    chooseMode dev l =
      (dev.setSwitch l.free (Hysteresis.step dev.loadKind modeHysteresis dev.switch l),
        if (Hysteresis.step dev.loadKind modeHysteresis dev.switch l).on then .throughput
        else .latency) := by
  have hoff : ¬ (!dev.batchPool) = true := by rw [hpool]; decide
  by_cases hlarge : throughputThresh < l.len
  · have hstep : Hysteresis.step dev.loadKind modeHysteresis dev.switch l = ⟨true, 0⟩ := by
      simp [Hysteresis.step, TxDevice.loadKind, hlarge]
    rw [hstep, chooseMode, evaluateTxMode, if_neg hoff, if_pos hlarge]
    rfl
  have hsmall : l.len ≤ throughputThresh := Nat.not_lt.mp hlarge
  rw [chooseMode, evaluateTxMode, if_neg hoff, if_neg hlarge]
  dsimp only
  cases hmode : dev.mode with
  | latency =>
    by_cases hload : dev.highWatermark < dev.occupancy l + Chunks.count streamPayloadMax l.len
    · have hstep : Hysteresis.step dev.loadKind modeHysteresis dev.switch l = ⟨true, 0⟩ := by
        simp [Hysteresis.step, TxDevice.loadKind, TxDevice.switch, hmode, hload]
      rw [hstep]
      exact if_pos hload
    · have hstep : Hysteresis.step dev.loadKind modeHysteresis dev.switch l = dev.switch := by
        simp [Hysteresis.step, TxDevice.loadKind, TxDevice.switch, hmode, hload, hlarge]
      rw [hstep]
      refine (if_neg hload).trans ?_
      simp [TxDevice.setSwitch, TxDevice.switch, hmode]
  | throughput =>
    by_cases hlow : dev.occupancy l < dev.lowWatermark
    · by_cases hcount : modeHysteresis ≤ dev.consecutiveLow + 1
      · have hstep : Hysteresis.step dev.loadKind modeHysteresis dev.switch l = ⟨false, 0⟩ := by
          simp [Hysteresis.step, TxDevice.loadKind, TxDevice.switch, hmode, hlarge, hsmall, hlow,
            hcount]
        rw [hstep]
        refine (if_pos hlow).trans ((if_pos hcount).trans ?_)
        rfl
      · have hstep : Hysteresis.step dev.loadKind modeHysteresis dev.switch l =
            ⟨true, dev.consecutiveLow + 1⟩ := by
          simp [Hysteresis.step, TxDevice.loadKind, TxDevice.switch, hmode, hlarge, hsmall, hlow,
            hcount]
        rw [hstep]
        refine (if_pos hlow).trans ((if_neg hcount).trans ?_)
        simp [TxDevice.setSwitch]
    · have hstep : Hysteresis.step dev.loadKind modeHysteresis dev.switch l = ⟨true, 0⟩ := by
        simp [Hysteresis.step, TxDevice.loadKind, TxDevice.switch, hmode, hlarge, hlow]
      rw [hstep]
      refine (if_neg hlow).trans ?_
      simp [TxDevice.setSwitch]

@[simp] theorem setSwitch_switch (dev : TxDevice) (free : Nat) (r : Hysteresis.Switch) :
    (dev.setSwitch free r).switch = r := by
  obtain ⟨on, count⟩ := r
  cases on <;> rfl

theorem afterLoads_switch (hpool : dev.batchPool = true) (loads : Nat → Load) (n : Nat) :
    (afterLoads dev loads n).batchPool = true ∧
    (afterLoads dev loads n).loadKind = dev.loadKind ∧
    (afterLoads dev loads n).switch =
      Hysteresis.after dev.loadKind modeHysteresis dev.switch loads n := by
  induction n with
  | zero => exact ⟨hpool, rfl, rfl⟩
  | succ n ih =>
    obtain ⟨hbatch, hkind, hswitch⟩ := ih
    rw [afterLoads, chooseMode_eq hbatch]
    refine ⟨hbatch, hkind, ?_⟩
    rw [setSwitch_switch, hkind, hswitch]
    rfl

theorem chooseMode_after (hpool : dev.batchPool = true) (n : Nat) :
    (chooseMode (afterLoads dev loads n) (loads n)).2 = .throughput ↔
      (Hysteresis.after dev.loadKind modeHysteresis dev.switch loads (n + 1)).on = true := by
  obtain ⟨hbatch, hkind, hswitch⟩ := afterLoads_switch hpool loads n
  rw [chooseMode_eq hbatch, hkind, hswitch, Hysteresis.after]
  cases (Hysteresis.step dev.loadKind modeHysteresis
    (Hysteresis.after dev.loadKind modeHysteresis dev.switch loads n) (loads n)).on with
  | false | true => simp

theorem trigger_iff (hpool : dev.batchPool = true) (j : Nat) :
    Hysteresis.Trigger dev.loadKind modeHysteresis dev.switch loads j ↔
      throughputThresh < (loads j).len ∨ (afterLoads dev loads j).mode = .latency ∧
        dev.highWatermark < dev.occupancy (loads j) +
          Chunks.count streamPayloadMax (loads j).len := by
  have hswitch := (afterLoads_switch hpool loads j).2.2
  have hmode : (afterLoads dev loads j).mode = .latency ↔
      (Hysteresis.after dev.loadKind modeHysteresis dev.switch loads j).on = false := by
    rw [← hswitch, TxDevice.switch]
    cases (afterLoads dev loads j).mode <;> simp
  rw [Hysteresis.Trigger, hmode]
  simp [TxDevice.loadKind]

/-- The mode chosen for a send, from the sends up to it: throughput exactly when there was a trigger
that was not followed by four small messages in a row with little load. -/
theorem mode_chosen_iff_trigger (hpool : dev.batchPool = true) (hmode : dev.mode = .latency)
    (loads : Nat → Load) (n : Nat) :
    (chooseMode (afterLoads dev loads n) (loads n)).2 = .throughput ↔
      ∃ j ≤ n,
        (throughputThresh < (loads j).len ∨ (afterLoads dev loads j).mode = .latency ∧
          dev.highWatermark < dev.occupancy (loads j) +
            Chunks.count streamPayloadMax (loads j).len) ∧
        ¬ ∃ i, j < i ∧ i + 3 ≤ n ∧ ∀ k, i ≤ k → k ≤ i + 3 →
          (loads k).len ≤ throughputThresh ∧ dev.occupancy (loads k) < dev.lowWatermark := by
  have hlimit : 0 < modeHysteresis := by decide
  have hforce : ∀ l, dev.loadKind.low l = true → dev.loadKind.force l = false := by
    intro l hl
    simp only [TxDevice.loadKind, Bool.and_eq_true, decide_eq_true_eq] at hl
    simpa [TxDevice.loadKind] using hl.1
  have hoff : dev.switch.on = false := by
    rw [TxDevice.switch, hmode]
    rfl
  have hcalm : ∀ j, Hysteresis.Calm dev.loadKind modeHysteresis loads j (n + 1) ↔
      ∃ i, j < i ∧ i + 3 ≤ n ∧ ∀ k, i ≤ k → k ≤ i + 3 →
        (loads k).len ≤ throughputThresh ∧ dev.occupancy (loads k) < dev.lowWatermark := by
    intro j
    refine exists_congr fun i => and_congr_right fun _ => ?_
    simp only [modeHysteresis, TxDevice.loadKind, Bool.and_eq_true, decide_eq_true_eq]
    refine and_congr (by omega) (forall_congr' fun k => ?_)
    refine forall_congr' fun _ => ?_
    have hlast : k < i + 4 ↔ k ≤ i + 3 := by omega
    rw [hlast]
  rw [chooseMode_after hpool, Hysteresis.on_iff_trigger hlimit hforce hoff]
  refine exists_congr fun j => ?_
  rw [Nat.lt_succ_iff, trigger_iff hpool, hcalm]

theorem large_then_calm :
    let dev : TxDevice := ⟨.ready, true, 4096, 4096, .latency, 0, 3072, 1024⟩
    let loads : Nat → Load := fun n => if n = 0 then ⟨65537, 4096⟩ else ⟨1, 4096⟩
    (chooseMode (afterLoads dev loads 3) (loads 3)).2 = .throughput ∧
    ¬ (chooseMode (afterLoads dev loads 4) (loads 4)).2 = .throughput := by
  intro dev loads
  refine ⟨(mode_chosen_iff_trigger rfl rfl loads 3).mpr ⟨0, by decide, .inl (by decide), ?_⟩,
    by decide⟩
  rintro ⟨i, hi, hin, _⟩
  omega

end Choice

/-! ## The mode of an idle link -/

/-- A device between two sends: the receive frames are posted up to the target, and nothing else is
taken from the frame pool. -/
def TxDevice.idle (ringSize : Nat) (mode : TxMode) (consecutiveLow : Nat) : TxDevice :=
  updateTxWatermarks ringSize
    ⟨.ready, true, framePoolSize, framePoolSize - rxTarget, mode, consecutiveLow, 0, 0⟩

structure SmallSend where
  srcId : UInt8
  dstId : UInt8
  data : List UInt8
  env : SendEnv
  pos : 0 < data.length
  small : data.length ≤ throughputThresh

def afterSends (dev : TxDevice) (sends : Nat → SmallSend) : Nat → TxDevice
  | 0 => dev
  | k + 1 =>
    (streamSend (afterSends dev sends k) (sends k).srcId (sends k).dstId (sends k).data
      (sends k).env).1

section Idle

variable {ringSize : Nat} {low : Nat}

@[simp] theorem idle_mode (mode : TxMode) : (TxDevice.idle ringSize mode low).mode = mode := rfl

theorem SmallSend.accepted (s : SmallSend) :
    ¬ (s.data.length = 0 ∨ streamPayloadMax * streamMaxFrames < s.data.length) := by
  have hpos := s.pos
  have hsmall := s.small
  simp only [throughputThresh, streamPayloadMax, streamMaxFrames] at *
  omega

theorem SmallSend.not_large (s : SmallSend) : ¬ throughputThresh < s.data.length :=
  Nat.not_lt.mpr s.small

theorem SmallSend.frames_bounds (s : SmallSend) :
    1 ≤ Chunks.count streamPayloadMax s.data.length ∧
      Chunks.count streamPayloadMax s.data.length ≤ 17 := by
  have hpos := s.pos
  have hsmall := s.small
  simp only [throughputThresh] at hsmall
  simp only [Chunks.count, streamPayloadMax]
  omega

theorem streamSend_idle (mode : TxMode) (s : SmallSend) :
    (streamSend (.idle ringSize mode low) s.srcId s.dstId s.data s.env).1 =
      (evaluateTxMode (.idle ringSize mode low) s.data.length).1 := by
  have hready : ¬ (TxDevice.idle ringSize mode low).state ≠ .ready := not_not.mpr rfl
  rw [streamSend, if_neg hready, if_neg s.accepted]

theorem evaluate_throughput (s : SmallSend) :
    (evaluateTxMode (.idle ringSize .throughput low) s.data.length).1 =
      .idle ringSize .throughput 0 := by
  have hused : ¬ framePoolSize - (framePoolSize - rxTarget) <
      min (ringSize / 4) ((framePoolSize - txReserve) / 2) := by
    simp only [framePoolSize, rxTarget, txReserve, txPoolReserve]
    omega
  simp only [evaluateTxMode, TxDevice.idle, updateTxWatermarks, Bool.not_true, Bool.false_eq_true,
    if_false, s.not_large, hused]

theorem evaluate_latency_deep (s : SmallSend) (hring : 4096 ≤ ringSize) :
    (evaluateTxMode (.idle ringSize .latency low) s.data.length).1 =
      .idle ringSize .latency low := by
  have hframes := s.frames_bounds
  have hload : ¬ min (ringSize * 3 / 4) (framePoolSize - txReserve) <
      framePoolSize - (framePoolSize - rxTarget) +
        Chunks.count streamPayloadMax s.data.length := by
    simp only [framePoolSize, rxTarget, txReserve, txPoolReserve] at *
    omega
  simp only [evaluateTxMode, TxDevice.idle, updateTxWatermarks, Bool.not_true, Bool.false_eq_true,
    if_false, s.not_large, hload]

/-- With a short ring the receive frames alone are more than the upper watermark. -/
theorem evaluate_latency_short (s : SmallSend) (hring : ringSize ≤ 2048) :
    (evaluateTxMode (.idle ringSize .latency low) s.data.length).1 =
      .idle ringSize .throughput 0 := by
  have hload : min (ringSize * 3 / 4) (framePoolSize - txReserve) <
      framePoolSize - (framePoolSize - rxTarget) +
        Chunks.count streamPayloadMax s.data.length := by
    simp only [framePoolSize, rxTarget, txReserve, txPoolReserve]
    omega
  simp only [evaluateTxMode, TxDevice.idle, updateTxWatermarks, Bool.not_true, Bool.false_eq_true,
    if_false, s.not_large, hload, if_true]

theorem streamSend_large (mode : TxMode) (srcId dstId : UInt8) {data : List UInt8} (env : SendEnv)
    (hlarge : throughputThresh < data.length)
    (haccepted : data.length ≤ streamPayloadMax * streamMaxFrames) :
    (streamSend (.idle ringSize mode low) srcId dstId data env).1 =
      .idle ringSize .throughput 0 := by
  have hready : ¬ (TxDevice.idle ringSize mode low).state ≠ .ready := not_not.mpr rfl
  have hlen : ¬ (data.length = 0 ∨ streamPayloadMax * streamMaxFrames < data.length) := by omega
  rw [streamSend, if_neg hready, if_neg hlen]
  simp only [evaluateTxMode, TxDevice.idle, updateTxWatermarks, Bool.not_true, Bool.false_eq_true,
    if_false, hlarge, if_true]

theorem afterSends_throughput (ringSize low : Nat) (sends : Nat → SmallSend) (k : Nat) :
    ∃ low', afterSends (.idle ringSize .throughput low) sends k =
      .idle ringSize .throughput low' := by
  induction k with
  | zero => exact ⟨low, rfl⟩
  | succ k ih =>
    obtain ⟨low', hk⟩ := ih
    rw [afterSends, hk, streamSend_idle, evaluate_throughput]
    exact ⟨0, rfl⟩

theorem afterSends_latency_deep (hring : 4096 ≤ ringSize) (sends : Nat → SmallSend) (k : Nat) :
    afterSends (.idle ringSize .latency low) sends k = .idle ringSize .latency low := by
  induction k with
  | zero => rfl
  | succ k ih => rw [afterSends, ih, streamSend_idle, evaluate_latency_deep _ hring]

theorem afterSends_latency_short (low : Nat) (hring : ringSize ≤ 2048) (sends : Nat → SmallSend)
    (k : Nat) : ∃ low', afterSends (.idle ringSize .latency low) sends (k + 1) =
      .idle ringSize .throughput low' := by
  induction k with
  | zero =>
    rw [afterSends, afterSends, streamSend_idle, evaluate_latency_short _ hring]
    exact ⟨0, rfl⟩
  | succ k ih =>
    obtain ⟨low', hk⟩ := ih
    rw [afterSends, hk, streamSend_idle, evaluate_throughput]
    exact ⟨0, rfl⟩

theorem ringDepth_short_or_deep (hring : Proto.ringDepthOk ringSize = true) :
    ringSize ≤ 2048 ∨ 4096 ≤ ringSize := by
  obtain ⟨k, _, _, rfl⟩ := Proto.ringDepthOk_iff.mp hring
  rcases Nat.lt_or_ge k 12 with hk | hk
  · exact .inl (Nat.pow_le_pow_right Nat.two_pos (Nat.le_of_lt_succ hk))
  · exact .inr (Nat.pow_le_pow_right Nat.two_pos hk)

/-- An idle link is in latency mode for good after some small sends exactly when it never left that
mode and its ring is deep enough to stay in it. -/
theorem idle_link_latency_iff (hring : Proto.ringDepthOk ringSize = true) (mode : TxMode)
    (low : Nat) (sends : Nat → SmallSend) :
    (∃ n ≤ modeHysteresis, ∀ k, n ≤ k →
      (afterSends (.idle ringSize mode low) sends k).mode = .latency) ↔
    mode = .latency ∧ 4096 ≤ ringSize := by
  constructor
  · rintro ⟨n, _, hall⟩
    have hlater := hall (n + 1) (Nat.le_succ n)
    cases mode with
    | throughput =>
      obtain ⟨low', hk⟩ := afterSends_throughput ringSize low sends (n + 1)
      rw [hk, idle_mode] at hlater
      exact absurd hlater (by decide)
    | latency =>
      refine ⟨rfl, (ringDepth_short_or_deep hring).resolve_left fun hshort => ?_⟩
      obtain ⟨low', hk⟩ := afterSends_latency_short low hshort sends n
      rw [hk, idle_mode] at hlater
      exact absurd hlater (by decide)
  · rintro ⟨rfl, hdeep⟩
    refine ⟨0, Nat.zero_le _, fun k _ => ?_⟩
    rw [afterSends_latency_deep hdeep]
    rfl

end Idle

def SmallSend.byte : SmallSend :=
  ⟨1, 2, [7], ⟨true, [.submitted], [.granted (fun _ => false) (fun _ => false)]⟩, by decide,
    by decide⟩

theorem default_ring_stays_in_latency :
    (∃ n ≤ modeHysteresis, ∀ k, n ≤ k →
      (afterSends (.idle 4096 .latency 0) (fun _ => .byte) k).mode = .latency) ∧
    Proto.ringDepthOk 4096 = true :=
  ⟨(idle_link_latency_iff (by decide) .latency 0 fun _ => .byte).mpr ⟨rfl, Nat.le_refl _⟩,
    by decide⟩

/-- One large message switches a link with the deepest rings to throughput mode, and no number of
small ones brings it back; with rings of 2048 the first small message does the same. -/
theorem idle_link_stays_in_throughput :
    (streamSend (.idle 16384 .latency 0) 1 2 (List.replicate 65537 7) ⟨true, [], []⟩).1 =
      .idle 16384 .throughput 0 ∧
    ¬ (∃ n ≤ modeHysteresis, ∀ k, n ≤ k →
      (afterSends (.idle 16384 .throughput 0) (fun _ => .byte) k).mode = .latency) ∧
    ¬ (∃ n ≤ modeHysteresis, ∀ k, n ≤ k →
      (afterSends (.idle 2048 .latency 0) (fun _ => .byte) k).mode = .latency) := by
  refine ⟨?_, ?_, ?_⟩
  · apply streamSend_large
    · rw [List.length_replicate]
      decide
    · rw [List.length_replicate]
      decide
  · rintro ⟨n, _, hall⟩
    obtain ⟨low', hk⟩ := afterSends_throughput 16384 0 (fun _ => .byte) n
    have hlater := hall n (Nat.le_refl n)
    rw [hk, idle_mode] at hlater
    exact absurd hlater (by decide)
  · rintro ⟨n, _, hall⟩
    obtain ⟨low', hk⟩ := afterSends_latency_short 0 (Nat.le_refl 2048) (fun _ => .byte) n
    have hlater := hall (n + 1) (Nat.le_succ n)
    rw [hk, idle_mode] at hlater
    exact absurd hlater (by decide)

end OdinLink
