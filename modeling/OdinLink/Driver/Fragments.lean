import OdinLink.Driver.StreamSend

/-!
# Both send loops cut a message the same way

Whatever a send meets, the frames it emits are the leading frames of one list that depends
only on the message, and all of them exactly when the send succeeds.
-/

namespace OdinLink

theorem streamPayloadMax_pos : 0 < streamPayloadMax := by decide

def frameCount (data : List UInt8) : Nat := Chunks.count streamPayloadMax data.length

def fragFrame (srcId dstId : UInt8) (data : List UInt8) (k : Nat) : TxFrame :=
  buildFrame srcId dstId (UInt16.ofNat k) (k == 0) (k + 1 == frameCount data)
    (Chunks.piece streamPayloadMax data k)

def fragments (srcId dstId : UInt8) (data : List UInt8) : List TxFrame :=
  (List.range (frameCount data)).map (fragFrame srcId dstId data)

def framesBetween (srcId dstId : UInt8) (data : List UInt8) (k n : Nat) : List TxFrame :=
  (List.range' k (n - k)).map (fragFrame srcId dstId data)

section Loops
variable (srcId dstId : UInt8) (data : List UInt8)
variable {fragIdx : UInt16} {k batchPayload : Nat} {sent : Nat}

theorem framesBetween_self (k : Nat) : framesBetween srcId dstId data k k = [] := by
  simp [framesBetween]

theorem framesBetween_cons {k n : Nat} (h : k < n) :
    framesBetween srcId dstId data k n =
      fragFrame srcId dstId data k :: framesBetween srcId dstId data (k + 1) n := by
  obtain ⟨m, hm⟩ : ∃ m, n - k = m + 1 := ⟨n - k - 1, by omega⟩
  have hm' : n - (k + 1) = m := by omega
  rw [framesBetween, framesBetween, hm, hm', List.range'_succ, List.map_cons]

theorem framesBetween_append {k m n : Nat} (h1 : k ≤ m) (h2 : m ≤ n) :
    framesBetween srcId dstId data k m ++ framesBetween srcId dstId data m n =
      framesBetween srcId dstId data k n := by
  rw [framesBetween, framesBetween, framesBetween, ← List.map_append]
  have hr := @List.range'_append k (m - k) (n - m) 1
  rw [Nat.one_mul, Nat.add_sub_cancel' h1] at hr
  rw [hr, show m - k + (n - m) = n - k by omega]

theorem framesBetween_zero {n : Nat} (h : n ≤ frameCount data) :
    framesBetween srcId dstId data 0 n = (fragments srcId dstId data).take n := by
  rw [fragments, ← List.map_take, List.take_range, Nat.min_eq_left h, framesBetween, Nat.sub_zero,
    List.range_eq_range']

def Emits (k : Nat) (r : List TxFrame × SendEnd) : Prop :=
  ∃ n, k ≤ n ∧ n ≤ frameCount data ∧ r.1 = framesBetween srcId dstId data k n ∧
    (r.2 = .ok ↔ n = frameCount data)

theorem emits_stop {k : Nat} (hk : k < frameCount data) {e : SendEnd} (he : e ≠ .ok) :
    Emits srcId dstId data k ([], e) :=
  ⟨k, Nat.le_refl k, Nat.le_of_lt hk, (framesBetween_self ..).symm,
    ⟨fun h => absurd h he, fun h => absurd h (Nat.ne_of_lt hk)⟩⟩

theorem emits_done : Emits srcId dstId data (frameCount data) ([], .ok) :=
  ⟨_, Nat.le_refl _, Nat.le_refl _, (framesBetween_self ..).symm, ⟨fun _ => rfl, fun _ => rfl⟩⟩

theorem emits_append {k m : Nat} (hk : k ≤ m) {r : List TxFrame × SendEnd}
    (h : Emits srcId dstId data m r) :
    Emits srcId dstId data k (framesBetween srcId dstId data k m ++ r.1, r.2) := by
  obtain ⟨n, h1, h2, h3, h4⟩ := h
  exact ⟨n, Nat.le_trans hk h1, h2, by rw [h3, framesBetween_append _ _ _ hk h1], h4⟩

structure Position (sent : Nat) (fragIdx : UInt16) (k : Nat) : Prop where
  le : k ≤ frameCount data
  sent_eq : sent = min (k * streamPayloadMax) data.length
  idx_eq : fragIdx = UInt16.ofNat k

theorem position_start : Position data 0 0 0 := ⟨Nat.zero_le _, by simp, rfl⟩

variable {data} in
theorem Position.lt_iff {k : Nat} (h : Position data sent fragIdx k) :
    sent < data.length ↔ k < frameCount data := by
  rw [h.sent_eq, frameCount, Chunks.lt_count_iff streamPayloadMax_pos]
  omega

variable {data} in
theorem Position.sent_eq_mul {k : Nat}
    (h : Position data sent fragIdx k) (hk : k < frameCount data) : sent = k * streamPayloadMax := by
  have := (Chunks.lt_count_iff streamPayloadMax_pos).mp hk
  rw [h.sent_eq]
  omega

variable {data} in
theorem Position.take_eq {k : Nat} (h : Position data sent fragIdx k) (hk : k < frameCount data) :
    (data.drop sent).take streamPayloadMax = Chunks.piece streamPayloadMax data k := by
  rw [h.sent_eq_mul hk, Chunks.piece]

variable {data} in
theorem Position.eq_count {k : Nat}
    (h : Position data sent fragIdx k) (hs : ¬ sent < data.length) : k = frameCount data := by
  have := h.le
  have := mt h.lt_iff.mpr hs
  omega

variable {data} in
theorem Position.next {k : Nat} (h : Position data sent fragIdx k) (hk : k < frameCount data) :
    Position data (sent + (Chunks.piece streamPayloadMax data k).length) (fragIdx + 1) (k + 1) := by
  have hlt := (Chunks.lt_count_iff streamPayloadMax_pos).mp hk
  refine ⟨hk, ?_, ?_⟩
  · rw [h.sent_eq_mul hk, Chunks.piece_length, Nat.add_mul]
    omega
  · rw [h.idx_eq]
    simp

theorem buildFrame_eq {k sent : Nat} {first : Bool} (hk : k < frameCount data)
    (hsent : sent = k * streamPayloadMax) (hfirst : first = (k == 0)) :
    buildFrame srcId dstId (UInt16.ofNat k) first
        (sent + (Chunks.piece streamPayloadMax data k).length == data.length)
        (Chunks.piece streamPayloadMax data k) = fragFrame srcId dstId data k := by
  have hlast : (sent + (Chunks.piece streamPayloadMax data k).length == data.length) =
      (k + 1 == frameCount data) := by
    rw [hsent, Chunks.piece_length, Bool.eq_iff_iff, beq_iff_eq, beq_iff_eq, frameCount]
    exact (Chunks.succ_eq_count_iff streamPayloadMax_pos hk).symm
  rw [hfirst, hlast, fragFrame]

theorem latencyLoop_emits (os : List FrameOutcome) {k : Nat} (h : Position data sent fragIdx k) :
    Emits srcId dstId data k (latencyLoop srcId dstId data os sent fragIdx) := by
  induction os generalizing sent fragIdx k with
  | nil =>
    by_cases hs : sent < data.length
    · simp only [latencyLoop, hs, if_true]
      exact emits_stop _ _ _ (h.lt_iff.mp hs) (by simp)
    · simp only [latencyLoop, hs, if_false]
      rw [h.eq_count hs]
      exact emits_done _ _ _
  | cons o os ih =>
    by_cases hs : sent < data.length
    · have hk := h.lt_iff.mp hs
      simp only [latencyLoop, hs, if_true]
      cases o with
      | waitFailed ret => exact emits_stop _ _ _ hk (by simp)
      | noSlot => exact ih h
      | copyFault | ringRefused => exact emits_stop _ _ _ hk (by simp)
      | submitted =>
        have hnext := ih (h.next hk)
        have happ := emits_append srcId dstId data (Nat.le_succ k) hnext
        rw [framesBetween_cons _ _ _ (Nat.lt_succ_self k), framesBetween_self] at happ
        have hfirst : (sent == 0) = (k == 0) := by
          rw [h.sent_eq_mul hk, Bool.eq_iff_iff]
          simp [Nat.ne_of_gt streamPayloadMax_pos]
        simp only [h.take_eq hk]
        rw [h.idx_eq] at happ ⊢
        rw [buildFrame_eq srcId dstId data hk (h.sent_eq_mul hk) hfirst]
        exact happ
    · simp only [latencyLoop, hs, if_false]
      rw [h.eq_count hs]
      exact emits_done _ _ _

theorem latencyLoop_submitted (c : Nat) {k : Nat}
    (h : Position data sent fragIdx k) (hc : k + c ≤ frameCount data) :
    (latencyLoop srcId dstId data (List.replicate c .submitted ++ [.waitFailed 0]) sent
      fragIdx).1.length = c := by
  induction c generalizing sent fragIdx k with
  | zero =>
    simp only [List.replicate_zero, List.nil_append, latencyLoop]
    split <;> rfl
  | succ c ih =>
    have hk : k < frameCount data := by omega
    simp only [List.replicate_succ, List.cons_append, latencyLoop, h.lt_iff.mpr hk, if_true,
      List.length_cons, h.take_eq hk]
    rw [ih (h.next hk) (by omega)]

structure Batch (k batchPayload : Nat) : Prop where
  lt : k < frameCount data
  eq : batchPayload = min (data.length - k * streamPayloadMax) (batchFrames * streamPayloadMax)

variable {data} in
theorem Batch.piece_eq {k batchPayload i : Nat} (h : Batch data k batchPayload)
    (hi : i < Chunks.count streamPayloadMax batchPayload) :
    (data.drop (k * streamPayloadMax + i * streamPayloadMax)).take
        (min (batchPayload - i * streamPayloadMax) streamPayloadMax) =
      Chunks.piece streamPayloadMax data (k + i) := by
  rw [Chunks.piece, Nat.add_mul]
  have hlt := (Chunks.lt_count_iff streamPayloadMax_pos).mp hi
  have heq := h.eq
  by_cases hfull : streamPayloadMax ≤ batchPayload - i * streamPayloadMax
  · rw [Nat.min_eq_right hfull]
  · -- a short piece can only stand at the end of the message
    rw [List.take_eq_take_iff, List.length_drop]
    simp only [batchFrames, streamPayloadMax] at *
    omega

variable {data} in
theorem Batch.start_lt (h : Batch data k batchPayload) :
    k * streamPayloadMax < data.length := (Chunks.lt_count_iff streamPayloadMax_pos).mp h.lt

variable {data} in
theorem Batch.count_le (h : Batch data k batchPayload) :
    k + Chunks.count streamPayloadMax batchPayload ≤ frameCount data := by
  have hle : batchPayload ≤ data.length - k * streamPayloadMax := by
    rw [h.eq]
    exact Nat.min_le_left _ _
  rw [frameCount, ← Chunks.count_sub streamPayloadMax_pos (Nat.le_of_lt h.start_lt)]
  exact Nat.add_le_add_left (Chunks.count_mono hle) k

variable {data} in
theorem Batch.next (h : Batch data k batchPayload) :
    Position data (k * streamPayloadMax + batchPayload)
      (UInt16.ofNat k + UInt16.ofNat (Chunks.count streamPayloadMax batchPayload))
      (k + Chunks.count streamPayloadMax batchPayload) := by
  refine ⟨h.count_le, ?_, by simp⟩
  have hlt := h.start_lt
  have heq := h.eq
  rcases Nat.le_total (data.length - k * streamPayloadMax) (batchFrames * streamPayloadMax)
    with hle | hle
  · rw [Nat.min_eq_left hle] at heq
    have hcov := Chunks.le_count_mul streamPayloadMax_pos batchPayload
    rw [Nat.add_mul]
    omega
  · rw [Nat.min_eq_right hle] at heq
    rw [heq, Chunks.count_mul streamPayloadMax_pos, Nat.add_mul]
    omega

theorem fillBatch_eq (h : Batch data k batchPayload) (copyFault : Nat → Bool) (n i : Nat)
    (hn : i + n = Chunks.count streamPayloadMax batchPayload) {frames : List TxFrame}
    (hf : fillBatch srcId dstId data (k * streamPayloadMax) batchPayload copyFault
      (UInt16.ofNat (k + i)) i n = some frames) :
    frames = framesBetween srcId dstId data (k + i) (k + i + n) := by
  induction n generalizing i frames with
  | zero =>
    simp only [fillBatch, Option.some.injEq] at hf
    rw [← hf, Nat.add_zero, framesBetween_self]
  | succ n ih =>
    have hi : i < Chunks.count streamPayloadMax batchPayload := by omega
    simp only [fillBatch, h.piece_eq hi] at hf
    split at hf
    · cases hf
    · obtain ⟨rest, hrest, rfl⟩ := Option.map_eq_some_iff.mp hf
      have hidx : UInt16.ofNat (k + i) + 1 = UInt16.ofNat (k + (i + 1)) := by
        rw [← Nat.add_assoc, UInt16.ofNat_add (k + i) 1]
        rfl
      have hk : k + i < frameCount data := by
        have := h.count_le
        omega
      have hfirst : (k * streamPayloadMax == 0 && i == 0) = (k + i == 0) := by
        rw [Bool.eq_iff_iff]
        simp [Nat.ne_of_gt streamPayloadMax_pos]
      rw [hidx] at hrest
      rw [ih (i + 1) (by omega) hrest,
        buildFrame_eq srcId dstId data hk (Nat.add_mul k i _).symm hfirst,
        framesBetween_cons _ _ _ (show k + i < k + i + (n + 1) by omega)]
      simp only [Nat.add_assoc, Nat.add_comm 1 n]

theorem submitBatch_eq (ringRefused : Nat → Bool) (i : Nat) (fs : List TxFrame) :
    ∃ m, m ≤ fs.length ∧ (submitBatch ringRefused i fs).1 = fs.take m ∧
      ((submitBatch ringRefused i fs).2 = true ↔ m = fs.length) := by
  induction fs generalizing i with
  | nil => exact ⟨0, Nat.le_refl _, rfl, by simp [submitBatch]⟩
  | cons f fs ih =>
    by_cases hr : ringRefused i
    · exact ⟨0, Nat.zero_le _, by simp [submitBatch, hr], by simp [submitBatch, hr]⟩
    · obtain ⟨m, h1, h2, h3⟩ := ih (i + 1)
      exact ⟨m + 1, Nat.succ_le_succ h1, by simp [submitBatch, hr, h2],
        by simp [submitBatch, hr, h3]⟩

theorem framesBetween_take {k n m : Nat} (h : m ≤ n) :
    (framesBetween srcId dstId data k (k + n)).take m =
      framesBetween srcId dstId data k (k + m) := by
  have hlen : (framesBetween srcId dstId data k (k + m)).length = m := by simp [framesBetween]
  rw [← framesBetween_append srcId dstId data (Nat.le_add_right k m) (Nat.add_le_add_left h k)]
  exact List.take_left' hlen

theorem throughputLoop_emits (os : List BatchOutcome) {totalSent : Nat} {k : Nat}
    (h : Position data totalSent fragIdx k) :
    Emits srcId dstId data k (throughputLoop srcId dstId data os totalSent fragIdx) := by
  induction os generalizing totalSent fragIdx k with
  | nil =>
    by_cases hs : totalSent < data.length
    · simp only [throughputLoop, hs, if_true]
      exact emits_stop _ _ _ (h.lt_iff.mp hs) (by simp)
    · simp only [throughputLoop, hs, if_false]
      rw [h.eq_count hs]
      exact emits_done _ _ _
  | cons o os ih =>
    by_cases hs : totalSent < data.length
    · have hk := h.lt_iff.mp hs
      simp only [throughputLoop, hs, if_true]
      cases o with
      | waitFailed ret => exact emits_stop _ _ _ hk (by simp)
      | noBuf => exact ih h
      | granted copyFault ringRefused =>
        have hb : Batch data k (min (data.length - totalSent) (batchFrames * streamPayloadMax)) :=
          ⟨hk, by rw [h.sent_eq_mul hk]⟩
        generalize min (data.length - totalSent) (batchFrames * streamPayloadMax) = batchPayload
          at hb ⊢
        rw [h.sent_eq_mul hk, h.idx_eq]
        dsimp only
        split
        -- a copy that faults takes the whole batch with it
        · exact emits_stop _ _ _ hk (by simp)
        · rename_i frames hfill
          have hframes := fillBatch_eq srcId dstId data hb copyFault _ 0 (Nat.zero_add _) hfill
          rw [Nat.add_zero] at hframes
          obtain ⟨m, hm, hsub, hall⟩ := submitBatch_eq ringRefused 0 frames
          have hlen : frames.length = Chunks.count streamPayloadMax batchPayload := by
            simp [hframes, framesBetween]
          rw [hlen] at hm hall
          subst hframes
          rw [hsub, framesBetween_take _ _ _ hm]
          split
          · rename_i hok
            rw [hall.mp hok]
            exact emits_append srcId dstId data (Nat.le_add_right _ _) (ih hb.next)
          -- the ring refused a frame, and those before it are on their way
          · rename_i hok
            have hlt : k + m < frameCount data := by
              have hne := mt hall.mpr hok
              have := hb.count_le
              omega
            have := emits_append srcId dstId data (Nat.le_add_right k m)
              (emits_stop srcId dstId data hlt (e := .failed (-eIo)) (by simp))
            simpa using this
    · simp only [throughputLoop, hs, if_false]
      rw [h.eq_count hs]
      exact emits_done _ _ _

end Loops

theorem streamSendIn_emits (mode : TxMode) (srcId dstId : UInt8) (data : List UInt8)
    (env : SendEnv) (hd : 0 < data.length) :
    ∃ n, n ≤ frameCount data ∧
      (streamSendIn mode srcId dstId data env).1 = (fragments srcId dstId data).take n ∧
      ((streamSendIn mode srcId dstId data env).2 = .ok ↔ n = frameCount data) := by
  have hpos : 0 < frameCount data := Chunks.count_pos streamPayloadMax_pos hd
  have hemits : Emits srcId dstId data 0 (streamSendIn mode srcId dstId data env) := by
    cases mode with
    | latency =>
      simp only [streamSendIn, streamSendLatency]
      split
      · exact latencyLoop_emits _ _ _ _ (position_start data)
      · exact emits_stop _ _ _ hpos (by simp)
    | throughput =>
      simp only [streamSendIn, streamSendThroughput]
      split
      · exact throughputLoop_emits _ _ _ _ (position_start data)
      · exact emits_stop _ _ _ hpos (by simp)
  obtain ⟨n, _, hn, hframes, hok⟩ := hemits
  exact ⟨n, hn, by rw [hframes, framesBetween_zero _ _ _ hn], hok⟩

end OdinLink
