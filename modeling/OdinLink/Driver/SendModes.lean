import OdinLink.Driver.Fragments

/-!
# The two send modes agree

A send that nothing disturbs goes on until all of its message is submitted. So both modes submit the
same frames.
-/

namespace OdinLink

namespace FrameOutcome

def smooth : FrameOutcome → Bool
  | noSlot | submitted => true
  | waitFailed _ | copyFault | ringRefused => false

def sends : FrameOutcome → Bool
  | submitted => true
  | _ => false

end FrameOutcome

namespace BatchOutcome

def Smooth : BatchOutcome → Prop
  | noBuf => True
  | granted copyFault ringRefused => (∀ i, copyFault i = false) ∧ ∀ i, ringRefused i = false
  | waitFailed _ => False

def sends : BatchOutcome → Bool
  | granted _ _ => true
  | _ => false

end BatchOutcome

/-- No wait times out, no copy and no submission fails, and the pools are not without a slot or a
buffer for ever: there are rounds enough for `n` frames. -/
structure SendEnv.Undisturbed (env : SendEnv) (n : Nat) : Prop where
  msgAlloc : env.msgAlloc = true
  frames : ∀ o ∈ env.frames, o.smooth = true
  batches : ∀ o ∈ env.batches, o.Smooth
  enough_frames : n ≤ env.frames.countP FrameOutcome.sends
  enough_batches : n ≤ batchFrames * env.batches.countP BatchOutcome.sends

section Loops
variable (srcId dstId : UInt8) (data : List UInt8)

theorem latencyLoop_ends {P : SendEnd → Prop} (hdone : P .ok) (os : List FrameOutcome)
    (hfail : (∀ e, P (.failed e)) ∨ ∀ o ∈ os, o.smooth = true) {sent : Nat} {fragIdx : UInt16}
    {k : Nat} (h : Position data sent fragIdx k)
    (henough : frameCount data ≤ k + os.countP (· ≠ .noSlot)) :
    P (latencyLoop srcId dstId data os sent fragIdx).2 := by
  induction os generalizing sent fragIdx k with
  | nil =>
    have hs : ¬ sent < data.length := by
      intro hs
      have hk := h.lt_iff.mp hs
      rw [List.countP_nil] at henough
      omega
    simpa only [latencyLoop, hs, if_false]
  | cons o os ih =>
    have hrest := hfail.imp_right fun hos o ho => hos o (List.mem_cons_of_mem _ ho)
    by_cases hs : sent < data.length
    · have hk := h.lt_iff.mp hs
      simp only [latencyLoop, hs, if_true]
      rw [List.countP_cons] at henough
      cases o with
      | waitFailed ret | copyFault | ringRefused =>
        rcases hfail with hfail | hos
        · exact hfail _
        · exact absurd (hos _ List.mem_cons_self) (by simp [FrameOutcome.smooth])
      | noSlot => exact ih hrest h (by simpa using henough)
      | submitted =>
        simp only [h.take_eq hk]
        refine ih hrest (h.next hk) ?_
        rw [if_pos (by decide)] at henough
        omega
    · simpa only [latencyLoop, hs, if_false]

theorem fillBatch_isSome {copyFault : Nat → Bool} (hc : ∀ i, copyFault i = false)
    (totalSent batchPayload : Nat) (fragIdx : UInt16) (i n : Nat) :
    (fillBatch srcId dstId data totalSent batchPayload copyFault fragIdx i n).isSome = true := by
  induction n generalizing fragIdx i with
  | zero => rfl
  | succ n ih => simp [fillBatch, hc, ih]

theorem submitBatch_ok {ringRefused : Nat → Bool} (hr : ∀ i, ringRefused i = false) (i : Nat)
    (fs : List TxFrame) : submitBatch ringRefused i fs = (fs, true) := by
  induction fs generalizing i with
  | nil => rfl
  | cons f fs ih => simp [submitBatch, hr, ih]

variable {data} in
theorem Batch.count_cases {k batchPayload : Nat} (h : Batch data k batchPayload) :
    k + Chunks.count streamPayloadMax batchPayload = frameCount data ∨
      Chunks.count streamPayloadMax batchPayload = batchFrames := by
  have heq := h.eq
  rcases Nat.le_total (data.length - k * streamPayloadMax) (batchFrames * streamPayloadMax)
    with hle | hle
  · rw [Nat.min_eq_left hle] at heq
    left
    rw [heq]
    exact Chunks.count_sub streamPayloadMax_pos (Nat.le_of_lt h.start_lt)
  · rw [Nat.min_eq_right hle] at heq
    right
    rw [heq]
    exact Chunks.count_mul streamPayloadMax_pos batchFrames

theorem throughputLoop_ends {P : SendEnd → Prop} (hdone : P .ok) (os : List BatchOutcome)
    (hfail : (∀ e, P (.failed e)) ∨ ∀ o ∈ os, o.Smooth) {totalSent : Nat} {fragIdx : UInt16}
    {k : Nat} (h : Position data totalSent fragIdx k)
    (henough : frameCount data ≤ k + batchFrames * os.countP BatchOutcome.sends) :
    P (throughputLoop srcId dstId data os totalSent fragIdx).2 := by
  induction os generalizing totalSent fragIdx k with
  | nil =>
    have hs : ¬ totalSent < data.length := by
      intro hs
      have hk := h.lt_iff.mp hs
      rw [List.countP_nil] at henough
      omega
    simpa only [throughputLoop, hs, if_false]
  | cons o os ih =>
    have hrest := hfail.imp_right fun hos o ho => hos o (List.mem_cons_of_mem _ ho)
    have hfirst := hfail.imp_right fun hos => hos o List.mem_cons_self
    by_cases hs : totalSent < data.length
    · have hk := h.lt_iff.mp hs
      simp only [throughputLoop, hs, if_true]
      rw [List.countP_cons] at henough
      cases o with
      | waitFailed ret => exact hfirst.elim (fun hfail => hfail _) False.elim
      | noBuf =>
        simp only [BatchOutcome.sends] at henough
        exact ih hrest h henough
      | granted copyFault ringRefused =>
        simp only [BatchOutcome.sends, if_true] at henough
        have hb : Batch data k (min (data.length - totalSent) (batchFrames * streamPayloadMax)) :=
          ⟨hk, by rw [h.sent_eq_mul hk]⟩
        generalize min (data.length - totalSent) (batchFrames * streamPayloadMax) = batchPayload
          at hb ⊢
        rw [h.sent_eq_mul hk, h.idx_eq]
        dsimp only
        split
        · next hfill =>
          refine hfirst.elim (fun hfail => hfail _) fun ho => ?_
          exact absurd hfill (Option.isSome_iff_ne_none.mp (fillBatch_isSome _ _ _ ho.1 ..))
        split
        · refine ih hrest hb.next ?_
          -- a full batch takes one round, and after the last one nothing is left
          rcases hb.count_cases with hlast | hfull
          · omega
          · rw [hfull]
            rw [Nat.mul_succ] at henough
            omega
        · next hsub =>
          refine hfirst.elim (fun hfail => hfail _) fun ho => ?_
          exact absurd (congrArg Prod.snd (submitBatch_ok ho.2 ..)) hsub
    · simpa only [throughputLoop, hs, if_false]

end Loops

theorem streamSendIn_undisturbed (mode : TxMode) (srcId dstId : UInt8) {data : List UInt8}
    (hd : 0 < data.length) {env : SendEnv} (henv : env.Undisturbed (frameCount data)) :
    streamSendIn mode srcId dstId data env = (fragments srcId dstId data, .ok) := by
  have hok : (streamSendIn mode srcId dstId data env).2 = .ok := by
    cases mode with
    | latency =>
      simp only [streamSendIn, streamSendLatency, henv.msgAlloc, if_true]
      refine latencyLoop_ends srcId dstId data (P := (· = .ok)) rfl env.frames (.inr henv.frames)
        (position_start data) ?_
      have henough := henv.enough_frames
      have hle : env.frames.countP FrameOutcome.sends ≤ env.frames.countP (· ≠ .noSlot) :=
        List.countP_mono_left fun o _ ho => by cases o <;> simp_all [FrameOutcome.sends]
      omega
    | throughput =>
      simp only [streamSendIn, streamSendThroughput, henv.msgAlloc, if_true]
      refine throughputLoop_ends srcId dstId data (P := (· = .ok)) rfl env.batches (.inr henv.batches)
        (position_start data) ?_
      have henough := henv.enough_batches
      omega
  obtain ⟨n, -, hframes, hall⟩ := streamSendIn_emits mode srcId dstId data env hd
  have hlen : (fragments srcId dstId data).length = frameCount data := by
    simp [fragments]
  rw [hall.mp hok, List.take_of_length_le (Nat.le_of_eq hlen)] at hframes
  exact Prod.ext hframes hok

/-- For every message, of whatever length, and every pair of undisturbed sends of it, the
throughput path submits the frames of the latency path: the same number in the same order, with the
same header, payload and descriptor each, so the same bytes on the wire. -/
theorem send_modes_agree (srcId dstId : UInt8) (data : List UInt8) (latency throughput : SendEnv)
    (hpos : 1 ≤ data.length) (hlat : latency.Undisturbed (frameCount data))
    (hthr : throughput.Undisturbed (frameCount data)) :
    (streamSendThroughput srcId dstId data throughput).2 = .ok ∧
      (streamSendLatency srcId dstId data latency).2 = .ok ∧
      (streamSendThroughput srcId dstId data throughput).1 =
        (streamSendLatency srcId dstId data latency).1 ∧
      (streamSendThroughput srcId dstId data throughput).1.map TxFrame.wire =
        (streamSendLatency srcId dstId data latency).1.map TxFrame.wire := by
  have hl := streamSendIn_undisturbed .latency srcId dstId hpos hlat
  have ht := streamSendIn_undisturbed .throughput srcId dstId hpos hthr
  simp only [streamSendIn] at hl ht
  rw [hl, ht]
  exact ⟨rfl, rfl, rfl, rfl⟩

def twoBatches : List UInt8 := List.replicate (batchFrames * streamPayloadMax + 1) 7

def contendedEnv : SendEnv :=
  ⟨true, .noSlot :: List.replicate 65 .submitted,
    [.noBuf, .granted (fun _ => false) (fun _ => false), .noBuf,
      .granted (fun _ => false) (fun _ => false)]⟩

theorem frameCount_twoBatches : frameCount twoBatches = 65 := by
  rw [frameCount, twoBatches, List.length_replicate]
  decide

theorem contendedEnv_undisturbed : contendedEnv.Undisturbed (frameCount twoBatches) where
  msgAlloc := rfl
  frames := by decide
  batches := by simp [contendedEnv, BatchOutcome.Smooth]
  enough_frames := by
    rw [frameCount_twoBatches]
    decide
  enough_batches := by
    rw [frameCount_twoBatches]
    decide

theorem send_modes_agree_contended :
    frameCount twoBatches = 65 ∧
      (streamSendThroughput 20 21 twoBatches contendedEnv).1 =
        (streamSendLatency 20 21 twoBatches contendedEnv).1 := by
  have hpos : 1 ≤ twoBatches.length := by
    rw [twoBatches, List.length_replicate]
    exact Nat.le_add_left 1 _
  exact ⟨frameCount_twoBatches, (send_modes_agree 20 21 twoBatches contendedEnv contendedEnv hpos
    contendedEnv_undisturbed contendedEnv_undisturbed).2.2.1⟩

end OdinLink
