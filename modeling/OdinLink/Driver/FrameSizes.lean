import OdinLink.Driver.Fragments
import OdinLink.Driver.RawRanges

/-!
# The sizes of transmitted frames

A frame that fills its 4096 bytes does not fit the equally large receive buffer of the peer; 64
bytes are to be left free at its end. The stream paths and the control messages do so. The raw
transfers cut what they are given into pieces of 4096 bytes.
-/

namespace OdinLink

def frameTailReserve : Nat := 64

def intactLimit : Nat := frameSize - frameTailReserve

structure TxNode where
  tx : TxDevice
  raw : RawSender

/-- A request on one of the transmit paths, with what its calls answer. A control message goes
through the frame pool if there is one, and through the front buffer otherwise. -/
inductive Transmission where
  | stream (srcId dstId : UInt8) (data : List UInt8) (env : SendEnv)
  | raw (env : RawEnv) (req : RawRequest)
  | control (slots slotFree : Bool) (env : RawEnv)

def TxNode.sizes (node : TxNode) : Transmission → List Nat
  | .stream srcId dstId data env => (streamSend node.tx srcId dstId data env).2.1.map TxFrame.size
  | .raw env req => (node.raw.ioctl env req).1.map FrameDesc.length
  | .control slots slotFree env =>
    if slots then if slotFree && env.ringTx 0 then [dmaHdrSize] else []
    else (node.raw.submitTx env 0 (UInt64.ofNat dmaHdrSize) true).1.map FrameDesc.length

/-- What has to hold of a request for its frames to leave the reserve. A part of a dma-buf range
that is too long does no harm where the ring refuses its first frame, or one before it. -/
def TxNode.LeavesReserve (node : TxNode) : Transmission → Prop
  | .stream .. | .control .. => True
  | .raw env (.send offset len flags) =>
    node.raw.Admits env (.send offset len flags) → 0 < rawFrameCount len → env.ringTx 0 →
      len.toNat ≤ intactLimit
  | .raw env req =>
    node.raw.Admits env req → ∀ before part after, env.parts req = before ++ part :: after →
      intactLimit < part.len → ∃ i ≤ (before.map SgEntry.frameCount).sum,
        env.dmabufRefuses node.raw.ringSize i ≠ none

/-! ## Every path -/

section Paths

variable (node : TxNode)

theorem fragments_intact {srcId dstId : UInt8} {data : List UInt8} :
    ∀ f ∈ fragments srcId dstId data, 1 ≤ f.size ∧ f.size ≤ intactLimit := by
  intro f hf
  obtain ⟨k, _, rfl⟩ := List.mem_map.mp hf
  have hsize : (fragFrame srcId dstId data k).size =
      streamHdrSize + (Chunks.piece streamPayloadMax data k).length := rfl
  rw [hsize, Chunks.piece_length]
  simp only [streamHdrSize, streamPayloadMax, intactLimit, frameSize, frameTailReserve]
  omega

theorem streamSend_intact (srcId dstId : UInt8) (data : List UInt8) (env : SendEnv) :
    ∀ f ∈ (streamSend node.tx srcId dstId data env).2.1, 1 ≤ f.size ∧ f.size ≤ intactLimit := by
  intro f hf
  unfold streamSend at hf
  split at hf
  · cases hf
  split at hf
  · cases hf
  · rename_i hlen
    obtain ⟨n, _, hframes, _⟩ := streamSendIn_emits (evaluateTxMode node.tx data.length).2
      srcId dstId data env (by omega)
    rw [hframes] at hf
    exact fragments_intact f (List.mem_of_mem_take hf)

theorem send_intact_iff (node : RawSender) (env : RawEnv) (offset len : UInt64) (flags : UInt32) :
    (∀ f ∈ (node.ioctl env (.send offset len flags)).1, f.length ≤ intactLimit) ↔
      (node.Admits env (.send offset len flags) → 0 < rawFrameCount len → env.ringTx 0 →
        len.toNat ≤ intactLimit) := by
  by_cases hadm : node.Admits env (.send offset len flags)
  · obtain ⟨ctrl, heq⟩ := ioctl_send hadm
    rw [heq]
    have hlen (k : Nat) (hk : k < rawFrameCount len) :
        (rawFrame (node.txBuf.phys + offset) ctrl k len.toNat).length ≤ intactLimit ↔
          len.toNat ≤ intactLimit := by
      have hpos : 0 < len.toNat := by
        have hle := rawFrameCount_le len
        omega
      rw [rawFrame_length _ ctrl k hpos]
      simp only [intactLimit, frameSize, frameTailReserve]
      omega
    constructor
    · intro h _ hpos htaken
      apply (hlen 0 hpos).mp
      apply h
      refine mem_ringTxAll_iff.mpr ⟨0, by simp [hpos], fun k hk => ?_⟩
      rw [Nat.le_zero.mp hk]
      exact RawEnv.refuses_eq_none.mpr htaken
    · intro h f hf
      obtain ⟨j, hj, htaken⟩ := mem_ringTxAll_iff.mp hf
      obtain ⟨hk, rfl⟩ : j < rawFrameCount len ∧
          rawFrame (node.txBuf.phys + offset) ctrl j len.toNat = f := by
        simpa using List.getElem?_eq_some_iff.mp hj
      apply (hlen j hk).mpr
      exact h hadm (by omega) (RawEnv.refuses_eq_none.mp (htaken 0 (Nat.zero_le j)))
  · rw [ioctl_refused hadm]
    exact ⟨fun _ h => absurd h hadm, fun _ f hf => absurd hf List.not_mem_nil⟩

theorem dmabuf_intact_iff {node : RawSender} {env : RawEnv} {req : RawRequest}
    (hreq : ∀ offset len flags, req ≠ .send offset len flags) :
    (∀ f ∈ (node.ioctl env req).1, f.length ≤ intactLimit) ↔
      (node.Admits env req → ∀ before part after, env.parts req = before ++ part :: after →
        intactLimit < part.len → ∃ i ≤ (before.map SgEntry.frameCount).sum,
          env.dmabufRefuses node.ringSize i ≠ none) := by
  by_cases hadm : node.Admits env req
  · rw [ioctl_dmabuf hadm hreq]
    have hcount (before : List SgEntry) :
        (before.flatMap SgEntry.cut).length = (before.map SgEntry.frameCount).sum := by
      simp [List.length_flatMap]
    constructor
    · intro h _ before part after hparts hlong
      by_contra htaken
      simp only [not_exists, not_and, not_not] at htaken
      -- the first frame of the part is handed over
      have hpos : 0 < part.frameCount := by
        simp only [SgEntry.frameCount]
        omega
      have hfirst := h (part.frame 0) (mem_ringTxAll_iff.mpr
        ⟨(before.map SgEntry.frameCount).sum, getElem?_flatMap_iff.mpr
          ⟨before, part, after, 0, hparts, (hcount before).symm, SgEntry.cut_getElem?.mpr
            ⟨hpos, rfl⟩⟩, fun k hk => by rw [Nat.zero_add]; exact htaken k hk⟩)
      rw [SgEntry.frame_length hpos] at hfirst
      simp only [intactLimit, frameSize, frameTailReserve] at hfirst hlong
      omega
    · intro h f hf
      obtain ⟨j, hj, htaken⟩ := mem_ringTxAll_iff.mp hf
      obtain ⟨before, part, after, k, hparts, rfl, hcut⟩ := getElem?_flatMap_iff.mp hj
      obtain ⟨hk, rfl⟩ := SgEntry.cut_getElem?.mp hcut
      by_contra hlong
      rw [SgEntry.frame_length hk] at hlong
      obtain ⟨i, hi, hrefused⟩ := h hadm before part after hparts (by omega)
      apply hrefused
      rw [← hcount] at hi
      have hnone := htaken i (by omega)
      rwa [Nat.zero_add] at hnone
  · rw [ioctl_refused hadm]
    exact ⟨fun _ h => absurd h hadm, fun _ f hf => absurd hf List.not_mem_nil⟩

theorem sizes_intact_iff (fs : List FrameDesc) :
    (∀ n ∈ fs.map FrameDesc.length, 1 ≤ n ∧ n ≤ intactLimit) ↔
      ∀ f ∈ fs, f.length ≤ intactLimit := by
  rw [List.forall_mem_map]
  exact forall₂_congr fun f _ => and_iff_right f.length_bounds.1

theorem control_intact (node : RawSender) (env : RawEnv) :
    ∀ f ∈ (node.submitTx env 0 (UInt64.ofNat dmaHdrSize) true).1, f.length ≤ intactLimit := by
  intro f hf
  unfold RawSender.submitTx at hf
  split at hf
  · cases hf
  split at hf
  · cases hf
  rename_i fs hfs
  have hmem := ringTxAll_prefix.subset hf
  rw [(bufFrames_ok hfs).2] at hmem
  obtain ⟨k, _, rfl⟩ := List.mem_map.mp hmem
  rw [rawFrame_length _ _ _ (by decide)]
  decide

/-- Every frame of a request leaves the reserve exactly when nothing too long is cut: always on the
stream paths and for control messages. -/
theorem frames_leave_reserve_iff (t : Transmission) :
    (∀ n ∈ node.sizes t, 1 ≤ n ∧ n ≤ intactLimit) ↔ node.LeavesReserve t := by
  cases t with
  | stream srcId dstId data env =>
    refine ⟨fun _ => trivial, fun _ n hn => ?_⟩
    obtain ⟨f, hf, rfl⟩ := List.mem_map.mp hn
    exact streamSend_intact node srcId dstId data env f hf
  | raw env req =>
    refine (sizes_intact_iff _).trans ?_
    cases req with
    | send offset len flags => exact send_intact_iff node.raw env offset len flags
    | sendDmabuf _ _ _ => exact dmabuf_intact_iff fun _ _ _ h => nomatch h
    | streamSendDmabuf _ _ _ _ _ => exact dmabuf_intact_iff fun _ _ _ h => nomatch h
  | control slots slotFree env =>
    refine ⟨fun _ => trivial, fun _ => ?_⟩
    unfold TxNode.sizes
    dsimp only
    split
    · split
      · decide
      · simp
    · exact (sizes_intact_iff _).mpr (control_intact node.raw env)

end Paths

/-- `SEND` of a whole buffer, and of a page of a dma-buf: frames of 4096 bytes. -/
theorem raw_frames_fill_the_buffer :
    let node : TxNode :=
      ⟨⟨.ready, true, 4096, 2048, .latency, 0, 3072, 1024⟩, RawDevice.small.sender⟩
    let b : DmaBufObj := ⟨8192, [⟨0x10000, 8192⟩], true, true⟩
    node.sizes (.raw (.giving b) (.send 0 8192 0)) = [4096, 4096] ∧
    node.sizes (.raw (.giving b) (.sendDmabuf 3 0 4096)) = [4096] ∧
    ¬ ∀ n ∈ node.sizes (.raw (.giving b) (.send 0 8192 0)), 1 ≤ n ∧ n ≤ intactLimit := by
  refine ⟨by decide +kernel, by decide +kernel, fun h => ?_⟩
  exact absurd (h 4096 (by decide +kernel)).2 (by decide)

end OdinLink
