import OdinLink.Driver.RawFrames
import OdinLink.Driver.RxIsolation

/-!
# Raw frames at the peer's receive path

A raw frame has no header of its own, so the receive callback of the peer reads the first bytes of
the user's data as one. It ignores full frames, in whose size it finds 0.
-/

namespace OdinLink

variable {dest : Option UInt8} {c : Completion}

structure RxHolding where
  rxQueue : List RxMsg
  rxAsmBuf : Option (List UInt8)
  rxAsmLen : Nat
  rxAsmCap : Nat
  rxAsmSrcId : UInt8
  rxAsmNextFrag : UInt16
  rxAsmBad : Bool
  deriving DecidableEq, Repr

def Stream.holding (s : Stream) : RxHolding :=
  ⟨s.rxQueue, s.rxAsmBuf, s.rxAsmLen, s.rxAsmCap, s.rxAsmSrcId, s.rxAsmNextFrag, s.rxAsmBad⟩

structure RxControl where
  pongReceived : Bool
  verifyRxType : Nat
  ctrlReplyPending : Bool
  deriving DecidableEq, Repr

namespace RxDevice

def control (dev : RxDevice) : RxControl :=
  ⟨dev.pongReceived, dev.verifyRxType, dev.ctrlReplyPending⟩

structure Undisturbed (dest : Option UInt8) (dev dev' : RxDevice) : Prop where
  streams : ∀ id, dest ≠ some id →
    (dev'.streams id).map Stream.holding = (dev.streams id).map Stream.holding
  control : dev'.control = dev.control

theorem Undisturbed.of_eq {dev dev' : RxDevice}
    (hs : dev'.streams = dev.streams) (hc : dev'.control = dev.control) :
    Undisturbed dest dev dev' :=
  ⟨fun id _ => by rw [hs], hc⟩

theorem Undisturbed.trans {dest : Option UInt8} {a b c : RxDevice} (hab : Undisturbed dest a b)
    (hbc : Undisturbed dest b c) : Undisturbed dest a c :=
  ⟨fun id hid => (hbc.streams id hid).trans (hab.streams id hid), hbc.control.trans hab.control⟩

end RxDevice

def ReadsAsControl (bs : List UInt8) : Prop :=
  dmaHdrSize ≤ rxSize bs ∧ (Mem.dmaWrite (fun _ => 0) bs).le32 0 = dmaMagic

instance (bs : List UInt8) : Decidable (ReadsAsControl bs) := by
  unfold ReadsAsControl
  infer_instance

/-- A frame that the callback takes for a control message, or for a piece of a message to a stream
other than `dest`. -/
def Forges (dest : Option UInt8) (bs : List UInt8) : Prop :=
  ReadsAsControl bs ∨
    streamHdrSize ≤ rxSize bs ∧ (frameHdr bs).dstId ≠ streamIdCtrl ∧
      dest ≠ some (frameHdr bs).dstId ∧ (frameHdr bs).payloadLen ≠ 0

instance (dest : Option UInt8) (bs : List UInt8) : Decidable (Forges dest bs) := by
  unfold Forges
  infer_instance

namespace RxDevice

section Control

theorem rxRepostLoop_control (ringRx : Nat → Bool) (k : Nat) (dev : RxDevice) (n : Nat) :
    (rxRepostLoop ringRx k dev n).control = dev.control := by
  induction n generalizing k dev with
  | zero => rfl
  | succ n ih =>
    unfold rxRepostLoop
    split
    · rfl
    · split
      · rw [ih]
        rfl
      · rfl

@[simp] theorem rxRepost_control (dev : RxDevice) (ringRx : Nat → Bool) :
    (dev.rxRepost ringRx).control = dev.control :=
  rxRepostLoop_control ringRx 0 dev _

@[simp] theorem poolPut_control (dev : RxDevice) (slot : Nat) :
    (dev.poolPut slot).control = dev.control := rfl

@[simp] theorem countGood_control (dev : RxDevice) : dev.countGood.control = dev.control := rfl

@[simp] theorem countGood_streams (dev : RxDevice) : dev.countGood.streams = dev.streams := rfl

@[simp] theorem dmaReceive_control (dev : RxDevice) (c : Completion) :
    (dev.dmaReceive c).control = dev.control := by
  unfold dmaReceive
  split <;> rfl

theorem rxPoolFrame_flagged_control (dev : RxDevice) (idx : Nat) (env : RxEnv)
    (h : c.flagged = true) : (dev.rxPoolFrame idx c env).1.control = dev.control := by
  unfold rxPoolFrame
  split
  · rfl
  split
  · rfl
  split
  · rfl
  · simp_all [Completion.flagged]

end Control

section Frame
variable (dev : RxDevice) (mem : Mem) (bs : List UInt8) (alloc : AllocEnv)

theorem rxGoodFrame_control (h : ReadsAsControl bs) :
    (dev.rxGoodFrame (mem.dmaWrite bs) (rxSize bs) alloc).1 =
      dev.rxControl ((mem.dmaWrite bs).le32 4) := by
  rw [rxGoodFrame, if_pos ((control_congr mem (fun _ => 0) bs).mpr h)]

theorem rxGoodFrame_short (h : ¬ ReadsAsControl bs) (hlen : ¬ streamHdrSize ≤ rxSize bs) :
    (dev.rxGoodFrame (mem.dmaWrite bs) (rxSize bs) alloc).1 = dev := by
  rw [rxGoodFrame, if_neg (mt (control_congr mem (fun _ => 0) bs).mp h), if_neg hlen]

theorem rxGoodFrame_stream (h : ¬ ReadsAsControl bs) (hlen : streamHdrSize ≤ rxSize bs) :
    (dev.rxGoodFrame (mem.dmaWrite bs) (rxSize bs) alloc).1 =
      (dev.rxStreamFrame (mem.dmaWrite bs) alloc).1 := by
  rw [rxGoodFrame, if_neg (mt (control_congr mem (fun _ => 0) bs).mp h), if_pos hlen]

/-- A frame without payload changes the reference count of the stream it names and nothing it
holds; a frame with payload changes the stream it names. -/
theorem rxStreamFrame_undisturbed (hlen : streamHdrSize ≤ rxSize bs) (h : ¬ Forges dest bs) :
    dev.Undisturbed dest (dev.rxStreamFrame (mem.dmaWrite bs) alloc).1 := by
  have hh : (mem.dmaWrite bs).streamHdr = frameHdr bs :=
    Mem.streamHdr_dmaWrite_congr _ _ _ (hlen.trans (rxSize_le bs))
  simp only [rxStreamFrame, hh]
  split
  · exact .of_eq rfl rfl
  rename_i hdst
  split
  · exact .of_eq rfl rfl
  rename_i s hs
  -- the looked-up stream holds what the stream in the table holds
  obtain ⟨t, ht, hst⟩ : ∃ t, dev.streams (frameHdr bs).dstId = some t ∧ s.holding = t.holding := by
    unfold streamLookup at hs
    split at hs
    · cases hs
    · rename_i t ht
      split at hs
      · cases hs
      · cases hs
        exact ⟨t, ht, rfl⟩
  split
  · refine ⟨fun id _ => ?_, rfl⟩
    by_cases hid : id = (frameHdr bs).dstId
    · subst hid
      simp [setStream, ht, hst]
    · simp [setStream, hid]
  · rename_i hpay
    refine ⟨fun id hid => ?_, rfl⟩
    have hne : id ≠ (frameHdr bs).dstId := by
      intro he
      exact h (.inr ⟨hlen, hdst, he ▸ hid, hpay⟩)
    simp [setStream, hne]

theorem rxGoodFrame_undisturbed (h : ¬ Forges dest bs) :
    dev.Undisturbed dest (dev.rxGoodFrame (mem.dmaWrite bs) (rxSize bs) alloc).1 := by
  have hctl : ¬ ReadsAsControl bs := fun hc => h (.inl hc)
  by_cases hlen : streamHdrSize ≤ rxSize bs
  · rw [rxGoodFrame_stream dev mem bs alloc hctl hlen]
    exact dev.rxStreamFrame_undisturbed mem bs alloc hlen h
  · rw [rxGoodFrame_short dev mem bs alloc hctl hlen]
    exact .of_eq rfl rfl

end Frame

theorem step_good (dev : RxDevice) (env : RxEnv) {idx : Nat}
    (hf : c.frame = .slot idx) (hc : c.flagged = false) :
    (dev.step (.complete c env)).1 =
      (((dev.dmaReceive c).countGood.rxGoodFrame ((dev.slotMem idx).dmaWrite c.received)
        (rxSize c.received) env.alloc).1.poolPut idx).rxRepost env.ringRx := by
  simp only [step, rxCallback, hf]
  rw [rxPoolFrame_unflagged _ idx env hc, dmaReceive_slotMem dev hf]

theorem step_undisturbed (dev : RxDevice) (env : RxEnv) {idx : Nat}
    (hf : c.frame = .slot idx) (h : ¬ Forges dest c.received) :
    dev.Undisturbed dest (dev.step (.complete c env)).1 := by
  by_cases hc : c.flagged
  · simp only [step, rxCallback, hf]
    apply Undisturbed.of_eq
    · rw [((dev.dmaReceive c).rxPoolFrame_flagged idx env hc).1, dmaReceive_streams]
    · rw [(dev.dmaReceive c).rxPoolFrame_flagged_control idx env hc, dmaReceive_control]
  · rw [Bool.not_eq_true] at hc
    rw [step_good dev env hf hc]
    have hstart : dev.Undisturbed dest (dev.dmaReceive c).countGood := .of_eq (by simp) (by simp)
    have hgood := hstart.trans
      (rxGoodFrame_undisturbed _ (dev.slotMem idx) c.received env.alloc h)
    exact hgood.trans (.of_eq (by simp) (by simp))

theorem run_undisturbed (es : List (Completion × RxEnv))
    (hes : ∀ e ∈ es, (∃ idx, e.1.frame = .slot idx) ∧ ¬ Forges dest e.1.received) (dev : RxDevice) :
    dev.Undisturbed dest (dev.run (es.map fun e => .complete e.1 e.2)).1 := by
  induction es generalizing dev with
  | nil => exact .of_eq rfl rfl
  | cons e es ih =>
    obtain ⟨⟨idx, hf⟩, hforge⟩ := hes e (List.mem_cons_self ..)
    have hrest := ih (fun e he => hes e (List.mem_cons_of_mem _ he))
      (dev.step (.complete e.1 e.2)).1
    exact (dev.step_undisturbed e.2 hf hforge).trans hrest

end RxDevice

section Shown

namespace Stream
variable (s : Stream) (env : AllocEnv) (h : StreamHdr) (payload : List UInt8)

theorem asmFrame_nextFrag : (s.asmFrame env h payload).rxAsmNextFrag = h.fragIdx + 1 := by
  have hseq (t : Stream) : (t.asmSequence h.fragIdx).rxAsmNextFrag = h.fragIdx + 1 := by
    unfold asmSequence
    split <;> rfl
  have hgrow (t : Stream) (n : Nat) : (t.asmGrow env n).rxAsmNextFrag = t.rxAsmNextFrag := by
    unfold asmGrow
    split
    · split <;> rfl
    · rfl
  have happ (t : Stream) : (t.asmAppend payload).rxAsmNextFrag = t.rxAsmNextFrag := by
    unfold asmAppend
    split <;> rfl
  rw [asmFrame, happ, hgrow, hseq]

theorem rxFinish_asmBuf : (s.rxFinish env).1.rxAsmBuf = none := by
  unfold rxFinish
  split
  · rfl
  · split <;> rfl

theorem rxFrame_shows (hbuf : s.rxAsmBuf ≠ none) (hfrag : s.rxAsmNextFrag ≠ h.fragIdx + 1) :
    (s.rxFrame env h payload).1.holding ≠ s.holding := by
  intro heq
  unfold rxFrame at heq
  dsimp only at heq
  split at heq
  · have hb := congrArg RxHolding.rxAsmBuf heq
    exact hbuf (hb.symm.trans (rxFinish_asmBuf _ env))
  · have hn := congrArg RxHolding.rxAsmNextFrag heq
    exact hfrag (hn.symm.trans (s.asmFrame_nextFrag env h payload))

end Stream

namespace RxDevice

def watching (h : StreamHdr) : RxDevice :=
  {(opened h.dstId).setStream h.dstId
    {streamCreate h.dstId with rxAsmBuf := some [], rxAsmNextFrag := h.fragIdx + 2} with
    pongReceived := false}

theorem rxControl_shows (dev : RxDevice) (type : Nat) (hp : dev.pongReceived = false)
    (hr : dev.ctrlReplyPending = false) : (dev.rxControl type).control ≠ dev.control := by
  unfold rxControl
  split
  · simp [control, hp]
  · simp [control, hr]

theorem rxStreamFrame_shows (dev : RxDevice) (mem : Mem) (bs : List UInt8)
    (alloc : AllocEnv) (hlen : streamHdrSize ≤ rxSize bs)
    (hdst : (frameHdr bs).dstId ≠ streamIdCtrl) (hdest : dest ≠ some (frameHdr bs).dstId)
    (hpay : (frameHdr bs).payloadLen ≠ 0) {s : Stream}
    (hs : dev.streams (frameHdr bs).dstId = some s) (href : s.refcount ≠ 0)
    (hbuf : s.rxAsmBuf ≠ none) (hfrag : s.rxAsmNextFrag ≠ (frameHdr bs).fragIdx + 1) :
    ¬ dev.Undisturbed dest (dev.rxStreamFrame (mem.dmaWrite bs) alloc).1 := by
  intro hu
  have hh : (mem.dmaWrite bs).streamHdr = frameHdr bs :=
    Mem.streamHdr_dmaWrite_congr _ _ _ (hlen.trans (rxSize_le bs))
  have heq := hu.streams _ hdest
  simp only [rxStreamFrame, hh, if_neg hdst, streamLookup, hs, if_neg href, if_neg hpay, setStream,
    if_true, Option.map_some, Option.some.injEq] at heq
  exact Stream.rxFrame_shows {s with refcount := s.refcount + 1} alloc (frameHdr bs) _ hbuf hfrag
    heq

theorem step_shows {bs : List UInt8} (h : Forges dest bs) :
    ¬ (watching (frameHdr bs)).Undisturbed dest
      ((watching (frameHdr bs)).step (.complete (.good 0 bs) .ok)).1 := by
  rw [step_good (watching (frameHdr bs)) .ok (c := .good 0 bs) rfl rfl]
  intro hu
  let dev := ((watching (frameHdr bs)).dmaReceive (.good 0 bs)).countGood
  have hstart : dev.Undisturbed dest (watching (frameHdr bs)) :=
    .of_eq (by simp [dev]) (by simp [dev])
  have hgood : dev.Undisturbed dest
      (dev.rxGoodFrame (((watching (frameHdr bs)).slotMem 0).dmaWrite bs) (rxSize bs)
        RxEnv.ok.alloc).1 :=
    (hstart.trans hu).trans
      (.of_eq (by simp [dev, Completion.good]) (by simp [dev, Completion.good]))
  by_cases hctl : ReadsAsControl bs
  · rw [rxGoodFrame_control _ _ _ _ hctl] at hgood
    exact rxControl_shows _ _ rfl rfl hgood.control
  · obtain hctl' | ⟨hlen, hdst, hdest, hpay⟩ := h
    · exact hctl hctl'
    rw [rxGoodFrame_stream _ _ _ _ hctl hlen] at hgood
    refine rxStreamFrame_shows _ _ bs _ hlen hdst hdest hpay
      (s := {streamCreate (frameHdr bs).dstId with
        rxAsmBuf := some [], rxAsmNextFrag := (frameHdr bs).fragIdx + 2}) ?_ ?_ ?_ ?_ hgood
    · simp [dev, watching, setStream]
    · simp [streamCreate]
    · simp
    · simp

end RxDevice

end Shown

/-- The frames of a raw transfer, or some of them, arrive in the pool of the peer in any order, with
any errors and any number of times. -/
def ForgesNothing (dest : Option UInt8) (frames : List (List UInt8)) : Prop :=
  ∀ (peer : RxDevice) (es : List (Completion × RxEnv)),
    (∀ e ∈ es, (∃ idx, e.1.frame = .slot idx) ∧ e.1.received ∈ frames) →
    peer.Undisturbed dest (peer.run (es.map fun e => .complete e.1 e.2)).1

theorem forgesNothing_iff {frames : List (List UInt8)} :
    ForgesNothing dest frames ↔ ∀ bs ∈ frames, ¬ Forges dest bs := by
  constructor
  · intro h bs hbs hforge
    apply RxDevice.step_shows hforge
    apply h (.watching (frameHdr bs)) [(.good 0 bs, .ok)]
    intro e he
    rw [List.mem_singleton.mp he]
    exact ⟨⟨0, rfl⟩, hbs⟩
  · intro h peer es hes
    apply RxDevice.run_undisturbed
    intro e he
    exact ⟨(hes e he).1, h _ (hes e he).2⟩

/-! ## Where the short frames of a request lie -/

/-- The end of a part of a dma-buf range, if the ring takes the frames up to it. -/
def RawSender.ShortEnd (node : RawSender) (env : RawEnv) (ram : Ram) (parts : List SgEntry)
    (bs : List UInt8) : Prop :=
  ∃ before part after, parts = before ++ part :: after ∧ part.len % frameSize ≠ 0 ∧
    (∀ i ≤ (before.map SgEntry.frameCount).sum + part.len / frameSize,
      env.dmabufRefuses node.ringSize i = none) ∧
    bs = ram.read (part.addr + UInt64.ofNat (frameSize * (part.len / frameSize)))
      (part.len % frameSize)

/-- The memory that a request transmits in a frame of less than 4096 bytes: all that a `SEND`
names, if it is less, and the end of each part of a dma-buf range. -/
def RawSender.ShortFrame (node : RawSender) (env : RawEnv) (ram : Ram) :
    RawRequest → List UInt8 → Prop
  | .send offset len flags, bs =>
    node.Admits env (.send offset len flags) ∧ env.ringTx 0 ∧ 0 < len.toNat ∧
      len.toNat < frameSize ∧ bs = ram.read (node.txBuf.phys + offset) len.toNat
  | req, bs => node.Admits env req ∧ node.ShortEnd env ram (env.parts req) bs

section Short

variable {node : RawSender} {env : RawEnv} {ram : Ram} {req : RawRequest} {bs : List UInt8}

theorem Forges.length_ne (h : Forges dest bs) : bs.length ≠ frameSize := by
  intro hfull
  have h0 : rxSize bs = 0 := by rw [rxSize, hfull]; rfl
  rcases h with hctl | ⟨hlen, _⟩
  · have hlen := hctl.1
    rw [h0] at hlen
    exact absurd hlen (by decide)
  · rw [h0] at hlen
    exact absurd hlen (by decide)

@[simp] theorem FrameDesc.bytes_length (f : FrameDesc) : (f.bytes ram).length = f.length := by
  simp [FrameDesc.bytes, Ram.read]

theorem shortFrame_send {offset len : UInt64} {flags : UInt32} :
    (∃ f ∈ (node.ioctl env (.send offset len flags)).1,
      f.length < frameSize ∧ f.bytes ram = bs) ↔
      node.ShortFrame env ram (.send offset len flags) bs := by
  by_cases hadm : node.Admits env (.send offset len flags)
  · obtain ⟨ctrl, heq⟩ := ioctl_send hadm
    have hfirst : (rawFrame (node.txBuf.phys + offset) ctrl 0 len.toNat).bufferPhy =
        node.txBuf.phys + offset := UInt64.add_zero _
    rw [heq]
    constructor
    · rintro ⟨f, hf, hshort, rfl⟩
      obtain ⟨j, hj, htaken⟩ := mem_ringTxAll_iff.mp hf
      obtain ⟨hj, rfl⟩ : j < rawFrameCount len ∧
          rawFrame (node.txBuf.phys + offset) ctrl j len.toNat = f := by
        simpa using List.getElem?_eq_some_iff.mp hj
      have hcount := rawFrameCount_le len
      rw [rawFrame_length _ _ _ (by omega)] at hshort
      simp only [frameSize] at hshort
      -- a range of less than a frame has one
      obtain rfl : j = 0 := by omega
      refine ⟨hadm, RawEnv.refuses_eq_none.mp (htaken 0 (Nat.le_refl 0)), by omega,
        show len.toNat < 4096 by omega, ?_⟩
      rw [FrameDesc.bytes, rawFrame_length _ _ _ (by omega), hfirst, frameSize,
        Nat.min_eq_right (by omega)]
    · rintro ⟨_, htaken, hpos, hlt, rfl⟩
      have hcount : rawFrameCount len = 1 := by
        simp only [frameSize] at hlt
        rw [rawFrameCount_eq (by omega)]
        omega
      have hlen := rawFrame_length (node.txBuf.phys + offset) ctrl 0 hpos
      rw [Nat.min_eq_right (Nat.le_of_lt hlt)] at hlen
      refine ⟨rawFrame (node.txBuf.phys + offset) ctrl 0 len.toNat, ?_, by rwa [hlen], ?_⟩
      · refine mem_ringTxAll_iff.mpr ⟨0, by simp [hcount], fun k hk => ?_⟩
        rw [Nat.le_zero.mp hk]
        exact RawEnv.refuses_eq_none.mpr htaken
      · rw [FrameDesc.bytes, hlen, hfirst]
  · exact iff_of_false (by simp [ioctl_refused hadm]) fun h => hadm h.1

theorem shortFrame_dmabuf (hreq : ∀ offset len flags, req ≠ .send offset len flags) :
    (∃ f ∈ (node.ioctl env req).1, f.length < frameSize ∧ f.bytes ram = bs) ↔
      node.Admits env req ∧ node.ShortEnd env ram (env.parts req) bs := by
  by_cases hadm : node.Admits env req
  · rw [ioctl_dmabuf hadm hreq, and_iff_right hadm]
    have hcount (before : List SgEntry) :
        (before.flatMap SgEntry.cut).length = (before.map SgEntry.frameCount).sum := by
      simp [List.length_flatMap]
    constructor
    · rintro ⟨f, hf, hshort, rfl⟩
      obtain ⟨j, hj, htaken⟩ := mem_ringTxAll_iff.mp hf
      obtain ⟨before, part, after, k, hparts, rfl, hcut⟩ := getElem?_flatMap_iff.mp hj
      obtain ⟨hk, rfl⟩ := SgEntry.cut_getElem?.mp hcut
      have hlen := SgEntry.frame_length hk
      rw [hlen] at hshort
      simp only [SgEntry.frameCount] at hk
      simp only [RawSender.ShortEnd, frameSize] at hshort hlen ⊢
      -- only the last frame of a part is short
      obtain rfl : k = part.len / 4096 := by omega
      refine ⟨before, part, after, hparts, by omega, fun i hi => ?_, ?_⟩
      · rw [← hcount] at hi
        have hnone := htaken i hi
        rwa [Nat.zero_add] at hnone
      · rw [FrameDesc.bytes, hlen, SgEntry.frame]
        have hrest : min 4096 (part.len - 4096 * (part.len / 4096)) = part.len % 4096 := by omega
        rw [hrest]
    · rintro ⟨before, part, after, hparts, hrest, htaken, rfl⟩
      simp only [frameSize] at hrest htaken
      have hk : part.len / 4096 < part.frameCount := by
        simp only [SgEntry.frameCount]
        omega
      have hlen : (part.frame (part.len / 4096)).length = part.len % 4096 := by
        rw [SgEntry.frame_length hk, frameSize]
        omega
      refine ⟨part.frame (part.len / 4096), ?_, ?_, ?_⟩
      · refine mem_ringTxAll_iff.mpr ⟨_, getElem?_flatMap_iff.mpr
          ⟨before, part, after, part.len / 4096, hparts, rfl, SgEntry.cut_getElem?.mpr ⟨hk, rfl⟩⟩,
          fun i hi => ?_⟩
        rw [hcount] at hi
        rw [Nat.zero_add]
        exact htaken i hi
      · rw [hlen, frameSize]
        omega
      · rw [FrameDesc.bytes, hlen]
        rfl
  · exact iff_of_false (by simp [ioctl_refused hadm]) fun h => hadm h.1

theorem shortFrame_iff :
    (∃ f ∈ (node.ioctl env req).1, f.length < frameSize ∧ f.bytes ram = bs) ↔
      node.ShortFrame env ram req bs := by
  cases req with
  | send offset len flags => exact shortFrame_send
  | sendDmabuf _ _ _ => exact shortFrame_dmabuf fun _ _ _ h => nomatch h
  | streamSendDmabuf _ _ _ _ _ => exact shortFrame_dmabuf fun _ _ _ h => nomatch h

end Short

/-- A raw transfer forges nothing exactly when no memory that it transmits in a short frame reads as
a control message or as a frame with payload for a stream the request did not name. -/
theorem raw_transfer_forges_nothing_iff (node : RawSender) (env : RawEnv) (req : RawRequest)
    (ram : Ram) :
    ForgesNothing req.destination (node.wire env req ram) ↔
      ∀ bs, node.ShortFrame env ram req bs → ¬ Forges req.destination bs := by
  rw [forgesNothing_iff]
  constructor
  · intro h bs hbs
    obtain ⟨f, hf, _, rfl⟩ := shortFrame_iff.mpr hbs
    exact h _ (List.mem_map.mpr ⟨f, hf, rfl⟩)
  · intro h bs hbs hforge
    obtain ⟨f, hf, rfl⟩ := List.mem_map.mp hbs
    have hshort : f.length < frameSize := by
      have hne := hforge.length_ne
      rw [FrameDesc.bytes_length] at hne
      exact Nat.lt_of_le_of_ne f.length_bounds.2 hne
    exact h _ (shortFrame_iff.mp ⟨f, hf, hshort, rfl⟩) hforge

section Forgery

def rawNode : RawSender := ⟨.ready, true, ⟨0x1000, 0x2000⟩, 4096, fun id => id = 1⟩

def rawEnv : RawEnv :=
  ⟨true, fun fd => if fd = 5 then some ⟨4096, [⟨0x8000, 4096⟩], true, true⟩ else none,
    fun _ => true⟩

def rawRam : Ram := fun a =>
  ([0x35, 0x4C, 0x44, 0x4F, 2, 0, 0, 0, 0, 0, 0, 0, 0, 0, 0, 0] : List UInt8).getD
    (a - 0x1000).toNat
    (([1, 7, 3, 0, 3, 0, 0, 0, 10, 20, 30] : List UInt8).getD (a - 0x8000).toNat 0)

/-- Sixteen bytes of user data are a pong to the peer. A request that names stream 2 delivers a
message to stream 7. -/
theorem raw_data_taken_for_protocol :
    rawNode.wire rawEnv (.send 0 16 0) rawRam =
        [[0x35, 0x4C, 0x44, 0x4F, 2, 0, 0, 0, 0, 0, 0, 0, 0, 0, 0, 0]] ∧
      ¬ ForgesNothing none (rawNode.wire rawEnv (.send 0 16 0) rawRam) ∧
      rawNode.wire rawEnv (.streamSendDmabuf 1 2 5 0 11) rawRam =
        [[1, 7, 3, 0, 3, 0, 0, 0, 10, 20, 30]] ∧
      ¬ ForgesNothing (some 2)
        (rawNode.wire rawEnv (.streamSendDmabuf 1 2 5 0 11) rawRam) := by
  have hsend : rawNode.wire rawEnv (.send 0 16 0) rawRam =
      [[0x35, 0x4C, 0x44, 0x4F, 2, 0, 0, 0, 0, 0, 0, 0, 0, 0, 0, 0]] := by decide +kernel
  have hdmabuf : rawNode.wire rawEnv (.streamSendDmabuf 1 2 5 0 11) rawRam =
      [[1, 7, 3, 0, 3, 0, 0, 0, 10, 20, 30]] := by decide +kernel
  refine ⟨hsend, fun h => ?_, hdmabuf, fun h => ?_⟩
  · rw [hsend] at h
    exact forgesNothing_iff.mp h _ (List.mem_singleton.mpr rfl) (by decide)
  · rw [hdmabuf] at h
    exact forgesNothing_iff.mp h _ (List.mem_singleton.mpr rfl) (by decide)

end Forgery

end OdinLink
