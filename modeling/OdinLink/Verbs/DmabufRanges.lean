import OdinLink.Driver.RawRanges
import OdinLink.Verbs.MemoryRegions

/-!
# The range of a dma-buf that a send request names

A dma-buf region is registered with the offset of its first byte in the dma-buf and the address
`iova` that stands for this byte. A request addresses bytes of the region, and these lie in the
dma-buf as far behind the offset as the address lies behind `iova`. The worker of a queue pair asks
the driver for the bytes from the start of the dma-buf.
-/

namespace OdinLink

structure SendSge where
  addr : UInt64
  length : UInt32
  lkey : UInt32
  deriving DecidableEq, Repr

structure QpStreams where
  txStreamId : UInt8
  destQp : UInt8
  deriving DecidableEq, Repr

inductive WorkerSend where
  | dmabuf (sent : List FrameDesc × Option RawError)
  | stream (data : UInt64) (len : UInt32)
  deriving DecidableEq, Repr

def VerbsContext.workerSend (ctx : VerbsContext) (qp : QpStreams) (node : RawSender) (env : RawEnv)
    (sge : SendSge) : WorkerSend :=
  let dmabufFd := ctx.lookupDmabuf sge.lkey
  if 0 ≤ dmabufFd then
    .dmabuf (node.ioctl env
      (.streamSendDmabuf qp.txStreamId qp.destQp dmabufFd 0 sge.length.toUInt64))
  else .stream sge.addr sge.length

def Mr.Contains (mr : Mr) (sge : SendSge) : Prop :=
  mr.iova.toNat ≤ sge.addr.toNat ∧
    sge.addr.toNat + sge.length.toNat ≤ mr.iova.toNat + mr.length.toNat

def Mr.start (mr : Mr) (sge : SendSge) : Nat :=
  mr.dmabufOffset.toNat + (sge.addr.toNat - mr.iova.toNat)

structure DmaBufObj.SendsRange (b : DmaBufObj) (start len : Nat)
    (sent : List FrameDesc × Option RawError) : Prop where
  frames : sent.1 ≠ [] →
    ∃ rest, Tiles FrameDesc.length (SgPoints b.sgt) start (sent.1 ++ rest) (start + len)
  whole : sent.2 = none → Tiles FrameDesc.length (SgPoints b.sgt) start sent.1 (start + len)

def VerbsContext.SendsAddressed (ctx : VerbsContext) (mr : Mr) (sge : SendSge) : Prop :=
  ∀ (qp : QpStreams) (node : RawSender) (env : RawEnv) (b : DmaBufObj),
    env.dmaBufGet mr.dmabufFd = some b → (b.sgt.map SgEntry.len).sum = b.size.toNat →
      ∃ sent, ctx.workerSend qp node env sge = .dmabuf sent ∧
        b.SendsRange (mr.start sge) sge.length.toNat sent

section Requests

variable {node : RawSender} {env : RawEnv} {dmabufFd : Int32} {len : UInt64} {b : DmaBufObj}

theorem DmaBufObj.SendsRange.refused {start n : Nat} (e : RawError) :
    b.SendsRange start n ([], some e) :=
  ⟨fun h => absurd rfl h, fun h => absurd h (Option.some_ne_none e)⟩

theorem submitTxDmabuf_start (hb : env.dmaBufGet dmabufFd = some b)
    (hsum : (b.sgt.map SgEntry.len).sum = b.size.toNat) :
    b.SendsRange 0 len.toNat (node.submitTxDmabuf env dmabufFd 0 len) := by
  rcases submitDmabuf_cases node.linked node.ringSize env dmabufFd 0 len with
    ⟨_, e, he⟩ | ⟨⟨_, b', hb', hadm⟩, hyes⟩
  · rw [RawSender.submitTxDmabuf, he]
    exact .refused _
  · obtain rfl : b = b' := Option.some.inj (hb.symm.trans hb')
    have hzero : (0 : Int64).toUInt64 = 0 := by decide
    have hsize := (not_or.mp (not_or.mp hadm.1).2).2
    rw [hzero, UInt64.zero_add] at hsize
    have hle : len.toNat ≤ b.size.toNat := Nat.not_lt.mp hsize
    have htiles : Tiles FrameDesc.length (SgPoints b.sgt) 0 (sgtFrames b.sgt 0 len.toNat)
        (0 + len.toNat) := sgtFrames_tiles 0 len.toNat (by omega)
    rw [RawSender.submitTxDmabuf, hyes, RawEnv.dmabufParts, hb, Option.elim_some, ← sgtFrames_eq,
      hzero]
    constructor
    · intro _
      obtain ⟨rest, hrest⟩ := ringTxAll_prefix
      exact ⟨rest, hrest ▸ htiles⟩
    · intro hnone
      rw [ringTxAll_eq_iff.mpr (ringTxAll_none_iff.mp hnone)]
      exact htiles

theorem ioctl_start (hb : env.dmaBufGet dmabufFd = some b)
    (hsum : (b.sgt.map SgEntry.len).sum = b.size.toNat) (streamId dstId : UInt8) :
    b.SendsRange 0 len.toNat
      (node.ioctl env (.streamSendDmabuf streamId dstId dmabufFd 0 len)) := by
  simp only [RawSender.ioctl]
  split
  · exact .refused _
  · split
    · exact .refused _
    · exact submitTxDmabuf_start hb hsum

theorem ioctl_empty (streamId dstId : UInt8) (start len : Nat) : b.SendsRange start len
    (node.ioctl env (.streamSendDmabuf streamId dstId dmabufFd 0 0)) := by
  rcases submitDmabuf_cases node.linked node.ringSize env dmabufFd (0 : UInt64).toInt64 0 with
    ⟨_, e, he⟩ | ⟨⟨_, b', _, hadm⟩, _⟩
  · simp only [RawSender.ioctl, RawSender.submitTxDmabuf, he]
    split
    · exact .refused _
    · split <;> exact .refused _
  · exact absurd rfl (not_or.mp (not_or.mp hadm.1).2).1

theorem sgPoints_singleton_inj {sg : SgEntry} {p q : Nat} {f : FrameDesc}
    (hlen : sg.len < UInt64.size) (hp : SgPoints [sg] p f) (hq : SgPoints [sg] q f) : p = q := by
  have hat {r : Nat} (hr : SgPoints [sg] r f) :
      f.bufferPhy = sg.addr + UInt64.ofNat r ∧ r + f.length ≤ sg.len := by
    obtain ⟨before, sg', after, o, hlist, rfl, hpoints⟩ := hr
    cases before with
    | nil =>
      obtain ⟨rfl, -⟩ := List.cons.inj hlist
      rw [List.map_nil, List.sum_nil, Nat.zero_add]
      exact hpoints
    | cons _ before => simp at hlist
  obtain ⟨hphyp, hendp⟩ := hat hp
  obtain ⟨hphyq, hendq⟩ := hat hq
  have heq : UInt64.ofNat p = UInt64.ofNat q := (UInt64.add_right_inj _).mp (hphyp.symm.trans hphyq)
  have hnat := congrArg UInt64.toNat heq
  rwa [UInt64.toNat_ofNat_of_lt' (by omega), UInt64.toNat_ofNat_of_lt' (by omega)] at hnat

def RawSender.serving : RawSender := ⟨.ready, true, ⟨0, 0⟩, 1, fun _ => true⟩

def DmaBufObj.flat (len : UInt64) : DmaBufObj := ⟨len, [⟨0, len.toNat⟩], true, true⟩

theorem ioctl_serving_ne_nil (hlen : len ≠ 0) (streamId dstId : UInt8) :
    (RawSender.serving.ioctl (.giving (.flat len))
      (.streamSendDmabuf streamId dstId dmabufFd 0 len)).1 ≠ [] := by
  have hpos : 0 < len.toNat := Nat.pos_of_ne_zero fun h => hlen (UInt64.toNat_inj.mp h)
  have hframes :
      (DmaBufObj.flat len).frames 0 len = .ok (sgtFrames [⟨0, len.toNat⟩] 0 len.toNat) := by
    have hzero : (0 : Int64).toUInt64 = 0 := by decide
    have hrange : ¬ ((0 : Int64) < 0 ∨ len = 0 ∨ len < (0 : Int64).toUInt64 + len) := by
      rw [hzero, UInt64.zero_add]
      simp [hlen]
    simp only [DmaBufObj.frames, DmaBufObj.flat, hrange, if_false]
    rfl
  have htiles : Tiles FrameDesc.length (SgPoints [⟨0, len.toNat⟩]) 0
      (sgtFrames [⟨0, len.toNat⟩] 0 len.toNat) (0 + len.toNat) :=
    sgtFrames_tiles 0 len.toNat (by simp)
  cases hfs : sgtFrames [⟨0, len.toNat⟩] 0 len.toNat with
  | nil =>
    have htotal := htiles.total
    rw [hfs] at htotal
    simp at htotal
    omega
  | cons f fs =>
    rw [hfs] at hframes
    simp [RawSender.ioctl, RawSender.submitTxDmabuf, RawSender.serving, RawSender.linked,
      RawEnv.giving, submitDmabuf, hframes, ringTxAll, RawEnv.dmabufRefuses, RawEnv.refuses]

end Requests

section Sends

variable {ctx : VerbsContext} {mr : Mr} {sge : SendSge}

theorem Mr.start_eq_zero_iff (hin : mr.Contains sge) :
    mr.start sge = 0 ↔ mr.dmabufOffset = 0 ∧ sge.addr = mr.iova := by
  have hle : mr.iova.toNat ≤ sge.addr.toNat := hin.1
  rw [Mr.start, ← UInt64.toNat_inj, ← UInt64.toNat_inj]
  have h0 : (0 : UInt64).toNat = 0 := rfl
  omega

theorem VerbsContext.workerSend_of_find (hfind : ctx.findDmabuf sge.lkey = some mr)
    (hfd : ¬ mr.dmabufFd < 0) (qp : QpStreams) (node : RawSender) (env : RawEnv) :
    ctx.workerSend qp node env sge = .dmabuf (node.ioctl env
      (.streamSendDmabuf qp.txStreamId qp.destQp mr.dmabufFd 0 sge.length.toUInt64)) := by
  have hlookup : ctx.lookupDmabuf sge.lkey = mr.dmabufFd := by
    rw [VerbsContext.lookupDmabuf, hfind]
  simp only [VerbsContext.workerSend, hlookup]
  rw [if_pos (Int32.not_lt.mp hfd)]

theorem VerbsContext.sendsAddressed_iff (hfind : ctx.findDmabuf sge.lkey = some mr)
    (hfd : ¬ mr.dmabufFd < 0) :
    ctx.SendsAddressed mr sge ↔ mr.start sge = 0 ∨ sge.length = 0 := by
  have hlen : sge.length.toUInt64.toNat = sge.length.toNat := UInt32.toNat_toUInt64 _
  constructor
  · intro h
    rw [or_iff_not_imp_right]
    intro hne
    -- a dma-buf of one segment, so that every frame shows where it lies
    have hne64 : sge.length.toUInt64 ≠ 0 := by
      intro h0
      apply hne
      rw [← UInt32.toNat_inj, ← hlen, h0]
      rfl
    obtain ⟨sent, hsend, hrange⟩ := h ⟨0, 0⟩ .serving (.giving (.flat sge.length.toUInt64))
      (.flat sge.length.toUInt64) rfl (by simp [DmaBufObj.flat])
    rw [VerbsContext.workerSend_of_find hfind hfd] at hsend
    obtain rfl := WorkerSend.dmabuf.inj hsend
    have hzero : (DmaBufObj.flat sge.length.toUInt64).SendsRange 0 sge.length.toUInt64.toNat
        (RawSender.serving.ioctl (.giving (.flat sge.length.toUInt64))
          (.streamSendDmabuf 0 0 mr.dmabufFd 0 sge.length.toUInt64)) :=
      ioctl_start rfl (by simp [DmaBufObj.flat]) 0 0
    have hsome : (RawSender.serving.ioctl (.giving (.flat sge.length.toUInt64))
        (.streamSendDmabuf 0 0 mr.dmabufFd 0 sge.length.toUInt64)).1 ≠ [] :=
      ioctl_serving_ne_nil hne64 0 0
    obtain ⟨rest, htiles⟩ := hrange.frames hsome
    obtain ⟨rest', htiles'⟩ := hzero.frames hsome
    obtain ⟨f, fs, hfs⟩ := List.exists_cons_of_ne_nil hsome
    rw [hfs, List.cons_append] at htiles htiles'
    cases htiles with
    | cons hf _ =>
      cases htiles' with
      | cons hf' _ => exact sgPoints_singleton_inj (UInt64.toNat_lt_size _) hf hf'
  · intro h qp node env b hb hsum
    refine ⟨_, VerbsContext.workerSend_of_find hfind hfd qp node env, ?_⟩
    rcases h with hstart | hempty
    · rw [hstart, ← hlen]
      exact ioctl_start hb hsum qp.txStreamId qp.destQp
    · have hempty64 : sge.length.toUInt64 = 0 := by rw [hempty]; rfl
      rw [hempty64]
      exact ioctl_empty qp.txStreamId qp.destQp _ _

end Sends

open VerbsContext in
/-- The addressed bytes of a dma-buf are transmitted exactly when they are its first ones, or there
are none. -/
theorem dmabuf_send_addressed_iff (calls : List MrCall) (mr : Mr) (sge : SendSge)
    (hfind : (calls.foldl step ⟨[]⟩).findDmabuf sge.lkey = some mr) (hin : mr.Contains sge) :
    (calls.foldl step ⟨[]⟩).SendsAddressed mr sge ↔
      mr.dmabufOffset = 0 ∧ sge.addr = mr.iova ∨ sge.length = 0 := by
  obtain ⟨hmr, htype⟩ := mem_of_findDmabuf hfind
  have hkeyed := foldl_step_keyed calls (by simp) mr hmr
  rw [sendsAddressed_iff hfind (hkeyed.fd htype), Mr.start_eq_zero_iff hin]

theorem first_page_addressed :
    let calls := [MrCall.regMr (some 0x7f0000001080) 0x4000 4096 0 0,
      .regDmabufMr (some 0x7f0000001010) 5 0 8192 0x10000 0]
    let sge : SendSge := ⟨0x10000, 4096, 0x1010⟩
    ∃ mr, (calls.foldl VerbsContext.step ⟨[]⟩).findDmabuf sge.lkey = some mr ∧ mr.Contains sge ∧
      (calls.foldl VerbsContext.step ⟨[]⟩).SendsAddressed mr sge := by
  intro calls sge
  let mr : Mr := ⟨0x7f0000001010, 0, 8192, 0x1010, 0x1010, .dmabuf, 0, 0, 0, 5, 0, 0x10000⟩
  have hfind : (calls.foldl VerbsContext.step ⟨[]⟩).findDmabuf sge.lkey = some mr := by decide
  have hin : mr.Contains sge := by
    rw [Mr.Contains]
    decide
  exact ⟨mr, hfind, hin, (dmabuf_send_addressed_iff calls mr sge hfind hin).mpr
    (.inl ⟨rfl, rfl⟩)⟩

/-- The second page of a region that begins at the second page of its dma-buf: the first page of the
dma-buf is transmitted, and the request succeeds. -/
theorem first_page_sent_instead :
    let ctx := [MrCall.regDmabufMr (some 0x7f0000001010) 5 4096 8192 0x10000 0].foldl
      VerbsContext.step ⟨[]⟩
    let sge : SendSge := ⟨0x11000, 4096, 0x1010⟩
    let b : DmaBufObj := ⟨12288, [⟨0x200000, 12288⟩], true, true⟩
    ctx.workerSend ⟨1, 2⟩ .serving (.giving b) sge =
      .dmabuf ([⟨0x200000, 4096, pdfSofData, pdfEofData⟩], none) ∧
    ∃ mr, ctx.findDmabuf sge.lkey = some mr ∧ mr.Contains sge ∧ mr.start sge = 8192 ∧
      ¬ ctx.SendsAddressed mr sge := by
  intro ctx sge b
  let mr : Mr := ⟨0x7f0000001010, 0, 8192, 0x1010, 0x1010, .dmabuf, 0, 0, 0, 5, 4096, 0x10000⟩
  have hfind : ctx.findDmabuf sge.lkey = some mr := by decide
  have hin : mr.Contains sge := by
    rw [Mr.Contains]
    decide
  refine ⟨by decide +kernel, mr, hfind, hin, by decide, fun h => ?_⟩
  have hstart := (VerbsContext.sendsAddressed_iff hfind (by decide)).mp h
  exact absurd hstart (by decide)

end OdinLink
