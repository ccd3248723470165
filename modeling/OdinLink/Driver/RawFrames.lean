import OdinLink.Driver.Wire
import OdinLink.Lib.Tiling

/-!
# The frames of a raw transfer

`SEND` transmits from the shared TX buffer, the dma-buf requests from the memory of a dma-buf. Both
cut the range into frames of at most 4096 bytes and put no header in front of them.
-/

namespace OdinLink

/-- `struct ring_frame`. -/
structure FrameDesc where
  bufferPhy : UInt64
  size : BitVec 12
  sof : Nat
  eof : Nat
  deriving DecidableEq, Repr

/-- The bytes that the hardware moves: a size of 0 stands for 4096. -/
def FrameDesc.length (f : FrameDesc) : Nat := if f.size = 0 then frameSize else f.size.toNat

theorem FrameDesc.length_of_sizeField {f : FrameDesc} {n : Nat} (hf : f.size = sizeField n)
    (h0 : 0 < n) (hn : n ≤ frameSize) : f.length = n := by
  simp only [frameSize] at hn
  unfold FrameDesc.length
  rw [hf]
  split
  · rename_i hzero
    have hmod : n % 4096 = 0 := by rw [← sizeField_toNat, hzero]; rfl
    simp only [frameSize]
    omega
  · rename_i hne
    have hmod : n % 4096 ≠ 0 := fun hmod => hne (BitVec.eq_of_toNat_eq (by simpa using hmod))
    rw [sizeField_toNat]
    omega

theorem FrameDesc.length_bounds (f : FrameDesc) : 1 ≤ f.length ∧ f.length ≤ frameSize := by
  unfold FrameDesc.length
  have hlt := f.size.isLt
  split
  · decide
  · rename_i hne
    have hpos : f.size.toNat ≠ 0 := fun h0 => hne (BitVec.eq_of_toNat_eq h0)
    simp only [frameSize]
    omega

abbrev Ram := UInt64 → UInt8

def Ram.read (ram : Ram) (a : UInt64) (n : Nat) : List UInt8 :=
  (List.range n).map fun k => ram (a + UInt64.ofNat k)

def FrameDesc.bytes (ram : Ram) (f : FrameDesc) : List UInt8 := ram.read f.bufferPhy f.length

inductive RawError where
  | fault
  | notConn
  | noEnt
  | inval
  | noSpc
  | dmabuf
  | ring
  deriving DecidableEq, Repr

structure DmaBuf where
  phys : UInt64
  size : UInt64
  deriving DecidableEq, Repr

/-- `DIV_ROUND_UP` in `size_t`, kept in an `int`; a loop to a negative bound is not entered. -/
def rawFrameCount (len : UInt64) : Nat := ((len + 4095) / 4096).toUInt32.toInt32.toInt.toNat

def rawFrame (base : UInt64) (ctrl : Bool) (i remaining : Nat) : FrameDesc :=
  ⟨base + UInt64.ofNat i * 4096, sizeField (min frameSize remaining),
    if ctrl then pdfSofCtrl else pdfSofData, if ctrl then pdfEofCtrl else pdfEofData⟩

/-- What remains is reduced by the size that is read back from the frame: by nothing after a full
frame. -/
def txFrames (base : UInt64) (ctrl : Bool) (i remaining : Nat) : Nat → List FrameDesc
  | 0 => []
  | n + 1 =>
    let frame := rawFrame base ctrl i remaining
    frame :: txFrames base ctrl (i + 1) (remaining - frame.size.toNat) n

/-- The sum of offset and length wraps before it is compared with the size of the buffer. -/
def bufFrames (buf : DmaBuf) (offset len : UInt64) (ctrl : Bool) :
    Except RawError (List FrameDesc) :=
  if buf.size < offset + len then .error .inval
  else .ok (txFrames (buf.phys + offset) ctrl 0 len.toNat (rawFrameCount len))

section Count

theorem rawFrameCount_eq {len : UInt64} (hlen : len.toNat ≤ 2147483648) :
    rawFrameCount len = (len.toNat + 4095) / 4096 := by
  have hdiv : ((len + 4095) / 4096).toNat = (len.toNat + 4095) / 4096 := by
    rw [UInt64.toNat_div, UInt64.toNat_add]
    have h2 : (4095 : UInt64).toNat = 4095 := rfl
    have h3 : (4096 : UInt64).toNat = 4096 := rfl
    rw [h2, h3, Nat.mod_eq_of_lt (by omega)]
  have hsmall : ((len + 4095) / 4096).toUInt32.toNat = (len.toNat + 4095) / 4096 := by
    rw [UInt64.toNat_toUInt32, hdiv]
    omega
  have hint : ((len + 4095) / 4096).toUInt32.toInt32.toInt =
      ((len.toNat + 4095) / 4096 : Nat) := by
    change ((len + 4095) / 4096).toUInt32.toBitVec.toInt = _
    rw [BitVec.toInt_eq_toNat_of_lt, UInt32.toNat_toBitVec, hsmall]
    rw [UInt32.toNat_toBitVec, hsmall]
    omega
  rw [rawFrameCount, hint, Int.toNat_natCast]

theorem rawFrameCount_le (len : UInt64) : rawFrameCount len ≤ (len.toNat + 4095) / 4096 := by
  have hdiv : ((len + 4095) / 4096).toNat ≤ (len.toNat + 4095) / 4096 := by
    rw [UInt64.toNat_div, UInt64.toNat_add]
    exact Nat.div_le_div_right (Nat.mod_le _ _)
  have hmod : ((len + 4095) / 4096).toUInt32.toNat ≤ ((len + 4095) / 4096).toNat := by
    rw [UInt64.toNat_toUInt32]
    exact Nat.mod_le _ _
  have hint : ((len + 4095) / 4096).toUInt32.toInt32.toInt.toNat ≤
      ((len + 4095) / 4096).toUInt32.toNat := by
    change ((len + 4095) / 4096).toUInt32.toBitVec.toInt.toNat ≤ _
    rw [BitVec.toInt_eq_toNat_cond]
    split
    · rfl
    · have hlt := ((len + 4095) / 4096).toUInt32.toBitVec.isLt
      omega
  exact Nat.le_trans hint (Nat.le_trans hmod hdiv)

theorem txFrames_eq (base : UInt64) (ctrl : Bool) {i remaining n : Nat}
    (hn : remaining < frameSize → n ≤ 1) :
    txFrames base ctrl i remaining n =
      (List.range n).map fun k => rawFrame base ctrl (i + k) remaining := by
  induction n generalizing i with
  | zero => rfl
  | succ n ih =>
    rw [List.range_succ_eq_map, List.map_cons, List.map_map, txFrames]
    by_cases hfull : frameSize ≤ remaining
    · -- the size of a full frame reads back as 0
      have hback : (rawFrame base ctrl i remaining).size.toNat = 0 := by
        rw [rawFrame, sizeField_toNat, Nat.min_eq_left hfull, frameSize]
      rw [hback, Nat.sub_zero, ih fun h => absurd hfull (Nat.not_le.mpr h)]
      refine congrArg _ (List.map_congr_left fun k _ => ?_)
      rw [Function.comp_apply, Nat.succ_eq_add_one]
      ac_rfl
    · have h0 : n = 0 := Nat.le_zero.mp (Nat.le_of_succ_le_succ (hn (Nat.not_le.mp hfull)))
      subst h0
      rfl

/-- All frames of a range have one size: its length, or that of a full frame. -/
theorem bufFrames_ok {buf : DmaBuf} {offset len : UInt64} {ctrl : Bool} {fs : List FrameDesc}
    (h : bufFrames buf offset len ctrl = .ok fs) :
    ¬ buf.size < offset + len ∧ fs = (List.range (rawFrameCount len)).map fun k =>
      rawFrame (buf.phys + offset) ctrl k len.toNat := by
  unfold bufFrames at h
  split at h
  · cases h
  · rename_i hsize
    refine ⟨hsize, ?_⟩
    rw [← Except.ok.inj h, txFrames_eq]
    · simp only [Nat.zero_add]
    · intro hlen
      have hcount := rawFrameCount_le len
      simp only [frameSize] at hlen
      omega

theorem rawFrame_length (base : UInt64) (ctrl : Bool) (i : Nat) {remaining : Nat}
    (h : 0 < remaining) : (rawFrame base ctrl i remaining).length = min frameSize remaining := by
  apply FrameDesc.length_of_sizeField rfl
  · simp only [frameSize]
    omega
  · exact Nat.min_le_left _ _

end Count

structure SgEntry where
  addr : UInt64
  len : Nat
  deriving DecidableEq, Repr

structure DmaBufObj where
  size : UInt64
  sgt : List SgEntry
  attaches : Bool
  maps : Bool
  deriving DecidableEq, Repr

/-- The frames of one segment, and what is left to send after it. Every round takes at least one
byte, so the length of the segment bounds the number of rounds. -/
def sgFrames : Nat → UInt64 → Nat → Nat → List FrameDesc × Nat
  | 0, _, _, total => ([], total)
  | rounds + 1, addr, rest, total =>
    if 0 < rest ∧ 0 < total then
      let chunk := min frameSize (min rest total)
      let r := sgFrames rounds (addr + UInt64.ofNat chunk) (rest - chunk) (total - chunk)
      (⟨addr, sizeField chunk, pdfSofData, pdfEofData⟩ :: r.1, r.2)
    else ([], total)

/-- The walk over the segments, the first `skip` bytes of which are passed over. -/
def sgtFrames : List SgEntry → Nat → Nat → List FrameDesc
  | [], _, _ => []
  | sg :: sgs, skip, total =>
    if 0 < skip ∧ sg.len ≤ skip then sgtFrames sgs (skip - sg.len) total
    else
      let r := sgFrames sg.len (sg.addr + UInt64.ofNat skip) (sg.len - skip) total
      if r.2 = 0 then r.1 else r.1 ++ sgtFrames sgs 0 r.2

/-- `offset` is a `loff_t`; its sum with the length is a `size_t` and wraps. -/
def DmaBufObj.frames (b : DmaBufObj) (offset : Int64) (len : UInt64) :
    Except RawError (List FrameDesc) :=
  if offset < 0 ∨ len = 0 ∨ b.size < offset.toUInt64 + len then .error .inval
  else if !b.attaches then .error .dmabuf
  else if !b.maps then .error .dmabuf
  else .ok (sgtFrames b.sgt offset.toUInt64.toNat len.toNat)

/-! ## Handing frames to a ring -/

def ringTxAll (refuses : Nat → Option RawError) (i : Nat) :
    List FrameDesc → List FrameDesc × Option RawError
  | [] => ([], none)
  | f :: fs =>
    match refuses i with
    | some e => ([], some e)
    | none =>
      let r := ringTxAll refuses (i + 1) fs
      (f :: r.1, r.2)

section RingTx

variable {refuses : Nat → Option RawError} {i : Nat} {fs : List FrameDesc}

theorem ringTxAll_prefix : (ringTxAll refuses i fs).1 <+: fs := by
  induction fs generalizing i with
  | nil => exact List.prefix_refl _
  | cons f fs ih =>
    unfold ringTxAll
    split
    · exact List.nil_prefix
    · exact (List.prefix_cons_inj f).mpr ih

theorem ringTxAll_ne_nil_iff : (ringTxAll refuses i fs).1 ≠ [] ↔ fs ≠ [] ∧ refuses i = none := by
  cases fs with
  | nil => simp [ringTxAll]
  | cons f fs =>
    rw [ringTxAll]
    cases refuses i <;> simp

theorem ringTxAll_none_iff :
    (ringTxAll refuses i fs).2 = none ↔ ∀ k < fs.length, refuses (i + k) = none := by
  induction fs generalizing i with
  | nil => simp [ringTxAll]
  | cons f fs ih =>
    rw [List.length_cons, Nat.forall_lt_succ_left, Nat.add_zero, ringTxAll]
    cases hi : refuses i with
    | some e => simp
    | none =>
      dsimp only
      rw [ih]
      simp only [true_and, Nat.add_assoc, Nat.add_comm 1]

theorem ringTxAll_eq_iff :
    (ringTxAll refuses i fs).1 = fs ↔ ∀ k < fs.length, refuses (i + k) = none := by
  induction fs generalizing i with
  | nil => simp [ringTxAll]
  | cons f fs ih =>
    rw [List.length_cons, Nat.forall_lt_succ_left, Nat.add_zero, ringTxAll]
    cases hi : refuses i with
    | some e => simp
    | none =>
      dsimp only
      rw [List.cons_inj_right, ih]
      simp only [true_and, Nat.add_assoc, Nat.add_comm 1]

/-- A frame is handed over when the ring refuses neither it nor one before it. -/
theorem mem_ringTxAll_iff {f : FrameDesc} : f ∈ (ringTxAll refuses i fs).1 ↔
    ∃ j, fs[j]? = some f ∧ ∀ k ≤ j, refuses (i + k) = none := by
  induction fs generalizing i with
  | nil => simp [ringTxAll]
  | cons g fs ih =>
    rw [ringTxAll]
    cases hi : refuses i with
    | some e =>
      refine ⟨fun h => absurd h List.not_mem_nil, fun ⟨j, _, hj⟩ => ?_⟩
      have h0 := hj 0 (Nat.zero_le j)
      rw [Nat.add_zero, hi] at h0
      cases h0
    | none =>
      dsimp only
      rw [List.mem_cons, ih]
      constructor
      · rintro (rfl | ⟨j, hj, htaken⟩)
        · refine ⟨0, rfl, fun k hk => ?_⟩
          rw [Nat.le_zero.mp hk, Nat.add_zero, hi]
        · refine ⟨j + 1, hj, fun k hk => ?_⟩
          cases k with
          | zero => exact hi
          | succ k =>
            rw [Nat.add_comm k, ← Nat.add_assoc]
            exact htaken k (Nat.le_of_succ_le_succ hk)
      · rintro ⟨j, hj, htaken⟩
        cases j with
        | zero => exact .inl (Option.some.inj hj).symm
        | succ j =>
          refine .inr ⟨j, hj, fun k hk => ?_⟩
          rw [Nat.add_assoc, Nat.add_comm 1]
          exact htaken (k + 1) (Nat.succ_le_succ hk)

end RingTx

/-! ## The parts of a range -/

/-- The intersections of a range with the segments. -/
def rangeParts : List SgEntry → Nat → Nat → List SgEntry
  | [], _, _ => []
  | sg :: sgs, skip, total =>
    let len := min (sg.len - skip) total
    ⟨sg.addr + UInt64.ofNat skip, len⟩ :: rangeParts sgs (skip - sg.len) (total - len)

def SgEntry.frameCount (part : SgEntry) : Nat := (part.len + 4095) / 4096

def SgEntry.frame (part : SgEntry) (k : Nat) : FrameDesc :=
  ⟨part.addr + UInt64.ofNat (4096 * k), sizeField (min frameSize (part.len - 4096 * k)),
    pdfSofData, pdfEofData⟩

def SgEntry.cut (part : SgEntry) : List FrameDesc := (List.range part.frameCount).map part.frame

section Parts

@[simp] theorem SgEntry.cut_length (part : SgEntry) : part.cut.length = part.frameCount := by
  simp [cut]

theorem SgEntry.cut_getElem? {part : SgEntry} {k : Nat} {f : FrameDesc} :
    part.cut[k]? = some f ↔ k < part.frameCount ∧ part.frame k = f := by
  rw [cut, List.getElem?_eq_some_iff]
  simp

theorem SgEntry.frame_length {part : SgEntry} {k : Nat} (hk : k < part.frameCount) :
    (part.frame k).length = min frameSize (part.len - 4096 * k) := by
  unfold frameCount at hk
  apply FrameDesc.length_of_sizeField rfl
  · simp only [frameSize]
    omega
  · exact Nat.min_le_left _ _

theorem SgEntry.cut_empty (addr : UInt64) : (⟨addr, 0⟩ : SgEntry).cut = [] :=
  List.length_eq_zero_iff.mp (by simp [SgEntry.frameCount])

theorem sgFrames_eq {rounds rest : Nat} (hrounds : rest ≤ rounds) (addr : UInt64) (total : Nat) :
    sgFrames rounds addr rest total =
      ((⟨addr, min rest total⟩ : SgEntry).cut, total - min rest total) := by
  induction rounds generalizing addr rest total with
  | zero =>
    rw [Nat.le_zero.mp hrounds, Nat.zero_min, SgEntry.cut_empty]
    rfl
  | succ rounds ih =>
    unfold sgFrames
    split
    · rename_i hmore
      obtain ⟨len, hlen⟩ : ∃ len, len = min rest total := ⟨_, rfl⟩
      obtain ⟨chunk, hchunk⟩ : ∃ chunk, chunk = min 4096 len := ⟨_, rfl⟩
      have hrest : min (rest - chunk) (total - chunk) = len - chunk := by omega
      have hcount : (len + 4095) / 4096 = (len - chunk + 4095) / 4096 + 1 := by omega
      simp only [frameSize, ← hlen, ← hchunk]
      rw [ih (by omega), hrest]
      simp only [SgEntry.cut, SgEntry.frameCount]
      rw [hcount, List.range_succ_eq_map, List.map_cons, List.map_map]
      refine Prod.ext (congrArg₂ _ ?_ (List.map_congr_left fun k hk => ?_)) ?_
      · simp [hchunk, SgEntry.frame, frameSize]
      · -- where another piece follows, this one was full
        have hfull : chunk = 4096 := by
          have hk' := List.mem_range.mp hk
          omega
        have hsize : len - 4096 - 4096 * k = len - 4096 * (k + 1) := by omega
        rw [Function.comp_apply, Nat.succ_eq_add_one, hfull, SgEntry.frame, SgEntry.frame, hsize,
          UInt64.add_assoc, ← UInt64.ofNat_add, Nat.mul_add, Nat.mul_one, Nat.add_comm 4096]
      · dsimp only
        omega
    · have h0 : min rest total = 0 := by omega
      rw [h0, SgEntry.cut_empty]
      rfl

theorem rangeParts_zero (sgs : List SgEntry) (skip : Nat) :
    (rangeParts sgs skip 0).flatMap SgEntry.cut = [] := by
  induction sgs generalizing skip with
  | nil => rfl
  | cons sg sgs ih =>
    rw [rangeParts, Nat.min_zero, List.flatMap_cons, SgEntry.cut_empty]
    exact ih _

/-- The walk cuts each part into full frames and one for what is left of it. -/
theorem sgtFrames_eq (sgs : List SgEntry) (skip total : Nat) :
    sgtFrames sgs skip total = (rangeParts sgs skip total).flatMap SgEntry.cut := by
  induction sgs generalizing skip total with
  | nil => rfl
  | cons sg sgs ih =>
    rw [sgtFrames, rangeParts, List.flatMap_cons]
    split
    · have h0 : min (sg.len - skip) total = 0 := by omega
      rw [ih, h0, SgEntry.cut_empty]
      rfl
    · rename_i hskip
      have hnext : skip - sg.len = 0 := by omega
      dsimp only
      rw [sgFrames_eq (Nat.sub_le _ _), hnext]
      dsimp only
      split
      · rename_i hdone
        rw [hdone, rangeParts_zero, List.append_nil]
      · rw [ih]

end Parts

/-! ## The requests -/

structure RawSender where
  state : ConnState
  txStarted : Bool
  txBuf : DmaBuf
  ringSize : Nat
  streams : UInt8 → Bool

structure RawEnv where
  copyFromUser : Bool
  dmaBufGet : Int32 → Option DmaBufObj
  ringTx : Nat → Bool

inductive RawRequest where
  | send (offset len : UInt64) (flags : UInt32)
  | sendDmabuf (dmabufFd : Int32) (offset : Int64) (len : UInt64)
  | streamSendDmabuf (streamId dstId : UInt8) (dmabufFd : Int32) (offset len : UInt64)
  deriving DecidableEq, Repr

def RawRequest.destination : RawRequest → Option UInt8
  | .streamSendDmabuf _ dstId _ _ _ => some dstId
  | _ => none

/-- The range checks and calls of `odl_tb5_submit_tx_dmabuf` before the walk. -/
def DmaBufObj.Admits (b : DmaBufObj) (offset : Int64) (len : UInt64) : Prop :=
  ¬ (offset < 0 ∨ len = 0 ∨ b.size < offset.toUInt64 + len) ∧ b.attaches ∧ b.maps

theorem DmaBufObj.frames_eq (b : DmaBufObj) (offset : Int64) (len : UInt64) :
    (∃ e, b.frames offset len = .error e ∧ ¬ b.Admits offset len) ∨
      b.frames offset len = .ok ((rangeParts b.sgt offset.toUInt64.toNat len.toNat).flatMap
        SgEntry.cut) ∧ b.Admits offset len := by
  unfold DmaBufObj.frames DmaBufObj.Admits
  split
  · exact .inl ⟨_, rfl, fun h => h.1 ‹_›⟩
  split
  · exact .inl ⟨_, rfl, by simp_all⟩
  split
  · exact .inl ⟨_, rfl, by simp_all⟩
  · rw [sgtFrames_eq]
    exact .inr ⟨rfl, by simp_all⟩

/-- What the ring answers to the `i`-th frame of a transfer. -/
def RawEnv.refuses (env : RawEnv) (i : Nat) : Option RawError :=
  if env.ringTx i then none else some .ring

/-- The same for a dma-buf transfer, which counts its frames. -/
def RawEnv.dmabufRefuses (env : RawEnv) (ringSize i : Nat) : Option RawError :=
  if ringSize ≤ i then some .noSpc else env.refuses i

/-- The body that `odl_tb5_submit_tx_dmabuf` and `odl_tb5_submit_rx_dmabuf` have in common. -/
def submitDmabuf (linked : Bool) (ringSize : Nat) (env : RawEnv) (dmabufFd : Int32)
    (offset : Int64) (len : UInt64) : List FrameDesc × Option RawError :=
  if !linked then ([], some .notConn)
  else match env.dmaBufGet dmabufFd with
    | none => ([], some .dmabuf)
    | some b =>
      match b.frames offset len with
      | .error e => ([], some e)
      | .ok fs => ringTxAll (env.dmabufRefuses ringSize) 0 fs

namespace RawSender

def linked (node : RawSender) : Bool := node.state = .connected || node.state = .ready

/-- The frames a submission hands to the ring, and the error it returns. A drain of the frames
posted before comes first and changes neither. -/
def submitTx (node : RawSender) (env : RawEnv) (offset len : UInt64) (ctrl : Bool) :
    List FrameDesc × Option RawError :=
  if !node.linked && !node.txStarted then ([], some .notConn)
  else match bufFrames node.txBuf offset len ctrl with
    | .error e => ([], some e)
    | .ok fs => ringTxAll env.refuses 0 fs

def submitTxDmabuf (node : RawSender) (env : RawEnv) (dmabufFd : Int32) (offset : Int64)
    (len : UInt64) : List FrameDesc × Option RawError :=
  submitDmabuf node.linked node.ringSize env dmabufFd offset len

/-- The destination of a stream request is copied from the user and not looked at again. -/
def ioctl (node : RawSender) (env : RawEnv) (req : RawRequest) :
    List FrameDesc × Option RawError :=
  if !env.copyFromUser then ([], some .fault)
  else match req with
    | .send offset len flags =>
      if !node.linked then ([], some .notConn)
      else node.submitTx env offset len (flags &&& 1 != 0)
    | .sendDmabuf dmabufFd offset len =>
      if !node.linked then ([], some .notConn)
      else node.submitTxDmabuf env dmabufFd offset len
    | .streamSendDmabuf streamId _ dmabufFd offset len =>
      if !node.streams streamId then ([], some .noEnt)
      else node.submitTxDmabuf env dmabufFd offset.toInt64 len

def wire (node : RawSender) (env : RawEnv) (req : RawRequest) (ram : Ram) : List (List UInt8) :=
  (node.ioctl env req).1.map (FrameDesc.bytes ram)

/-- A request passes the checks that stand before its first frame. -/
def Admits (node : RawSender) (env : RawEnv) : RawRequest → Prop
  | .send offset len _ =>
    env.copyFromUser ∧ node.linked ∧ ¬ node.txBuf.size < offset + len
  | .sendDmabuf dmabufFd offset len =>
    env.copyFromUser ∧ node.linked ∧ ∃ b ∈ env.dmaBufGet dmabufFd, b.Admits offset len
  | .streamSendDmabuf streamId _ dmabufFd offset len =>
    env.copyFromUser ∧ node.streams streamId ∧ node.linked ∧
      ∃ b ∈ env.dmaBufGet dmabufFd, b.Admits offset.toInt64 len

end RawSender

/-- The parts of memory that a dma-buf request names. -/
def RawEnv.dmabufParts (env : RawEnv) (dmabufFd : Int32) (offset len : UInt64) : List SgEntry :=
  (env.dmaBufGet dmabufFd).elim [] fun b => rangeParts b.sgt offset.toNat len.toNat

section Admitted

variable {node : RawSender} {env : RawEnv}

theorem submitDmabuf_cases (linked : Bool) (ringSize : Nat) (env : RawEnv) (dmabufFd : Int32)
    (offset : Int64) (len : UInt64) :
    ¬ (linked ∧ ∃ b ∈ env.dmaBufGet dmabufFd, b.Admits offset len) ∧
        (∃ e, submitDmabuf linked ringSize env dmabufFd offset len = ([], some e)) ∨
      (linked ∧ ∃ b ∈ env.dmaBufGet dmabufFd, b.Admits offset len) ∧
        submitDmabuf linked ringSize env dmabufFd offset len =
          ringTxAll (env.dmabufRefuses ringSize) 0
            ((env.dmabufParts dmabufFd offset.toUInt64 len).flatMap SgEntry.cut) := by
  unfold submitDmabuf RawEnv.dmabufParts
  cases linked with
  | false => exact .inl ⟨by simp, _, rfl⟩
  | true =>
    cases env.dmaBufGet dmabufFd with
    | none => exact .inl ⟨by simp, _, rfl⟩
    | some b =>
      dsimp only [Option.elim]
      rcases b.frames_eq offset len with ⟨e, he, hno⟩ | ⟨hok, hyes⟩
      · rw [he]
        exact .inl ⟨by simpa using hno, e, rfl⟩
      · rw [hok]
        exact .inr ⟨⟨rfl, b, rfl, hyes⟩, rfl⟩

def RawEnv.parts (env : RawEnv) : RawRequest → List SgEntry
  | .send .. => []
  | .sendDmabuf dmabufFd offset len => env.dmabufParts dmabufFd offset.toUInt64 len
  | .streamSendDmabuf _ _ dmabufFd offset len => env.dmabufParts dmabufFd offset len

theorem RawEnv.refuses_eq_none {i : Nat} : env.refuses i = none ↔ env.ringTx i := by
  simp [RawEnv.refuses]

section Ioctl

variable {req : RawRequest} {f : FrameDesc}

theorem ioctl_send {offset len : UInt64} {flags : UInt32}
    (h : node.Admits env (.send offset len flags)) :
    ∃ ctrl, node.ioctl env (.send offset len flags) =
      ringTxAll env.refuses 0 ((List.range (rawFrameCount len)).map fun k =>
        rawFrame (node.txBuf.phys + offset) ctrl k len.toNat) := by
  obtain ⟨hcopy, hlinked, hsize⟩ := h
  refine ⟨flags &&& 1 != 0, ?_⟩
  have hok : bufFrames node.txBuf offset len (flags &&& 1 != 0) = .ok _ := if_neg hsize
  simp only [RawSender.ioctl, RawSender.submitTx, hcopy, hlinked, hok, (bufFrames_ok hok).2]
  rfl

theorem ioctl_dmabuf (h : node.Admits env req)
    (hreq : ∀ offset len flags, req ≠ .send offset len flags) :
    node.ioctl env req = ringTxAll (env.dmabufRefuses node.ringSize) 0
      ((env.parts req).flatMap SgEntry.cut) := by
  cases req with
  | send offset len flags => exact absurd rfl (hreq offset len flags)
  | sendDmabuf dmabufFd offset len =>
    obtain ⟨hcopy, hlinked, hb⟩ := h
    rcases submitDmabuf_cases node.linked node.ringSize env dmabufFd offset len with hno | hyes
    · exact absurd ⟨hlinked, hb⟩ hno.1
    · simp only [RawSender.ioctl, RawSender.submitTxDmabuf, hcopy, hyes.2]
      rw [hlinked]
      rfl
  | streamSendDmabuf streamId dstId dmabufFd offset len =>
    obtain ⟨hcopy, hopen, hlinked, hb⟩ := h
    rcases submitDmabuf_cases node.linked node.ringSize env dmabufFd offset.toInt64 len with
      hno | hyes
    · exact absurd ⟨hlinked, hb⟩ hno.1
    · rw [UInt64.toUInt64_toInt64] at hyes
      simp only [RawSender.ioctl, RawSender.submitTxDmabuf, hcopy, hopen, hyes.2]
      rfl

theorem ioctl_refused (h : ¬ node.Admits env req) : (node.ioctl env req).1 = [] := by
  unfold RawSender.ioctl
  split
  · rfl
  rename_i hcopy
  rw [Bool.not_eq_true, Bool.not_eq_false'] at hcopy
  cases req with
  | send offset len flags =>
    dsimp only
    split
    · rfl
    rename_i hlinked
    have hsize : node.txBuf.size < offset + len := by
      by_contra hsize
      exact h ⟨hcopy, by simpa using hlinked, hsize⟩
    simp only [RawSender.submitTx, bufFrames, if_pos hsize]
    split <;> rfl
  | sendDmabuf dmabufFd offset len =>
    dsimp only
    split
    · rfl
    rcases submitDmabuf_cases node.linked node.ringSize env dmabufFd offset len with
      ⟨_, e, he⟩ | hyes
    · rw [RawSender.submitTxDmabuf, he]
    · exact absurd ⟨hcopy, hyes.1⟩ h
  | streamSendDmabuf streamId dstId dmabufFd offset len =>
    dsimp only
    split
    · rfl
    rename_i hopen
    rcases submitDmabuf_cases node.linked node.ringSize env dmabufFd offset.toInt64 len with
      ⟨_, e, he⟩ | hyes
    · rw [RawSender.submitTxDmabuf, he]
    · exact absurd ⟨hcopy, by simpa using hopen, hyes.1⟩ h

end Ioctl

end Admitted

end OdinLink
