import OdinLink.Driver.RawFrames
import OdinLink.Proto.Node

/-!
# The ranges of raw transfers

Whether the descriptors handed to the ring lie in the range that was asked for and fill it depends
on the sum `offset + len`, which is compared with the bound in 64 bits, and for `SEND` and `RECV` on
the 12 bits of a frame's size, from which the loops take what remains.
-/

namespace OdinLink

/-! ## The receiving side -/

structure RawReceiver where
  state : ConnState
  rxStarted : Bool
  framesPosted : Bool
  swappedSincePost : Bool
  rxBuf : DmaBuf
  ringSize : Nat
  streams : UInt8 → Bool

inductive RawRxRequest where
  | recv (offset len : UInt64) (flags : UInt32)
  | recvDmabuf (dmabufFd : Int32) (offset : Int64) (len : UInt64)
  | streamRecvDmabuf (streamId : UInt8) (dmabufFd : Int32) (offset len : UInt64)
  deriving DecidableEq, Repr

namespace RawReceiver

def linked (node : RawReceiver) : Bool := node.state = .connected || node.state = .ready

/-- Frames that are posted and not swapped since stay where they are. `env.ringTx` says what
`tb_ring_rx` answers here. -/
def submitRx (node : RawReceiver) (env : RawEnv) (offset len : UInt64) :
    List FrameDesc × Option RawError :=
  if !node.linked && !node.rxStarted then ([], some .notConn)
  else if node.framesPosted && !node.swappedSincePost then ([], none)
  else match bufFrames node.rxBuf offset len false with
    | .error e => ([], some e)
    | .ok fs => ringTxAll env.refuses 0 fs

def submitRxDmabuf (node : RawReceiver) (env : RawEnv) (dmabufFd : Int32) (offset : Int64)
    (len : UInt64) : List FrameDesc × Option RawError :=
  submitDmabuf node.linked node.ringSize env dmabufFd offset len

def ioctl (node : RawReceiver) (env : RawEnv) (req : RawRxRequest) :
    List FrameDesc × Option RawError :=
  if !env.copyFromUser then ([], some .fault)
  else match req with
    | .recv offset len _ =>
      if !node.linked then ([], some .notConn)
      else node.submitRx env offset len
    | .recvDmabuf dmabufFd offset len =>
      if !node.linked then ([], some .notConn)
      else node.submitRxDmabuf env dmabufFd offset len
    | .streamRecvDmabuf streamId dmabufFd offset len =>
      if !node.streams streamId then ([], some .noEnt)
      else node.submitRxDmabuf env dmabufFd offset.toInt64 len

/-- A `RECV` passes the checks that stand before its first frame. -/
def Admits (node : RawReceiver) (env : RawEnv) (offset len : UInt64) : Prop :=
  env.copyFromUser ∧ node.linked ∧ (node.framesPosted → node.swappedSincePost) ∧
    ¬ node.rxBuf.size < offset + len

end RawReceiver

structure RawDevice where
  sender : RawSender
  receiver : RawReceiver
  tx_sized : sender.txBuf.size.toNat = sender.ringSize * frameSize
  rx_sized : receiver.rxBuf.size.toNat = receiver.ringSize * frameSize
  tx_depth : sender.ringSize ≤ Proto.ringSizeMax
  rx_depth : receiver.ringSize ≤ Proto.ringSizeMax

inductive Direction where
  | tx
  | rx
  deriving DecidableEq, Repr

namespace RawDevice

variable (dev : RawDevice)

def front : Direction → DmaBuf
  | .tx => dev.sender.txBuf
  | .rx => dev.receiver.rxBuf

def ringSize : Direction → Nat
  | .tx => dev.sender.ringSize
  | .rx => dev.receiver.ringSize

def transfer (env : RawEnv) (offset len : UInt64) (flags : UInt32) :
    Direction → List FrameDesc × Option RawError
  | .tx => dev.sender.ioctl env (.send offset len flags)
  | .rx => dev.receiver.ioctl env (.recv offset len flags)

def Admits (env : RawEnv) (offset len : UInt64) (flags : UInt32) : Direction → Prop
  | .tx => dev.sender.Admits env (.send offset len flags)
  | .rx => dev.receiver.Admits env offset len

def linked : Direction → Bool
  | .tx => dev.sender.linked
  | .rx => dev.receiver.linked

def submitDmabuf (env : RawEnv) (dmabufFd : Int32) (offset : Int64) (len : UInt64) :
    Direction → List FrameDesc × Option RawError
  | .tx => dev.sender.submitTxDmabuf env dmabufFd offset len
  | .rx => dev.receiver.submitRxDmabuf env dmabufFd offset len

theorem front_sized (dir : Direction) :
    (dev.front dir).size.toNat = dev.ringSize dir * frameSize := by
  cases dir with
  | tx => exact dev.tx_sized
  | rx => exact dev.rx_sized

theorem ringSize_le (dir : Direction) : dev.ringSize dir ≤ Proto.ringSizeMax := by
  cases dir with
  | tx => exact dev.tx_depth
  | rx => exact dev.rx_depth

end RawDevice

/-! ## The front buffer of a ring -/

def DmaBuf.Points (buf : DmaBuf) (p : Nat) (f : FrameDesc) : Prop :=
  f.bufferPhy = buf.phys + UInt64.ofNat p

def DmaBuf.Holds (buf : DmaBuf) (f : FrameDesc) : Prop :=
  (f.bufferPhy - buf.phys).toNat + f.length ≤ buf.size.toNat

structure DmaBuf.Transfers (buf : DmaBuf) (ringSize : Nat) (offset len : UInt64)
    (fs : List FrameDesc) : Prop where
  range : offset.toNat + len.toNat ≤ buf.size.toNat
  holds : ∀ f ∈ fs, buf.Holds f
  count : fs.length ≤ ringSize
  tiles : Tiles FrameDesc.length buf.Points offset.toNat fs (offset.toNat + len.toNat)

theorem DmaBuf.Points.holds {buf : DmaBuf} {p : Nat} {f : FrameDesc} (h : buf.Points p f)
    (hp : p + f.length ≤ buf.size.toNat) : buf.Holds f := by
  have hlt : p < 2 ^ 64 := Nat.lt_of_le_of_lt (by omega) buf.size.toNat_lt
  have hoff : f.bufferPhy - buf.phys = UInt64.ofNat p := by
    rw [h]
    grind
  unfold DmaBuf.Holds
  rwa [hoff, UInt64.toNat_ofNat_of_lt' hlt]

/-! ## `SEND` and `RECV` -/

section Transfer

variable (dev : RawDevice) (env : RawEnv) (offset len : UInt64) (flags : UInt32) (dir : Direction)

theorem transfer_refused {env : RawEnv} {offset len : UInt64}
    (h : ¬ dev.Admits env offset len flags dir) :
    (dev.transfer env offset len flags dir).1 = [] := by
  cases dir with
  | tx => exact ioctl_refused h
  | rx =>
    simp only [RawDevice.transfer, RawReceiver.ioctl, RawReceiver.submitRx]
    split
    · rfl
    rename_i hcopy
    split
    · rfl
    rename_i hlinked
    split
    · rfl
    split
    · rfl
    rename_i hposted
    have hsize : dev.receiver.rxBuf.size < offset + len := by
      by_contra hsize
      exact h ⟨by simpa using hcopy, by simpa using hlinked, by simpa using hposted, hsize⟩
    simp only [bufFrames, if_pos hsize]

variable {dev env offset len flags dir}

theorem transfer_eq (h : dev.Admits env offset len flags dir) :
    ∃ ctrl, dev.transfer env offset len flags dir =
      ringTxAll env.refuses 0 ((List.range (rawFrameCount len)).map fun k =>
        rawFrame ((dev.front dir).phys + offset) ctrl k len.toNat) := by
  cases dir with
  | tx => exact ioctl_send h
  | rx =>
    obtain ⟨hcopy, hlinked, hposted, hsize⟩ := h
    have hok : bufFrames dev.receiver.rxBuf offset len false = .ok _ := if_neg hsize
    have hfree : (dev.receiver.framesPosted && !dev.receiver.swappedSincePost) = false := by
      simpa using hposted
    refine ⟨false, ?_⟩
    simp only [RawDevice.transfer, RawReceiver.ioctl, RawReceiver.submitRx, hcopy, hlinked, hfree,
      hok, (bufFrames_ok hok).2]
    rfl

theorem not_size_lt (h : dev.Admits env offset len flags dir) :
    ¬ (dev.front dir).size < offset + len := by
  cases dir with
  | tx => exact h.2.2
  | rx => exact h.2.2.2

theorem rawFrameCount_of_range
    (hrange : offset.toNat + len.toNat ≤ (dev.front dir).size.toNat) :
    rawFrameCount len = (len.toNat + 4095) / 4096 := by
  apply rawFrameCount_eq
  rw [dev.front_sized dir, frameSize] at hrange
  have hdepth := dev.ringSize_le dir
  simp only [Proto.ringSizeMax] at hdepth
  omega

/-- The frames lie 4096 bytes apart and have one size, so they fill what they are cut from when it
is one frame or a number of full ones. -/
theorem range_transfers (ctrl : Bool) (h0 : 0 < len.toNat)
    (hrange : offset.toNat + len.toNat ≤ (dev.front dir).size.toNat)
    (hwhole : len.toNat < frameSize ∨ frameSize ∣ len.toNat) :
    (dev.front dir).Transfers (dev.ringSize dir) offset len
      ((List.range (rawFrameCount len)).map fun k =>
        rawFrame ((dev.front dir).phys + offset) ctrl k len.toNat) := by
  have hcount := rawFrameCount_of_range hrange
  have hsum : rawFrameCount len * min frameSize len.toNat = len.toNat := by
    simp only [frameSize] at hwhole ⊢
    rcases hwhole with hlt | hdvd
    · have h1 : rawFrameCount len = 1 := by omega
      rw [h1]
      omega
    · obtain ⟨m, hm⟩ := hdvd
      have h1 : rawFrameCount len = m := by omega
      rw [h1, Nat.min_eq_left (by omega)]
      omega
  have hplace : ∀ k < rawFrameCount len, (dev.front dir).Points
      (offset.toNat + k * min frameSize len.toNat)
      (rawFrame ((dev.front dir).phys + offset) ctrl k len.toNat) := by
    intro k hk
    have hmul : UInt64.ofNat (k * min frameSize len.toNat) = UInt64.ofNat k * 4096 := by
      by_cases hfull : frameSize ≤ len.toNat
      · rw [Nat.min_eq_left hfull, UInt64.ofNat_mul]
        rfl
      · have hk0 : k = 0 := by
          simp only [frameSize] at hfull
          omega
        rw [hk0, Nat.zero_mul]
        rfl
    simp only [DmaBuf.Points, rawFrame]
    rw [UInt64.ofNat_add, UInt64.ofNat_toNat, hmul, UInt64.add_assoc]
  have htiles := Tiles.range_map (fun k _ => rawFrame_length _ ctrl k h0) hplace
  rw [hsum] at htiles
  refine ⟨hrange, ?_, ?_, htiles⟩
  · intro f hf
    obtain ⟨p, hp, _, hend⟩ := htiles.mem hf
    exact hp.holds (by omega)
  · rw [List.length_map, List.length_range, hcount]
    rw [dev.front_sized dir, frameSize] at hrange
    omega

theorem le_of_not_lt_add {size : UInt64} (h : ¬ size < offset + len)
    (hwrap : offset.toNat + len.toNat < 2 ^ 64) : offset.toNat + len.toNat ≤ size.toNat := by
  have hle := UInt64.le_iff_toNat_le.mp (UInt64.not_lt.mp h)
  rwa [UInt64.toNat_add, Nat.mod_eq_of_lt hwrap] at hle

/-- Some of the frames fill the range only if all do: they have one size. -/
theorem whole_of_transfers {ctrl : Bool} {fs : List FrameDesc} (hne : fs ≠ [])
    (hpre : fs <+: (List.range (rawFrameCount len)).map fun k =>
      rawFrame ((dev.front dir).phys + offset) ctrl k len.toNat)
    (h : (dev.front dir).Transfers (dev.ringSize dir) offset len fs) :
    (len.toNat < frameSize ∨ frameSize ∣ len.toNat) ∧
      fs.length = (len.toNat + 4095) / 4096 := by
  have hcount := rawFrameCount_of_range h.range
  have hlen : fs.length ≤ rawFrameCount len := by simpa using hpre.length_le
  have hpos : 0 < fs.length := List.length_pos_iff.mpr hne
  have h0 : 0 < len.toNat := by omega
  have hsizes : fs.map FrameDesc.length = List.replicate fs.length (min frameSize len.toNat) := by
    rw [List.eq_replicate_iff, List.length_map]
    refine ⟨rfl, fun n hn => ?_⟩
    obtain ⟨f, hf, rfl⟩ := List.mem_map.mp hn
    obtain ⟨k, _, rfl⟩ := List.mem_map.mp (hpre.subset hf)
    exact rawFrame_length _ ctrl k h0
  have htotal := h.tiles.total
  rw [hsizes, List.sum_replicate_nat] at htotal
  simp only [frameSize] at htotal ⊢
  rw [hcount] at hlen
  by_cases hfull : 4096 ≤ len.toNat
  · rw [Nat.min_eq_left hfull] at htotal
    have hmul : len.toNat = fs.length * 4096 := by omega
    exact ⟨.inr ⟨fs.length, by omega⟩, by omega⟩
  · exact ⟨.inl (by omega), by omega⟩

variable (dev env offset len flags dir)

/-- A transfer that submits a frame stays in its buffer and fills its range exactly when the sum of
offset and length does not wrap, the range is less than one frame or a number of full ones, and the
ring takes every frame. -/
theorem transfer_inside_iff :
    ((dev.transfer env offset len flags dir).1 ≠ [] →
      (dev.front dir).Transfers (dev.ringSize dir) offset len
        (dev.transfer env offset len flags dir).1) ↔
    (dev.Admits env offset len flags dir → 0 < rawFrameCount len → env.ringTx 0 →
      offset.toNat + len.toNat < 2 ^ 64 ∧ (len.toNat < frameSize ∨ frameSize ∣ len.toNat) ∧
        ∀ i < (len.toNat + 4095) / 4096, env.ringTx i) := by
  by_cases hadm : dev.Admits env offset len flags dir
  · obtain ⟨ctrl, heq⟩ := transfer_eq hadm
    rw [heq]
    have hne : (ringTxAll env.refuses 0 ((List.range (rawFrameCount len)).map fun k =>
        rawFrame ((dev.front dir).phys + offset) ctrl k len.toNat)).1 ≠ [] ↔
        0 < rawFrameCount len ∧ env.ringTx 0 := by
      rw [ringTxAll_ne_nil_iff, RawEnv.refuses_eq_none, ← List.length_pos_iff, List.length_map,
        List.length_range]
    constructor
    · intro h _ hpos htaken
      have hfs := hne.mpr ⟨hpos, htaken⟩
      have htr := h hfs
      obtain ⟨hwhole, hall⟩ := whole_of_transfers hfs ringTxAll_prefix htr
      refine ⟨Nat.lt_of_le_of_lt htr.range (dev.front dir).size.toNat_lt, hwhole, ?_⟩
      -- as many frames were handed over as the range has
      have hcount := rawFrameCount_of_range htr.range
      have hsame := ringTxAll_prefix.eq_of_length (hall.trans (by simp [hcount]))
      intro i hi
      have htaken := ringTxAll_eq_iff.mp hsame i (by simpa [hcount] using hi)
      rwa [Nat.zero_add, RawEnv.refuses_eq_none] at htaken
    · intro h hfs
      obtain ⟨hwrap, hwhole, hall⟩ := h hadm (hne.mp hfs).1 (hne.mp hfs).2
      have hrange := le_of_not_lt_add (not_size_lt hadm) hwrap
      have hcount := rawFrameCount_of_range hrange
      have hpos := (hne.mp hfs).1
      rw [ringTxAll_eq_iff.mpr]
      · exact range_transfers ctrl (by omega) hrange hwhole
      · intro k hk
        rw [Nat.zero_add, RawEnv.refuses_eq_none]
        apply hall
        simpa [hcount] using hk
  · exact ⟨fun _ h => absurd h hadm, fun _ h => absurd (transfer_refused dev flags dir hadm) h⟩

end Transfer

def RawDevice.small : RawDevice where
  sender := ⟨.ready, true, ⟨0x100000, 0x40000⟩, 64, fun _ => false⟩
  receiver := ⟨.ready, true, false, false, ⟨0x200000, 0x40000⟩, 64, fun _ => false⟩
  tx_sized := by decide
  rx_sized := by decide
  tx_depth := by decide
  rx_depth := by decide

/-- The sum of the last page of the address space and its size is 0: the hardware is told to
transmit, or to overwrite, the page before the buffer. The last 5000 bytes of a buffer go out as two
full frames, of which the second ends behind it. -/
theorem frames_outside_the_buffer :
    let env : RawEnv := ⟨true, fun _ => none, fun _ => true⟩
    (RawDevice.small.transfer env 0xfffffffffffff000 0x1000 0 .tx).1 =
      [⟨0xff000, 0, pdfSofData, pdfEofData⟩] ∧
    (RawDevice.small.transfer env 0xfffffffffffff000 0x1000 0 .rx).1 =
      [⟨0x1ff000, 0, pdfSofData, pdfEofData⟩] ∧
    (∀ dir, ¬ ((RawDevice.small.transfer env 0xfffffffffffff000 0x1000 0 dir).1 ≠ [] →
      (RawDevice.small.front dir).Transfers (RawDevice.small.ringSize dir) 0xfffffffffffff000 0x1000
        (RawDevice.small.transfer env 0xfffffffffffff000 0x1000 0 dir).1)) ∧
    (RawDevice.small.transfer env 0x3ec78 5000 0 .tx).1 =
      [⟨0x13ec78, 0, pdfSofData, pdfEofData⟩, ⟨0x13fc78, 0, pdfSofData, pdfEofData⟩] ∧
    ¬ (RawDevice.small.front .tx).Holds ⟨0x13fc78, 0, pdfSofData, pdfEofData⟩ := by
  refine ⟨by decide, by decide, fun dir h => ?_, by decide +kernel, ?_⟩
  · have hrange : (0xfffffffffffff000 : UInt64).toNat + (0x1000 : UInt64).toNat ≤
        (RawDevice.small.front dir).size.toNat := (h (by cases dir <;> decide)).range
    cases dir <;> exact absurd hrange (by decide)
  · unfold DmaBuf.Holds
    decide

/-! ## The walk over a dma-buf -/

def SgEntry.Points (sg : SgEntry) (o : Nat) (f : FrameDesc) : Prop :=
  f.bufferPhy = sg.addr + UInt64.ofNat o ∧ o + f.length ≤ sg.len

def SgPoints (sgt : List SgEntry) (p : Nat) (f : FrameDesc) : Prop :=
  ∃ before sg after o, sgt = before ++ sg :: after ∧ p = (before.map SgEntry.len).sum + o ∧
    sg.Points o f

/-- The frames of a range: what each segment has of it, in pieces of 4096 bytes. -/
def DmaBufObj.frameCount (b : DmaBufObj) (offset len : Nat) : Nat :=
  ((rangeParts b.sgt offset len).map SgEntry.frameCount).sum

structure DmaBufObj.Covered (b : DmaBufObj) (ringSize offset len : Nat) (fs : List FrameDesc) :
    Prop where
  tiles : Tiles FrameDesc.length (SgPoints b.sgt) offset fs (offset + len)
  sizes : ∀ f ∈ fs, 1 ≤ f.length ∧ f.length ≤ frameSize
  count : fs.length ≤ ringSize

section Walk

variable {sg : SgEntry} {sgs : List SgEntry} {f : FrameDesc} {p : Nat}

theorem SgEntry.Points.head (sgs : List SgEntry) (h : sg.Points p f) : SgPoints (sg :: sgs) p f :=
  ⟨[], sg, sgs, p, rfl, by simp, h⟩

theorem SgPoints.tail (h : SgPoints sgs p f) : SgPoints (sg :: sgs) (sg.len + p) f := by
  obtain ⟨before, sg', after, o, rfl, rfl, hpoints⟩ := h
  refine ⟨sg :: before, sg', after, o, rfl, ?_, hpoints⟩
  rw [List.map_cons, List.sum_cons, Nat.add_assoc]

theorem SgPoints.end_le (h : SgPoints sgs p f) : p + f.length ≤ (sgs.map SgEntry.len).sum := by
  obtain ⟨before, sg', after, o, rfl, rfl, _, hend⟩ := h
  simp only [List.map_append, List.map_cons, List.sum_append, List.sum_cons]
  omega

theorem sgFrames_tiles (sg : SgEntry) (rounds o rest total : Nat) (hrounds : rest ≤ rounds)
    (hrest : o + rest = sg.len) :
    Tiles FrameDesc.length sg.Points o
      (sgFrames rounds (sg.addr + UInt64.ofNat o) rest total).1 (o + min rest total) ∧
    (sgFrames rounds (sg.addr + UInt64.ofNat o) rest total).2 = total - min rest total := by
  induction rounds generalizing o rest total with
  | zero =>
    have h0 : rest = 0 := by omega
    subst h0
    rw [Nat.zero_min]
    exact ⟨.nil _, rfl⟩
  | succ rounds ih =>
    unfold sgFrames
    split
    · rename_i hmore
      obtain ⟨chunk, hchunk⟩ : ∃ chunk, chunk = min frameSize (min rest total) := ⟨_, rfl⟩
      simp only [frameSize] at hchunk
      have haddr : sg.addr + UInt64.ofNat o + UInt64.ofNat chunk =
          sg.addr + UInt64.ofNat (o + chunk) := by
        rw [UInt64.ofNat_add, UInt64.add_assoc]
      obtain ⟨htiles, hleft⟩ := ih (o + chunk) (rest - chunk) (total - chunk)
        (by omega) (by omega)
      have hend : o + chunk + min (rest - chunk) (total - chunk) = o + min rest total := by omega
      rw [hend] at htiles
      simp only [frameSize, ← hchunk, haddr]
      have hsize : FrameDesc.length
          ⟨sg.addr + UInt64.ofNat o, sizeField chunk, pdfSofData, pdfEofData⟩ = chunk :=
        FrameDesc.length_of_sizeField rfl (by omega) (by simp only [frameSize]; omega)
      refine ⟨.cons ⟨rfl, ?_⟩ ?_, by omega⟩
      · rw [hsize]
        omega
      · rwa [hsize]
    · have h0 : min rest total = 0 := by omega
      rw [h0]
      exact ⟨.nil _, rfl⟩

theorem sgtFrames_tiles (skip total : Nat) (hend : skip + total ≤ (sgs.map SgEntry.len).sum) :
    Tiles FrameDesc.length (SgPoints sgs) skip (sgtFrames sgs skip total) (skip + total) := by
  induction sgs generalizing skip total with
  | nil =>
    have h0 : skip = 0 ∧ total = 0 := by simpa using hend
    rw [h0.1, h0.2]
    exact .nil _
  | cons sg sgs ih =>
    rw [List.map_cons, List.sum_cons] at hend
    unfold sgtFrames
    split
    · -- the whole segment is skipped
      have htail := (ih (skip - sg.len) total (by omega)).translate sg.len
        fun p f _ (h : SgPoints sgs p f) => h.tail
      have hskip : sg.len + (skip - sg.len) = skip := by omega
      rwa [← Nat.add_assoc, hskip] at htail
    · rename_i hskip
      obtain ⟨htiles, hleft⟩ := sgFrames_tiles sg sg.len skip (sg.len - skip) total
        (Nat.sub_le sg.len skip) (by omega)
      have hhead := htiles.translate 0 fun p f _ (h : sg.Points p f) =>
        (Nat.zero_add p).symm ▸ h.head sgs
      rw [Nat.zero_add, Nat.zero_add] at hhead
      dsimp only
      split
      · rename_i hdone
        have hall : min (sg.len - skip) total = total := by omega
        rwa [hall] at hhead
      · rename_i hmore
        -- the segment is used up; the rest starts at the next one
        have hmin : min (sg.len - skip) total = sg.len - skip := by omega
        rw [hleft, hmin]
        rw [hmin] at hhead
        have htail := (ih 0 (total - (sg.len - skip)) (by omega)).translate sg.len
          fun p f _ (h : SgPoints sgs p f) => h.tail
        have hmid : skip + (sg.len - skip) = sg.len + 0 := by omega
        have hlast : skip + total = sg.len + (0 + (total - (sg.len - skip))) := by omega
        rw [hlast]
        rw [hmid] at hhead
        exact hhead.append htail

end Walk

section Dmabuf

variable {dev : RawDevice} {env : RawEnv} {dmabufFd : Int32} {offset : Int64} {len : UInt64}
  {dir : Direction} {b : DmaBufObj} {ringSize : Nat}

theorem DmaBufObj.sgtFrames_length (b : DmaBufObj) (offset len : Nat) :
    (sgtFrames b.sgt offset len).length = b.frameCount offset len := by
  simp [sgtFrames_eq, List.length_flatMap, DmaBufObj.frameCount]

theorem RawEnv.dmabufRefuses_none_iff {n : Nat} :
    (∀ i < n, env.dmabufRefuses ringSize i = none) ↔ n ≤ ringSize ∧ ∀ i < n, env.ringTx i := by
  have hone (i : Nat) : env.dmabufRefuses ringSize i = none ↔ i < ringSize ∧ env.ringTx i := by
    unfold RawEnv.dmabufRefuses
    split
    · rename_i hfull
      simp [Nat.not_lt.mpr hfull]
    · rename_i hroom
      simp [RawEnv.refuses_eq_none, Nat.not_le.mp hroom]
  simp only [hone]
  constructor
  · intro h
    refine ⟨?_, fun i hi => (h i hi).2⟩
    by_contra hlt
    exact Nat.lt_irrefl _ (h ringSize (Nat.not_le.mp hlt)).1
  · intro h i hi
    exact ⟨Nat.lt_of_lt_of_le hi h.1, h.2 i hi⟩

theorem submitDmabuf_eq : dev.submitDmabuf env dmabufFd offset len dir =
    submitDmabuf (dev.linked dir) (dev.ringSize dir) env dmabufFd offset len := by
  cases dir <;> rfl

/-- The submission returns 0 when the checks and calls before the walk pass, the range has no more
frames than the ring, and the ring takes them. -/
theorem submitDmabuf_ok_iff (hb : env.dmaBufGet dmabufFd = some b) :
    (dev.submitDmabuf env dmabufFd offset len dir).2 = none ↔
      dev.linked dir ∧ b.Admits offset len ∧
        (sgtFrames b.sgt offset.toUInt64.toNat len.toNat).length ≤ dev.ringSize dir ∧
        ∀ i < (sgtFrames b.sgt offset.toUInt64.toNat len.toNat).length, env.ringTx i := by
  rw [submitDmabuf_eq, ← RawEnv.dmabufRefuses_none_iff]
  rcases submitDmabuf_cases (dev.linked dir) (dev.ringSize dir) env dmabufFd offset len with
    ⟨hno, e, he⟩ | ⟨⟨hlinked, b', hb', hadm⟩, hyes⟩
  · rw [he]
    refine ⟨fun h => absurd h (Option.some_ne_none e), fun h => absurd ⟨h.1, b, hb, h.2.1⟩ hno⟩
  · obtain rfl : b = b' := Option.some.inj (hb.symm.trans hb')
    rw [hyes, ringTxAll_none_iff, RawEnv.dmabufParts, hb, Option.elim_some, ← sgtFrames_eq]
    simp only [hlinked, hadm, true_and, Nat.zero_add]

theorem submitDmabuf_frames (hb : env.dmaBufGet dmabufFd = some b)
    (h : (dev.submitDmabuf env dmabufFd offset len dir).2 = none) :
    (dev.submitDmabuf env dmabufFd offset len dir).1 =
      sgtFrames b.sgt offset.toUInt64.toNat len.toNat := by
  rw [submitDmabuf_eq] at h ⊢
  rcases submitDmabuf_cases (dev.linked dir) (dev.ringSize dir) env dmabufFd offset len with
    ⟨_, e, he⟩ | ⟨_, hyes⟩
  · rw [he] at h
    exact absurd h (Option.some_ne_none e)
  · rw [hyes] at h ⊢
    rw [ringTxAll_eq_iff.mpr (ringTxAll_none_iff.mp h), RawEnv.dmabufParts, hb, Option.elim_some,
      ← sgtFrames_eq]

theorem DmaBufObj.Covered.end_le {off n : Nat} {fs : List FrameDesc}
    (h : b.Covered ringSize off n fs) (hn : n ≠ 0) :
    off + n ≤ (b.sgt.map SgEntry.len).sum := by
  apply h.tiles.end_le fun p f => SgPoints.end_le
  rintro rfl
  have htotal := h.tiles.total
  simp only [List.map_nil, List.sum_nil] at htotal
  omega

variable (dev env dmabufFd offset len dir b)

/-- A dma-buf transfer is right exactly when its sum of offset and length does not wrap, or one of
the checks, calls and ring slots that it needs is not there. -/
theorem dmabuf_covered_iff_no_wrap (hb : env.dmaBufGet dmabufFd = some b)
    (hsum : (b.sgt.map SgEntry.len).sum = b.size.toNat) :
    (((dev.submitDmabuf env dmabufFd offset len dir).2 = none →
        b.Covered (dev.ringSize dir) offset.toUInt64.toNat len.toNat
          (dev.submitDmabuf env dmabufFd offset len dir).1) ∧
      ((¬ ∃ fs, b.Covered (dev.ringSize dir) offset.toUInt64.toNat len.toNat fs) →
        (dev.submitDmabuf env dmabufFd offset len dir).2 ≠ none)) ↔
    (dev.linked dir → b.Admits offset len →
      b.frameCount offset.toUInt64.toNat len.toNat ≤ dev.ringSize dir →
      (∀ i < b.frameCount offset.toUInt64.toNat len.toNat, env.ringTx i) →
        offset.toUInt64.toNat + len.toNat < 2 ^ 64) := by
  have hok := @submitDmabuf_ok_iff dev env dmabufFd offset len dir b hb
  rw [b.sgtFrames_length] at hok
  constructor
  · rintro ⟨hcov, _⟩ hlinked hadm hroom htaken
    have hend := (hcov (hok.mpr ⟨hlinked, hadm, hroom, htaken⟩)).end_le fun h0 =>
      (not_or.mp (not_or.mp hadm.1).2).1 (UInt64.toNat_inj.mp h0)
    rw [hsum] at hend
    exact Nat.lt_of_le_of_lt hend b.size.toNat_lt
  · intro h
    have hcov : (dev.submitDmabuf env dmabufFd offset len dir).2 = none →
        b.Covered (dev.ringSize dir) offset.toUInt64.toNat len.toNat
          (dev.submitDmabuf env dmabufFd offset len dir).1 := by
      intro hnone
      obtain ⟨hlinked, hadm, hroom, htaken⟩ := hok.mp hnone
      rw [submitDmabuf_frames hb hnone]
      refine ⟨sgtFrames_tiles _ _ ?_, fun f _ => f.length_bounds, ?_⟩
      · rw [hsum]
        exact le_of_not_lt_add (not_or.mp (not_or.mp hadm.1).2).2 (h hlinked hadm hroom htaken)
      · rwa [b.sgtFrames_length]
    exact ⟨hcov, fun hnot hnone => hnot ⟨_, hcov hnone⟩⟩

end Dmabuf

def RawEnv.giving (b : DmaBufObj) : RawEnv := ⟨true, fun _ => some b, fun _ => true⟩

theorem two_segments_covered :
    let b : DmaBufObj := ⟨10096, [⟨0x10000, 4096⟩, ⟨0x90000, 6000⟩], true, true⟩
    (RawDevice.small.submitDmabuf (.giving b) 3 4000 6096 .tx).2 = none ∧
    b.Covered 64 4000 6096 (RawDevice.small.submitDmabuf (.giving b) 3 4000 6096 .tx).1 := by
  intro b
  have h : (RawDevice.small.submitDmabuf (.giving b) 3 4000 6096 .tx).2 = none := by
    decide +kernel
  exact ⟨h, ((dmabuf_covered_iff_no_wrap RawDevice.small (.giving b) 3 4000 6096 .tx b rfl
    (by decide)).mpr fun _ _ _ _ => by decide).1 h⟩

/-- From the second page of a buffer of two, for the length that makes the sum 0: one page goes to
the ring, and the request returns 0. -/
theorem wrapped_range_returns_zero :
    let b : DmaBufObj := ⟨8192, [⟨0x10000, 8192⟩], true, true⟩
    (∀ dir, RawDevice.small.submitDmabuf (.giving b) 3 4096 0xfffffffffffff000 dir =
      ([⟨0x11000, 0, pdfSofData, pdfEofData⟩], none)) ∧
    ∀ fs, ¬ b.Covered 64 4096 0xfffffffffffff000 fs := by
  refine ⟨fun dir => ?_, fun fs h => ?_⟩
  · cases dir <;> decide +kernel
  · exact absurd (h.end_le (by decide)) (by decide)

end OdinLink
