import Mathlib.Data.List.Basic
import Mathlib.Data.UInt

/-!
# The wire format of the data path

Every DMA frame of a stream starts with an eight-byte header; control frames carry a
magic number instead. A received frame is a memory that the hardware has written its
bytes to, so that a read past them finds what an earlier frame left there.
-/

namespace OdinLink

-- for the indices `Fin 2` of double buffers
instance neZero_two : NeZero 2 := ⟨Nat.succ_ne_zero 1⟩

def frameSize : Nat := 4096
def streamHdrSize : Nat := 8
def streamPayloadMax : Nat := 4024
def streamMaxFrames : Nat := 4096
def streamIdCtrl : UInt8 := 0

def shdrFMsgStart : UInt8 := 1
def shdrFMsgEnd : UInt8 := 2
def shdrFSingle : UInt8 := 3

def pdfSofData : Nat := 1
def pdfEofData : Nat := 2
def pdfSofCtrl : Nat := 1
def pdfEofCtrl : Nat := 2

def dmaMagic : Nat := 0x4F444C35
def dmaPing : Nat := 1
def dmaPong : Nat := 2
def dmaHdrSize : Nat := 16

def odlCliMagic : Nat := 0x4F444C43

def errProto : Int := -71

/-- What `size` of a `struct ring_frame` holds for `n` bytes. It has 12 bits, so a full frame has
size 0. -/
def sizeField (n : Nat) : BitVec 12 := BitVec.ofNat 12 n

@[simp] theorem sizeField_toNat (n : Nat) : (sizeField n).toNat = n % 4096 :=
  BitVec.toNat_ofNat n 12

inductive ConnState where
  | disconnected
  | handshake
  | connected
  | error
  | ready
  deriving DecidableEq, Repr

def ConnState.code : ConnState → Nat
  | disconnected => 0
  | handshake => 1
  | connected => 2
  | error => 3
  | ready => 4

def cpuToLe16 (x : UInt16) : UInt8 × UInt8 := (UInt8.ofNat x.toNat, UInt8.ofNat (x.toNat / 256))

def le16ToCpu (lo hi : UInt8) : UInt16 := UInt16.ofNat (lo.toNat + 256 * hi.toNat)

@[simp] theorem le16ToCpu_cpuToLe16 (x : UInt16) :
    le16ToCpu (cpuToLe16 x).1 (cpuToLe16 x).2 = x := by
  have hx := x.toNat_lt
  apply UInt16.toNat_inj.mp
  simp only [le16ToCpu, cpuToLe16, UInt16.toNat_ofNat', UInt8.toNat_ofNat']
  omega

structure StreamHdr where
  srcId : UInt8
  dstId : UInt8
  flags : UInt8
  reserved : UInt8
  payloadLen : UInt16
  fragIdx : UInt16
  deriving DecidableEq, Repr

namespace StreamHdr

def isStart (h : StreamHdr) : Bool := h.flags &&& shdrFMsgStart != 0

def isEnd (h : StreamHdr) : Bool := h.flags &&& shdrFMsgEnd != 0

def bytes (h : StreamHdr) : List UInt8 :=
  [h.srcId, h.dstId, h.flags, h.reserved, (cpuToLe16 h.payloadLen).1, (cpuToLe16 h.payloadLen).2,
    (cpuToLe16 h.fragIdx).1, (cpuToLe16 h.fragIdx).2]

@[simp] theorem bytes_length (h : StreamHdr) : h.bytes.length = streamHdrSize := rfl

end StreamHdr

abbrev Mem := Nat → UInt8

namespace Mem

/-- The hardware writes the received bytes and leaves the rest. -/
def dmaWrite (mem : Mem) (bs : List UInt8) : Mem := fun i => bs.getD i (mem i)

def read (mem : Mem) (off len : Nat) : List UInt8 := (List.range len).map fun i => mem (off + i)

def streamHdr (mem : Mem) : StreamHdr :=
  ⟨mem 0, mem 1, mem 2, mem 3, le16ToCpu (mem 4) (mem 5), le16ToCpu (mem 6) (mem 7)⟩

def le32 (mem : Mem) (off : Nat) : Nat :=
  (mem off).toNat + 256 * (mem (off + 1)).toNat + 65536 * (mem (off + 2)).toNat +
    16777216 * (mem (off + 3)).toNat

@[simp] theorem read_length (mem : Mem) (off len : Nat) : (mem.read off len).length = len := by
  simp [read]

theorem read_dmaWrite (mem : Mem) (bs : List UInt8) {off len : Nat} (h : off + len ≤ bs.length) :
    (mem.dmaWrite bs).read off len = (bs.drop off).take len := by
  apply List.ext_getElem
  · simp
    omega
  · intro i h1 h2
    have hi : off + i < bs.length := by
      simp only [read_length] at h1
      omega
    simp [read, dmaWrite, hi]

theorem streamHdr_dmaWrite_congr (mem mem' : Mem) (bs : List UInt8)
    (h : streamHdrSize ≤ bs.length) :
    (mem.dmaWrite bs).streamHdr = (mem'.dmaWrite bs).streamHdr := by
  have hb : ∀ i < 8, mem.dmaWrite bs i = mem'.dmaWrite bs i := by
    intro i hi
    have hlt : i < bs.length := Nat.lt_of_lt_of_le hi h
    simp [dmaWrite, hlt]
  simp [streamHdr, hb]

theorem streamHdr_dmaWrite (mem : Mem) (h : StreamHdr) (payload : List UInt8) :
    (mem.dmaWrite (h.bytes ++ payload)).streamHdr = h := by
  simp [streamHdr, dmaWrite, StreamHdr.bytes]

end Mem

theorem le32_dmaWrite_congr (mem mem' : Mem) (bs : List UInt8) {off : Nat}
    (h : off + 4 ≤ bs.length) : (mem.dmaWrite bs).le32 off = (mem'.dmaWrite bs).le32 off := by
  have hb : ∀ i < 4, mem.dmaWrite bs (off + i) = mem'.dmaWrite bs (off + i) := by
    intro i hi
    have hlt : off + i < bs.length := by omega
    simp [Mem.dmaWrite, hlt]
  have h0 := hb 0 (by omega)
  rw [Nat.add_zero] at h0
  simp only [Mem.le32, h0, hb 1 (by omega), hb 2 (by omega), hb 3 (by omega)]

end OdinLink
