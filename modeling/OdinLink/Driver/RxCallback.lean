import OdinLink.Driver.Stream

/-!
# The receive callback

One completion of the receive ring. The frame is in a pool slot or in the legacy buffer;
a pool frame is counted, taken for a control message or handed to the stream its header
names, and its slot goes back to the pool and from there to the ring.
-/

namespace OdinLink

structure FramePool where
  size : Nat
  bitmap : Nat → Bool
  freeCount : Int

def findFirstZeroBit (bitmap : Nat → Bool) (i : Nat) : Nat → Option Nat
  | 0 => none
  | n + 1 => if bitmap i then findFirstZeroBit bitmap (i + 1) n else some i

def framePoolGet (pool : FramePool) : Option (Nat × FramePool) :=
  (findFirstZeroBit pool.bitmap 0 pool.size).map fun idx =>
    (idx, {pool with
      bitmap := fun i => i == idx || pool.bitmap i,
      freeCount := pool.freeCount - 1})

def framePoolPut (pool : FramePool) (slot : Nat) : FramePool :=
  {pool with
    bitmap := fun i => i != slot && pool.bitmap i,
    freeCount := pool.freeCount + 1}

structure RxDevice where
  state : ConnState
  streams : UInt8 → Option Stream
  framePool : FramePool
  slotMem : Nat → Mem
  legacyMem : Nat → Mem
  completed : Nat
  rxPosted : Int
  rxTarget : Int
  rxErrCrc : Nat
  rxErrOverrun : Nat
  rxCanceled : Nat
  rxErrShort : Nat
  rxErrLen : Nat
  rxFramesOk : Nat
  rxRepostStarved : Nat
  rxRepostShort : Int
  rxPostedMin : Int
  pongReceived : Bool
  verifyRxType : Nat
  ctrlReplyPending : Bool

def RxDevice.opened (d : UInt8) : RxDevice where
  state := .ready
  streams i := if i = d then some (streamCreate d) else none
  framePool := ⟨4096, fun i => decide (i < 2048), 2048⟩
  slotMem _ _ := 0
  legacyMem _ _ := 0
  completed := 0
  rxPosted := 2048
  rxTarget := 2048
  rxErrCrc := 0
  rxErrOverrun := 0
  rxCanceled := 0
  rxErrShort := 0
  rxErrLen := 0
  rxFramesOk := 0
  rxRepostStarved := 0
  rxRepostShort := 0
  rxPostedMin := 2147483647
  pongReceived := true
  verifyRxType := 0
  ctrlReplyPending := false

inductive FrameRef where
  | slot (idx : Nat)
  | legacy (idx : Nat)
  deriving DecidableEq, Repr

structure Completion where
  frame : FrameRef
  received : List UInt8
  crcError : Bool
  bufferOverrun : Bool
  canceled : Bool
  deriving DecidableEq, Repr

/-- What the callback finds in the size of a frame that has brought `bs`. -/
def rxSize (bs : List UInt8) : Nat := (sizeField bs.length).toNat

theorem rxSize_le (bs : List UInt8) : rxSize bs ≤ bs.length := by
  rw [rxSize, sizeField_toNat]
  exact Nat.mod_le _ _

theorem rxSize_of_lt {bs : List UInt8} (h : bs.length < frameSize) : rxSize bs = bs.length := by
  rw [rxSize, sizeField_toNat]
  exact Nat.mod_eq_of_lt h

def Completion.flagged (c : Completion) : Bool := c.canceled || c.crcError || c.bufferOverrun

structure RxEnv where
  alloc : AllocEnv
  ringRx : Nat → Bool

def RxEnv.ok : RxEnv := ⟨.ok, fun _ => true⟩

def Completion.good (slot : Nat) (received : List UInt8) : Completion :=
  ⟨.slot slot, received, false, false, false⟩

inductive RxAct where
  | control (type : Nat)
  | accept (dst : UInt8)
  | append (dst : UInt8) (len : Nat)
  | queued (dst : UInt8) (msg : RxMsg)
  deriving DecidableEq, Repr

namespace RxDevice

def setStream (dev : RxDevice) (id : UInt8) (s : Stream) : RxDevice :=
  {dev with streams := fun i => if i = id then some s else dev.streams i}

def streamLookup (dev : RxDevice) (id : UInt8) : Option Stream :=
  match dev.streams id with
  | none => none
  | some s => if s.refcount = 0 then none else some {s with refcount := s.refcount + 1}

def poolPut (dev : RxDevice) (slot : Nat) : RxDevice :=
  {dev with framePool := framePoolPut dev.framePool slot}

/-- The repost loop with `n` slots still missing; `k` counts the calls of `tb_ring_rx`. -/
def rxRepostLoop (ringRx : Nat → Bool) (k : Nat) (dev : RxDevice) : Nat → RxDevice
  | 0 => dev
  | n + 1 =>
    match framePoolGet dev.framePool with
    | none =>
      {dev with
        rxRepostStarved := dev.rxRepostStarved + 1,
        rxRepostShort := max dev.rxRepostShort (n + 1)}
    | some (slot, pool) =>
      if ringRx k then
        rxRepostLoop ringRx (k + 1) {dev with framePool := pool, rxPosted := dev.rxPosted + 1} n
      else {dev with framePool := framePoolPut pool slot}

def rxRepost (dev : RxDevice) (ringRx : Nat → Bool) : RxDevice :=
  let d := rxRepostLoop ringRx 0 dev (dev.rxTarget - dev.rxPosted).toNat
  {d with rxPostedMin := min d.rxPostedMin d.rxPosted}

def rxControl (dev : RxDevice) (type : Nat) : RxDevice :=
  if type = dmaPong then {dev with pongReceived := true}
  else {dev with verifyRxType := type, ctrlReplyPending := true}

/-- A frame with a stream header. The reference taken by the lookup is put back only when the
frame carries payload. -/
def rxStreamFrame (dev : RxDevice) (mem : Mem) (alloc : AllocEnv) : RxDevice × List RxAct :=
  let h := mem.streamHdr
  if h.dstId = streamIdCtrl then (dev, [])
  else match dev.streamLookup h.dstId with
    | none => (dev, [])
    | some s =>
      if h.payloadLen = 0 then (dev.setStream h.dstId s, [])
      else
        let len := h.payloadLen.toNat
        let r := s.rxFrame alloc h (mem.read streamHdrSize len)
        (dev.setStream h.dstId {r.1 with refcount := r.1.refcount - 1},
          .accept h.dstId :: (if s.asmCopies alloc h len then [.append h.dstId len] else []) ++
            r.2.toList.map (.queued h.dstId))

def rxGoodFrame (dev : RxDevice) (mem : Mem) (size : Nat) (alloc : AllocEnv) :
    RxDevice × List RxAct :=
  if dmaHdrSize ≤ size ∧ mem.le32 0 = dmaMagic then
    (dev.rxControl (mem.le32 4), [.control (mem.le32 4)])
  else if streamHdrSize ≤ size then dev.rxStreamFrame mem alloc
  else (dev, [])

def rxPoolFrame (dev : RxDevice) (slot : Nat) (c : Completion) (env : RxEnv) :
    RxDevice × List RxAct :=
  let dev := {dev with rxPosted := dev.rxPosted - 1}
  if c.canceled then
    ({dev with rxCanceled := dev.rxCanceled + 1}.poolPut slot, [])
  else if c.crcError then
    ({dev with rxErrCrc := dev.rxErrCrc + 1}.poolPut slot, [])
  else if c.bufferOverrun then
    ({dev with rxErrOverrun := dev.rxErrOverrun + 1}.poolPut slot, [])
  else
    let r := {dev with rxFramesOk := dev.rxFramesOk + 1}.rxGoodFrame (dev.slotMem slot)
      (rxSize c.received) env.alloc
    ((r.1.poolPut slot).rxRepost env.ringRx, r.2)

def rxLegacyFrame (dev : RxDevice) (idx : Nat) (c : Completion) : RxDevice × List RxAct :=
  if c.canceled then (dev, [])
  else
    let mem := dev.legacyMem idx
    if ConnState.connected.code ≤ dev.state.code ∧ mem.le32 0 = dmaMagic then
      (dev.rxControl (mem.le32 4), [.control (mem.le32 4)])
    else ({dev with completed := dev.completed + 1}, [])

def dmaReceive (dev : RxDevice) (c : Completion) : RxDevice :=
  match c.frame with
  | .slot idx =>
    {dev with slotMem := Function.update dev.slotMem idx ((dev.slotMem idx).dmaWrite c.received)}
  | .legacy idx =>
    {dev with
      legacyMem := Function.update dev.legacyMem idx ((dev.legacyMem idx).dmaWrite c.received)}

def rxCallback (dev : RxDevice) (c : Completion) (env : RxEnv) : RxDevice × List RxAct :=
  match c.frame with
  | .slot idx => dev.rxPoolFrame idx c env
  | .legacy idx => dev.rxLegacyFrame idx c

end RxDevice

inductive RxEvent where
  | complete (c : Completion) (env : RxEnv)
  | recv (id : UInt8) (bufLen : Nat) (copyFault : Bool)

namespace RxDevice

def step (dev : RxDevice) : RxEvent → RxDevice × List RxAct
  | .complete c env => (dev.dmaReceive c).rxCallback c env
  | .recv id bufLen copyFault =>
    match dev.streams id with
    | none => (dev, [])
    | some s => (dev.setStream id (streamRecv s bufLen copyFault).1, [])

def run (dev : RxDevice) : List RxEvent → RxDevice × List RxAct
  | [] => (dev, [])
  | e :: es =>
    let r := dev.step e
    let q := r.1.run es
    (q.1, r.2 ++ q.2)

@[simp] theorem run_nil (dev : RxDevice) : dev.run [] = (dev, []) := rfl

end RxDevice

end OdinLink
