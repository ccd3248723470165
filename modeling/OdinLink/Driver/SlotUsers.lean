import OdinLink.Driver.RxCallback
import OdinLink.Lib.Threads

/-!
# The users of the frame pool

Senders, the ping and pong messages, the receive repost and the callbacks of both rings take slots
from one pool and put them back. Every piece of code under the pool lock, every call into a ring and
every change of the posted counter is one operation.
-/

namespace OdinLink

open Threads History

def framePoolSize : Nat := 4096
def txPoolReserve : Int := 256

inductive RingSide where
  | tx
  | rx
  deriving DecidableEq, Repr

structure SlotRing where
  running : Bool
  frames : List Nat
  deriving DecidableEq, Repr

structure PoolMem where
  pool : FramePool
  tx : SlotRing
  rx : SlotRing
  rxPosted : Int
  rxTarget : Int

/-- `left` is the number of frames still to be sent. -/
inductive LatencyPc where
  | wait (left : Nat)
  | get (left : Nat)
  | copy (left slot : Nat)
  | submit (left slot : Nat)
  | putBack (slot : Nat)
  deriving DecidableEq, Repr

inductive DmaMsgPc where
  | get
  | submit (slot : Nat)
  | putBack (slot : Nat)
  deriving DecidableEq, Repr

/-- `posted` and `target` are the local copies the loop works with. -/
inductive RepostPc where
  | begin
  | get (posted target : Int)
  | submit (posted target : Int) (slot : Nat)
  | count (posted target : Int)
  | putBack (slot : Nat)
  deriving DecidableEq, Repr

/-- `data` is every frame that gets past the control message test. -/
inductive RxKind where
  | canceled
  | crcError
  | overrun
  | control
  | data
  deriving DecidableEq, Repr

def RxKind.reposts : RxKind → Bool
  | .control | .data => true
  | _ => false

/-- `repost` is a call from the verify work or from the opening of a stream, `rxRepost` one from
the receive callback. -/
inductive SlotUser where
  | latency (pc : LatencyPc)
  | dmaMsg (pc : DmaMsgPc)
  | repost (pc : RepostPc)
  | txCallback (slot : Nat)
  | rxCallback (slot : Nat) (kind : RxKind)
  | rxPut (slot : Nat) (kind : RxKind)
  | rxRepost (pc : RepostPc)
  | returned
  deriving DecidableEq, Repr

inductive SlotEvent where
  | took (slot : Nat)
  | put (slot : Nat)
  deriving DecidableEq, Repr

namespace PoolMem

def init : PoolMem := ⟨⟨framePoolSize, fun _ => false, framePoolSize⟩, ⟨false, []⟩, ⟨false, []⟩, 0, 0⟩

def ring (m : PoolMem) : RingSide → SlotRing
  | .tx => m.tx
  | .rx => m.rx

def setRing (m : PoolMem) (r : SlotRing) : RingSide → PoolMem
  | .tx => {m with tx := r}
  | .rx => {m with rx := r}

/-- `tb_ring_tx` and `tb_ring_rx`: a ring that does not run refuses, one that runs may. -/
def enqueue (m : PoolMem) (side : RingSide) (slot : Nat) (ok : Bool) : Option PoolMem :=
  if (m.ring side).running && ok then
    some (m.setRing {m.ring side with frames := (m.ring side).frames ++ [slot]} side)
  else none

def get (m : PoolMem) : Option (Nat × PoolMem) :=
  (framePoolGet m.pool).map fun r => (r.1, {m with pool := r.2})

def put (m : PoolMem) (slot : Nat) : PoolMem := {m with pool := framePoolPut m.pool slot}

end PoolMem

section Ops
variable (m : PoolMem) (ok : Bool)

/-- One operation of `odl_tb5_stream_send_latency`. The wait, the user copy and the ring may fail.
-/
def latencyOp : LatencyPc → Option (PoolMem × SlotUser × List SlotEvent)
  | .wait 0 => some (m, .returned, [])
  | .wait (left + 1) =>
    if txPoolReserve < m.pool.freeCount then some (m, .latency (.get (left + 1)), [])
    else if ok then none
    else some (m, .returned, [])
  | .get left =>
    match m.get with
    | none => some (m, .latency (.wait left), [])
    | some (slot, m') => some (m', .latency (.copy left slot), [.took slot])
  | .copy left slot =>
    if ok then some (m, .latency (.submit left slot), [])
    else some (m, .latency (.putBack slot), [])
  | .submit left slot =>
    match m.enqueue .tx slot ok with
    | none => some (m, .latency (.putBack slot), [])
    | some m' => some (m', .latency (.wait (left - 1)), [])
  | .putBack slot => some (m.put slot, .returned, [.put slot])

/-- One operation of `odl_tb5_send_dma_msg` once the pool exists. -/
def dmaMsgOp : DmaMsgPc → Option (PoolMem × SlotUser × List SlotEvent)
  | .get =>
    match m.get with
    | none => some (m, .returned, [])
    | some (slot, m') => some (m', .dmaMsg (.submit slot), [.took slot])
  | .submit slot =>
    match m.enqueue .tx slot ok with
    | none => some (m, .dmaMsg (.putBack slot), [])
    | some m' => some (m', .returned, [])
  | .putBack slot => some (m.put slot, .returned, [.put slot])

/-- One operation of `odl_tb5_rx_repost`; `none` for the next position is its return. -/
def repostOp : RepostPc → PoolMem × Option RepostPc × List SlotEvent
  | .begin => (m, some (.get m.rxPosted m.rxTarget), [])
  | .get posted target =>
    if posted < target then
      match m.get with
      | none => (m, none, [])
      | some (slot, m') => (m', some (.submit posted target slot), [.took slot])
    else (m, none, [])
  | .submit posted target slot =>
    match m.enqueue .rx slot ok with
    | none => (m, some (.putBack slot), [])
    | some m' => (m', some (.count posted target), [])
  | .count posted target =>
    ({m with rxPosted := m.rxPosted + 1}, some (.get (posted + 1) target), [])
  | .putBack slot => (m.put slot, none, [.put slot])

def slotOp : SlotUser → Bool → Option (PoolMem × SlotUser × List SlotEvent)
  | .latency pc, ok => latencyOp m ok pc
  | .dmaMsg pc, ok => dmaMsgOp m ok pc
  | .repost pc, ok =>
    let r := repostOp m ok pc
    some (r.1, (r.2.1.map SlotUser.repost).getD .returned, r.2.2)
  | .txCallback slot, _ => some (m.put slot, .returned, [.put slot])
  | .rxCallback slot kind, _ => some ({m with rxPosted := m.rxPosted - 1}, .rxPut slot kind, [])
  | .rxPut slot kind, _ =>
    some (m.put slot, if kind.reposts then .rxRepost .begin else .returned, [.put slot])
  | .rxRepost pc, ok =>
    let r := repostOp m ok pc
    some (r.1, (r.2.1.map SlotUser.rxRepost).getD .returned, r.2.2)
  | .returned, _ => none

end Ops

inductive PoolStart where
  | send (nframes : Nat)
  | dmaMsg
  | repost
  | txComplete (k : Nat)
  | rxComplete (k : Nat) (kind : RxKind)
  | setRunning (side : RingSide) (running : Bool)
  | setTarget (target : Int)
  | clearPosted
  deriving DecidableEq, Repr

def slotStart (m : PoolMem) : PoolStart → Option (PoolMem × Option SlotUser × List SlotEvent)
  | .send nframes => some (m, some (.latency (.wait nframes)), [])
  | .dmaMsg => some (m, some (.dmaMsg .get), [])
  | .repost => some (m, some (.repost .begin), [])
  | .txComplete k =>
    m.tx.frames[k]?.map fun slot =>
      ({m with tx := {m.tx with frames := m.tx.frames.eraseIdx k}}, some (.txCallback slot), [])
  | .rxComplete k kind =>
    m.rx.frames[k]?.map fun slot =>
      ({m with rx := {m.rx with frames := m.rx.frames.eraseIdx k}},
        some (.rxCallback slot kind), [])
  | .setRunning side running =>
    some (m.setRing {m.ring side with running := running} side, none, [])
  | .setTarget target => some ({m with rxTarget := target}, none, [])
  | .clearPosted => some ({m with rxPosted := 0}, none, [])

def slotProg : Prog PoolMem SlotUser PoolStart Bool SlotEvent := ⟨slotStart, slotOp⟩

end OdinLink
