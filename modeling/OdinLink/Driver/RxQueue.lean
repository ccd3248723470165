import OdinLink.Driver.Stream
import OdinLink.Lib.Threads

/-!
# The receive queue

Callbacks of the ring queue complete messages, readers take them, and the stream is closed at some
point. The list and its length are changed under the queue's lock, the counter the readers wait for
outside it, on both sides.
-/

namespace OdinLink

open Threads History

structure QueuedMsg where
  seq : Nat
  msg : RxMsg
  deriving DecidableEq, Repr

def rxQueueMax : Int := 65536

/-- `callback` tells that a callback of the ring is running and `closing` that the stream is being
closed. The list of a freed stream stays as it was. -/
structure QueueMem where
  rxQueue : List QueuedMsg
  rxQueueLen : Int
  rxComplete : Int
  dying : Bool
  hashed : Bool
  refcount : Int
  freed : Bool
  callback : Bool
  closing : Bool
  nextSeq : Nat

inductive RecvPc where
  | waitComplete
  | waitDying
  | testDying
  | testComplete
  | dequeue
  | dec (q : QueuedMsg)
  | copy (q : QueuedMsg)
  deriving DecidableEq, Repr

inductive QueuePc where
  | callbackGet (msg : RxMsg)
  | lock (msg : RxMsg)
  | inc (q : QueuedMsg)
  | callbackPut
  | recvGet (bufLen : Nat)
  | recv (bufLen : Nat) (pc : RecvPc)
  | recvPut
  | setDying
  | unhash
  | dropInitial
  | returned
  deriving DecidableEq, Repr

inductive QueueEvent where
  | queued (q : QueuedMsg)
  | counted (q : QueuedMsg)
  | dequeued (q : QueuedMsg)
  | received (q : QueuedMsg) (data : List UInt8)
  | faulted (q : QueuedMsg)
  | freed (q : QueuedMsg)
  | again
  | shutdown
  | interrupted
  | dying
  deriving DecidableEq, Repr

def QueueMem.init : QueueMem := ⟨[], 0, 0, false, true, 1, false, false, false, 0⟩

section Ops
variable (m : QueueMem) (ok : Bool)

/-- `kref_get_unless_zero`. -/
def krefGet : Option QueueMem :=
  if m.refcount = 0 then none else some {m with refcount := m.refcount + 1}

/-- `kref_put` with `odl_tb5_stream_free`. -/
def krefPut : QueueMem × List QueueEvent :=
  if m.refcount = 1 then ({m with refcount := 0, freed := true}, m.rxQueue.map .freed)
  else ({m with refcount := m.refcount - 1}, [])

/-- One operation of `odl_tb5_stream_recv`. A wait is woken to look again, or interrupted; the copy
to the user may fault. -/
def recvOp (bufLen : Nat) : RecvPc → QueueMem × QueuePc × List QueueEvent
  | .waitComplete =>
    (m, .recv bufLen (if 0 < m.rxComplete then .testDying else .waitDying), [])
  | .waitDying =>
    if m.dying then (m, .recv bufLen .testDying, [])
    else if ok then (m, .recv bufLen .waitComplete, [])
    else (m, .recvPut, [.interrupted])
  | .testDying => (m, .recv bufLen (if m.dying then .testComplete else .dequeue), [])
  | .testComplete =>
    if m.rxComplete ≤ 0 then (m, .recvPut, [.shutdown]) else (m, .recv bufLen .dequeue, [])
  | .dequeue =>
    match m.rxQueue with
    | [] => (m, .recvPut, [.again])
    | q :: queue =>
      ({m with rxQueue := queue, rxQueueLen := m.rxQueueLen - 1}, .recv bufLen (.dec q),
        [.dequeued q])
  | .dec q => ({m with rxComplete := m.rxComplete - 1}, .recv bufLen (.copy q), [])
  | .copy q =>
    (m, .recvPut, [if ok then .received q (q.msg.data.take bufLen) else .faulted q])

def queueOp : QueuePc → Bool → Option (QueueMem × QueuePc × List QueueEvent)
  -- odl_tb5_rx_callback
  | .callbackGet msg, _ =>
    match krefGet m with
    | none => some ({m with callback := false}, .returned, [])
    | some m' => some (m', .lock msg, [])
  | .lock msg, _ =>
    if m.rxQueueLen < rxQueueMax then
      let q : QueuedMsg := ⟨m.nextSeq, msg⟩
      some ({m with
        rxQueue := m.rxQueue ++ [q], rxQueueLen := m.rxQueueLen + 1, nextSeq := m.nextSeq + 1},
        .inc q, [.queued q])
    else some (m, .callbackPut, [])
  | .inc q, _ => some ({m with rxComplete := m.rxComplete + 1}, .callbackPut, [.counted q])
  | .callbackPut, _ => some ({(krefPut m).1 with callback := false}, .returned, (krefPut m).2)
  -- ODL_TB5_IOCTL_STREAM_RECV
  | .recvGet bufLen, _ =>
    match krefGet m with
    | none => some (m, .returned, [])
    | some m' => some (m', .recv bufLen .waitComplete, [])
  | .recv bufLen pc, ok => some (recvOp m ok bufLen pc)
  | .recvPut, _ => some ((krefPut m).1, .returned, (krefPut m).2)
  -- odl_tb5_stream_destroy
  | .setDying, _ => some ({m with dying := true}, .unhash, [.dying])
  | .unhash, _ => some ({m with hashed := false}, .dropInitial, [])
  | .dropInitial, _ => some ((krefPut m).1, .returned, (krefPut m).2)
  | .returned, _ => none

end Ops

/-- Callbacks of the ring run one at a time, and a stream is closed once; both callbacks and
readers find it in the hash before they take their reference. -/
inductive QueueStart where
  | callback (msg : RxMsg)
  | recv (bufLen : Nat)
  | destroy
  deriving DecidableEq, Repr

def queueStart (m : QueueMem) :
    QueueStart → Option (QueueMem × Option QueuePc × List QueueEvent)
  | .callback msg =>
    if m.hashed && !m.callback then some ({m with callback := true}, some (.callbackGet msg), [])
    else none
  | .recv bufLen => if m.hashed then some (m, some (.recvGet bufLen), []) else none
  | .destroy =>
    if m.closing then none else some ({m with closing := true}, some .setDying, [])

def queueProg : Prog QueueMem QueuePc QueueStart Bool QueueEvent := ⟨queueStart, queueOp⟩

end OdinLink
