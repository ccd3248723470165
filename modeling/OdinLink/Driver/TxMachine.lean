import OdinLink.Driver.StreamSend
import OdinLink.Lib.Threads

/-!
# Sends and their completions

A message is sent frame by frame from pool slots, or batch by batch from the batch buffers, and its
frames call back in any order. Every atomic operation, every piece of code under the batch pool's
lock and every call into the ring is one operation of a thread; plain writes to what no other thread
can see yet go with the operation before them.
-/

namespace OdinLink

open Threads History

def batchBufCount : Nat := 32

structure TxMsg where
  stream : Nat
  framesPending : Int
  refs : Int
  completionRef : Int
  done : Bool
  failed : Bool
  deriving DecidableEq, Repr

def TxMsg.fresh (st : Nat) : TxMsg := ⟨st, 0, 2, 1, false, false⟩

structure TxStream where
  refcount : Int
  txInFlight : Int
  txCompleted : Int
  deriving DecidableEq, Repr

structure BatchBuf where
  txMsg : Option Nat
  framesPending : Int
  deriving DecidableEq, Repr

/-- A frame on the ring: one of a pool slot, which names its message, or one of a batch buffer. -/
inductive RingFrame where
  | slot (k : Nat)
  | batch (b k : Nat)
  deriving DecidableEq, Repr

/-- A message is known by a number of its own and not by its address, which a later message may get.
It stays where it is after it is freed, so that an access to it is still seen. -/
structure TxMem where
  msgs : Nat → Option TxMsg
  streams : Nat → TxStream
  bufs : Nat → BatchBuf
  freeList : List Nat
  freeCount : Int
  ring : List RingFrame

inductive CompleteStage where
  | loadDone
  | readPending
  | xchg
  | put
  deriving DecidableEq, Repr

inductive ReleaseStage where
  | readFailed
  | decInFlight
  | putStream
  | free
  deriving DecidableEq, Repr

/-- Where a thread that works on a message stands. `left` frames are still to be sent, `rest` after
the next one; `own` tells that it is the sender, and `live` that the batch buffer named a message.
-/
inductive TxPos where
  | hold (mode : TxMode) (left : Nat)
  | count (mode : TxMode) (left : Nat)
  | wait (left : Nat)
  | get (rest : Nat)
  | copy (rest : Nat)
  | arm (rest : Nat)
  | submit (rest : Nat)
  | disarm
  | batchWait (left : Nat)
  | batchGet (rest : Nat)
  | fill (rest b i : Nat)
  | stage (rest b : Nat)
  | addPending (rest b : Nat)
  | submitBatch (rest b i : Nat)
  | subBatch (b unsub i : Nat)
  | subMsg (b unsub i : Nat)
  | putBack (b : Nat)
  | fail
  | drain
  | setDone
  | callback (canceled : Bool)
  | batchCallback (b : Nat) (canceled : Bool)
  | batchFail (b : Nat)
  | batchDec (b : Nat) (live : Bool)
  | batchPut (b : Nat) (live : Bool)
  | dec
  | complete (own : Bool) (stage : CompleteStage)
  | ownPut
  | release (own : Bool) (stage : ReleaseStage)
  deriving DecidableEq, Repr

inductive TxPc where
  | on (k : Nat) (pos : TxPos)
  | waitTx (st : Nat)
  | returned
  deriving DecidableEq, Repr

/-- `touch` is an access to a field of the message, other than those of the put that released
it; `zero` the moment its reference count reached zero. -/
inductive MsgEvent where
  | touch
  | held
  | counted (st : Nat)
  | accepted
  | calledBack
  | failed
  | done
  | zero
  | settled (st : Nat) (completed : Bool)
  | uncounted (st : Nat)
  | putStream
  | freed
  deriving DecidableEq, Repr

/-- `lost` is a counter that reached zero by the sender's correction, with nobody to put the
buffer back. -/
inductive BufEvent where
  | took
  | put
  | submitted
  | called
  | lost
  deriving DecidableEq, Repr

inductive TxEvent where
  | msg (k : Nat) (e : MsgEvent)
  | buf (b : Nat) (e : BufEvent)
  | waited (st : Nat)
  deriving DecidableEq, Repr

namespace TxMem

def init : TxMem where
  msgs _ := none
  streams _ := ⟨1, 0, 0⟩
  bufs _ := ⟨none, 0⟩
  freeList := List.range batchBufCount
  freeCount := batchBufCount
  ring := []

def setMsg (m : TxMem) (k : Nat) (g : TxMsg) : TxMem :=
  {m with msgs := fun j => if j = k then some g else m.msgs j}

def setStream (m : TxMem) (st : Nat) (r : TxStream) : TxMem :=
  {m with streams := fun j => if j = st then r else m.streams j}

def setBuf (m : TxMem) (b : Nat) (r : BatchBuf) : TxMem :=
  {m with bufs := fun j => if j = b then r else m.bufs j}

def batchPoolPut (m : TxMem) (b : Nat) : TxMem :=
  {m.setBuf b {m.bufs b with txMsg := none} with
    freeList := m.freeList ++ [b], freeCount := m.freeCount + 1}

def push (m : TxMem) (f : RingFrame) : TxMem := {m with ring := m.ring ++ [f]}

end TxMem

def nframes (rest : Nat) : Nat := min batchFrames (rest + 1)

def afterComplete (k : Nat) (own : Bool) : TxPc := if own then .on k .ownPut else .returned

def afterBatch (k : Nat) (live : Bool) : TxPc := if live then .on k .dec else .returned

section Ops
variable (m : TxMem) (k : Nat) (g : TxMsg) (ok : Bool)

/-- `odl_tb5_tx_msg_put`, up to the test of its decrement. -/
def msgPut (own : Bool) : TxMem × TxPc × List TxEvent :=
  let m' := m.setMsg k {g with refs := g.refs - 1}
  if g.refs = 1 then (m', .on k (.release own .readFailed), [.msg k .touch, .msg k .zero])
  else (m', afterComplete k own, [.msg k .touch])

def completeOp (own : Bool) : CompleteStage → TxMem × TxPc × List TxEvent
  | .loadDone =>
    (m, if g.done then .on k (.complete own .readPending) else afterComplete k own, [.msg k .touch])
  | .readPending =>
    (m, if g.framesPending = 0 then .on k (.complete own .xchg) else afterComplete k own,
      [.msg k .touch])
  | .xchg =>
    (m.setMsg k {g with completionRef := 0},
      if g.completionRef = 1 then .on k (.complete own .put) else afterComplete k own,
      [.msg k .touch])
  | .put => msgPut m k g own

def releaseOp (own : Bool) : ReleaseStage → TxMem × TxPc × List TxEvent
  | .readFailed =>
    let r := m.streams g.stream
    (if g.failed then m else m.setStream g.stream {r with txCompleted := r.txCompleted + 1},
      .on k (.release own .decInFlight), [.msg k (.settled g.stream !g.failed)])
  | .decInFlight =>
    let r := m.streams g.stream
    (m.setStream g.stream {r with txInFlight := r.txInFlight - 1}, .on k (.release own .putStream),
      [.msg k (.uncounted g.stream)])
  | .putStream =>
    let r := m.streams g.stream
    (m.setStream g.stream {r with refcount := r.refcount - 1}, .on k (.release own .free),
      [.msg k .putStream])
  | .free => (m, afterComplete k own, [.msg k .freed])

/-- One operation on message `k`. Waits, slots, user pages and the ring may fail, as `ok` says. -/
def onOp : TxPos → Option (TxMem × TxPc × List TxEvent)
  | .hold mode left =>
    let r := m.streams g.stream
    some (m.setStream g.stream {r with refcount := r.refcount + 1}, .on k (.count mode left),
      [.msg k .held])
  | .count mode left =>
    let r := m.streams g.stream
    some (m.setStream g.stream {r with txInFlight := r.txInFlight + 1},
      .on k (match mode with | .latency => .wait left | .throughput => .batchWait left),
      [.msg k (.counted g.stream)])
  -- odl_tb5_stream_send_latency
  | .wait 0 => some (m, .on k .setDone, [.msg k .touch])
  | .wait (rest + 1) => some (m, .on k (if ok then .get rest else .fail), [.msg k .touch])
  | .get rest => some (m, .on k (if ok then .copy rest else .wait (rest + 1)), [])
  | .copy rest => some (m, .on k (if ok then .arm rest else .fail), [.msg k .touch])
  | .arm rest =>
    some (m.setMsg k {g with framesPending := g.framesPending + 1}, .on k (.submit rest),
      [.msg k .touch])
  | .submit rest =>
    if ok then some (m.push (.slot k), .on k (.wait rest), [.msg k .accepted])
    else some (m, .on k .disarm, [])
  | .disarm =>
    some (m.setMsg k {g with framesPending := g.framesPending - 1}, .on k .fail, [.msg k .touch])
  -- odl_tb5_stream_send_throughput
  | .batchWait 0 => some (m, .on k .setDone, [])
  | .batchWait (rest + 1) =>
    if 0 < m.freeCount then some (m, .on k (.batchGet rest), [])
    else if ok then none
    else some (m, .on k .fail, [])
  | .batchGet rest =>
    match m.freeList with
    | [] => some (m, .on k (.batchWait (rest + 1)), [])
    | b :: free =>
      some ({m with freeList := free, freeCount := m.freeCount - 1}, .on k (.fill rest b 0),
        [.buf b .took])
  | .fill rest b i =>
    if i < nframes rest then some (m, .on k (if ok then .fill rest b (i + 1) else .putBack b), [])
    else some (m, .on k (.stage rest b), [])
  | .stage rest b => some (m.setBuf b ⟨some k, nframes rest⟩, .on k (.addPending rest b), [])
  | .addPending rest b =>
    some (m.setMsg k {g with framesPending := g.framesPending + nframes rest},
      .on k (.submitBatch rest b 0), [.msg k .touch])
  | .submitBatch rest b i =>
    if i < nframes rest then
      if ok then some (m.push (.batch b k), .on k (.submitBatch rest b (i + 1)),
        [.msg k .accepted, .buf b .submitted])
      else some (m, .on k (.subBatch b (nframes rest - i) i), [])
    else some (m, .on k (.batchWait (rest + 1 - nframes rest)), [])
  | .subBatch b unsub i =>
    let r := m.bufs b
    some (m.setBuf b {r with framesPending := r.framesPending - unsub}, .on k (.subMsg b unsub i),
      if i ≠ 0 ∧ r.framesPending = unsub then [.buf b .lost] else [])
  | .subMsg b unsub i =>
    some (m.setMsg k {g with framesPending := g.framesPending - unsub},
      .on k (if i = 0 then .putBack b else .fail), [.msg k .touch])
  | .putBack b => some (m.batchPoolPut b, .on k .fail, [.buf b .put])
  -- their common end
  | .fail => some (m.setMsg k {g with failed := true}, .on k .drain, [.msg k .touch, .msg k .failed])
  | .drain => some (m, .on k .setDone, [.msg k .touch])
  | .setDone =>
    some (m.setMsg k {g with done := true}, .on k (.complete true .loadDone),
      [.msg k .touch, .msg k .done])
  -- odl_tb5_tx_callback
  | .callback canceled =>
    if canceled then some (m.setMsg k {g with failed := true}, .on k .dec,
      [.msg k .touch, .msg k .failed])
    else some (m, .on k .dec, [])
  -- odl_tb5_tx_batch_callback
  | .batchCallback b canceled =>
    match (m.bufs b).txMsg with
    | none => some (m, .on k (.batchDec b false), [])
    | some j => some (m, .on j (if canceled then .batchFail b else .batchDec b true), [])
  | .batchFail b =>
    some (m.setMsg k {g with failed := true}, .on k (.batchDec b true),
      [.msg k .touch, .msg k .failed])
  | .batchDec b live =>
    let r := m.bufs b
    some (m.setBuf b {r with framesPending := r.framesPending - 1},
      if r.framesPending = 1 then .on k (.batchPut b live) else afterBatch k live, [.buf b .called])
  | .batchPut b live => some (m.batchPoolPut b, afterBatch k live, [.buf b .put])
  | .dec =>
    some (m.setMsg k {g with framesPending := g.framesPending - 1},
      if g.framesPending = 1 then .on k (.complete false .loadDone) else .returned,
      [.msg k .touch, .msg k .calledBack])
  | .complete own stage => some (completeOp m k g own stage)
  | .ownPut => some (msgPut m k g false)
  | .release own stage => some (releaseOp m k g own stage)

def txOp : TxPc → Bool → Option (TxMem × TxPc × List TxEvent)
  | .on k pos, ok => (m.msgs k).bind fun g => onOp m k g ok pos
  -- odl_tb5_stream_wait_tx: zero is returned once nothing is in flight
  | .waitTx st, ok =>
    if (m.streams st).txInFlight = 0 then some (m, .returned, [.waited st])
    else if ok then none
    else some (m, .returned, [])
  | .returned, _ => none

end Ops

/-- A message is a fresh allocation; a frame leaves the ring with its callback. -/
inductive TxStart where
  | send (k st : Nat) (mode : TxMode) (frames : Nat)
  | complete (i : Nat) (canceled : Bool)
  | waitTx (st : Nat)
  deriving DecidableEq, Repr

def RingFrame.callback (canceled : Bool) : RingFrame → TxPc
  | .slot k => .on k (.callback canceled)
  | .batch b k => .on k (.batchCallback b canceled)

def txStart (m : TxMem) : TxStart → Option (TxMem × Option TxPc × List TxEvent)
  | .send k st mode frames =>
    if m.msgs k = none ∧ frames ≠ 0 then
      some (m.setMsg k (.fresh st), some (.on k (.hold mode frames)), [])
    else none
  | .complete i canceled =>
    m.ring[i]?.map fun f => ({m with ring := m.ring.eraseIdx i}, some (f.callback canceled), [])
  | .waitTx st => some (m, some (.waitTx st), [])

def txProg : Prog TxMem TxPc TxStart Bool TxEvent := ⟨txStart, txOp⟩

end OdinLink
