import OdinLink.Driver.Wire
import OdinLink.Lib.CircularBuffer
import OdinLink.Lib.Threads

/-!
# The send queue of a queue pair

Any number of threads post lists of work requests; one worker sends what is queued. A small request
posted to an idle queue is sent by the posting thread itself.

Everything between two operations on the send queue lock is one operation, except that every
call of `stream_send` starts with one operation and ends with another, and that every work
request of a posted list is queued by an operation of its own.
-/

namespace OdinLink

open Threads History

def inlineMax : Nat := 4096
def compChannelBacklog : Nat := 64
def compChannelMax : Nat := 65536
def sqDepthMin : Nat := 64
def sqDepthMax : Nat := 65535

structure Sge where
  addr : Nat
  length : Nat
  lkey : Nat
  deriving DecidableEq, Repr

structure SendWr where
  wrId : Nat
  sgList : List Sge
  deriving DecidableEq, Repr

inductive WcStatus where
  | success
  | generalErr
  deriving DecidableEq, Repr

inductive WcOpcode where
  | send
  | recv
  deriving DecidableEq, Repr

structure Wc where
  wrId : Nat
  status : WcStatus
  opcode : WcOpcode
  byteLen : Nat
  qpNum : Nat
  deriving DecidableEq, Repr

/-- A completion ring; one slot is kept free to tell full from empty. -/
structure Cq where
  ring : Nat → Wc
  ringCap : Nat
  head : Nat
  tail : Nat

namespace Cq

def create (cqe : Int) : Cq where
  ring _ := ⟨0, .success, .send, 0, 0⟩
  ringCap := min (max ((if 0 < cqe then cqe.toNat else 1) + 1) compChannelBacklog) compChannelMax
  head := 0
  tail := 0

def post (cq : Cq) (wc : Wc) : Option Cq :=
  let next := (cq.tail + 1) % cq.ringCap
  if next = cq.head then none
  else some {cq with ring := Function.update cq.ring cq.tail wc, tail := next}

def poll (cq : Cq) : Nat → List Wc × Cq
  | 0 => ([], cq)
  | n + 1 =>
    if cq.head = cq.tail then ([], cq)
    else
      let r := {cq with head := (cq.head + 1) % cq.ringCap}.poll n
      (cq.ring cq.head :: r.1, r.2)

end Cq

/-- A request as it was accepted, or as it was handed to the stream; `seq` is the number of
requests accepted before it. -/
structure SendRequest where
  seq : Nat
  wrId : Nat
  bytes : List UInt8
  deriving DecidableEq, Repr

/-- The data of a queued request: the caller's buffer, or the bounce storage of a slot. -/
inductive SendAddr where
  | caller (addr : Nat)
  | bounce (slot : Nat)
  deriving DecidableEq, Repr

/-- `seq` is not in the source; it tells apart requests with one `wr_id`. -/
structure SendEntry where
  seq : Nat
  wrId : Nat
  addr : SendAddr
  len : Nat
  lkey : Nat
  numSge : Nat
  bounceStorage : List UInt8
  bounceCap : Nat
  deriving DecidableEq, Repr

def SendEntry.zero : SendEntry := ⟨0, 0, .caller 0, 0, 0, 0, [], 0⟩

/-- What a queue pair is set up with. `dmabufFd` finds the memory regions that are dma-bufs. -/
structure QpConfig where
  inlineEnabled : Bool
  directSend : Bool
  wcStreamCopyEnabled : Bool
  dmabufFd : Nat → Option Nat
  qpNum : Nat

def QpConfig.lookupDmabuf (cfg : QpConfig) (lkey : Nat) : Option Nat :=
  if lkey = 0 then none else cfg.dmabufFd lkey

/-- The queue pair, its send completion queue and the memory it reads. `accepted` and `stream` are
records, in order. -/
structure QpMem where
  sqLock : Bool
  sq : CircularBuffer SendEntry
  txInflight : Bool
  pendingSends : Int
  workerRunning : Bool
  sendCq : Option Cq
  user : Mem
  dmabuf : Nat → Mem
  accepted : List SendRequest
  stream : List SendRequest

def sqDepth (maxSendWr : Nat) : Nat := max (min maxSendWr sqDepthMax) sqDepthMin

def createQp (maxSendWr : Nat) (sendCq : Option Cq) (user : Mem) (dmabuf : Nat → Mem) : QpMem where
  sqLock := false
  sq := ⟨sqDepth maxSendWr, fun _ => .zero, 0, 0, 0⟩
  txInflight := false
  pendingSends := 0
  workerRunning := false
  sendCq := sendCq
  user := user
  dmabuf := dmabuf
  accepted := []
  stream := []

section Copy

/-- Aligned cache lines are read with streaming loads, what is before and behind them is copied;
`none` when there is no full line. -/
def wcStreamCopy (src : Mem) (addr bytes : Nat) : Option (List UInt8) :=
  let misalignment := addr % 64
  let lead := if misalignment = 0 then 0 else 64 - misalignment
  if lead + 64 ≤ bytes then
    let body := (bytes - lead) / 64 * 64
    let tail := bytes - lead - body
    some (src.read addr lead ++
      (List.range (body / 64)).flatMap (fun i => src.read (addr + lead + i * 64) 64) ++
      src.read (addr + lead + body) tail)
  else none

def bounceCopy (enabled : Bool) (src : Mem) (addr bytes : Nat) : List UInt8 :=
  if enabled then (wcStreamCopy src addr bytes).getD (src.read addr bytes)
  else src.read addr bytes

end Copy

def Mem.overwrite (mem : Mem) (addr : Nat) (bs : List UInt8) : Mem :=
  fun i => if addr ≤ i then bs.getD (i - addr) (mem i) else mem i

/-- The reallocated block; what `realloc` leaves undefined is zero here. -/
def SendEntry.grow (e : SendEntry) (n : Nat) : SendEntry :=
  {e with
    bounceStorage := e.bounceStorage.take n ++ List.replicate (n - e.bounceStorage.length) 0,
    bounceCap := n}

/-- Bounce storage for `n` bytes; `ok` is whether `realloc` succeeds. -/
def SendEntry.reserve (e : SendEntry) (n : Nat) (ok : Bool) : Option SendEntry :=
  if e.bounceCap < n then if ok then some (e.grow n) else none
  else some e

structure PeekedWr where
  seq : Nat
  wrId : Nat
  addr : SendAddr
  len : Nat
  lkey : Nat
  numSge : Nat
  deriving DecidableEq, Repr

def SendEntry.peeked (e : SendEntry) : PeekedWr := ⟨e.seq, e.wrId, e.addr, e.len, e.lkey, e.numSge⟩

section Data
variable (cfg : QpConfig) (m : QpMem)

def QpMem.buffered (wr : SendWr) : List UInt8 :=
  wr.sgList.flatMap fun sge =>
    match cfg.lookupDmabuf sge.lkey with
    | some fd => (m.dmabuf fd).read 0 sge.length
    | none => m.user.read sge.addr sge.length

def QpMem.payload (w : PeekedWr) : List UInt8 :=
  match w.addr with
  | .caller addr => m.user.read addr w.len
  | .bounce slot => (m.sq.slot slot).bounceStorage.take w.len

/-- The slot at the tail filled with a request; `none` when the bounce storage cannot grow. -/
def QpMem.fillEntry (wr : SendWr) (ok : Bool) : Option SendEntry :=
  let e := {m.sq.slot m.sq.tail with
    seq := m.accepted.length, wrId := wr.wrId, numSge := wr.sgList.length}
  match wr.sgList with
  | [] => some {e with addr := .caller 0, len := 0, lkey := 0}
  | sge :: _ =>
    if (cfg.lookupDmabuf sge.lkey).isNone && decide (0 < sge.length) && !cfg.directSend then
      (e.reserve sge.length ok).map fun e =>
        {e with
          bounceStorage := bounceCopy cfg.wcStreamCopyEnabled m.user sge.addr sge.length ++
            e.bounceStorage.drop sge.length,
          addr := .bounce m.sq.tail, len := sge.length, lkey := sge.lkey}
    else some {e with addr := .caller sge.addr, len := sge.length, lkey := sge.lkey}

end Data

inductive PostPc where
  | lock (wrs : List SendWr)
  | inlineSend (wr : SendWr) (sge : Sge)
  | inlineUnlock (seq : Nat) (wc : Wc)
  | inlineReport (seq : Nat) (wc : Wc)
  | loop (wrs : List SendWr)
  | unlock (badWr : Option SendWr)
  deriving DecidableEq, Repr

inductive WorkerPc where
  | peek
  | poll (w : PeekedWr)
  | sending (w : PeekedWr)
  | retain
  | dequeue (seq : Nat) (wc : Wc)
  | report (seq : Nat) (wc : Wc)
  deriving DecidableEq, Repr

/-- A post returns `-ENOMEM` with the first request it could not queue, or 0. -/
inductive SendPc where
  | post (pc : PostPc)
  | worker (pc : WorkerPc)
  | returned (badWr : Option SendWr)
  deriving DecidableEq, Repr

inductive WcLoss where
  | noCq
  | ringFull
  deriving DecidableEq, Repr

inductive SendEvent where
  | reported (seq : Nat) (wc : Wc)
  | lost (seq : Nat) (wc : Wc) (why : WcLoss)
  deriving DecidableEq, Repr

/-- What `stream_send` and `stream_send_dmabuf` return; for the bounce allocation, success or not. -/
inductive SendRet where
  | ok
  | again
  | err
  deriving DecidableEq, Repr

def cqPost (m : QpMem) (seq : Nat) (wc : Wc) : QpMem × List SendEvent :=
  match m.sendCq with
  | none => (m, [.lost seq wc .noCq])
  | some cq =>
    match cq.post wc with
    | none => (m, [.lost seq wc .ringFull])
    | some cq' => ({m with sendCq := some cq'}, [.reported seq wc])

section Ops
variable (cfg : QpConfig) (m : QpMem)

/-- The tests of the inline fast path, with the lock held. -/
def inlineSge : List SendWr → Option (SendWr × Sge)
  | [⟨wrId, [sge]⟩] =>
    if cfg.inlineEnabled && m.sq.count == 0 && !m.txInflight && decide (sge.length ≤ inlineMax) &&
        (cfg.lookupDmabuf sge.lkey).isNone then some (⟨wrId, [sge]⟩, sge)
    else none
  | _ => none

def postOp : PostPc → SendRet → Option (QpMem × SendPc × List SendEvent)
  | .lock wrs, _ =>
    if m.sqLock then none
    else some ({m with sqLock := true},
      match inlineSge cfg m wrs with
      | some (wr, sge) => .post (.inlineSend wr sge)
      | none => .post (.loop wrs), [])
  | .inlineSend wr sge, ret =>
    if ret = .ok then
      let r : SendRequest := ⟨m.accepted.length, wr.wrId, m.user.read sge.addr sge.length⟩
      some ({m with accepted := m.accepted ++ [r], stream := m.stream ++ [r]},
        .post (.inlineUnlock r.seq ⟨wr.wrId, .success, .send, sge.length, cfg.qpNum⟩), [])
    else some (m, .post (.loop [wr]), [])
  | .inlineUnlock seq wc, _ => some ({m with sqLock := false}, .post (.inlineReport seq wc), [])
  | .inlineReport seq wc, _ =>
    let r := cqPost m seq wc
    some (r.1, .returned none, r.2)
  | .loop [], _ => some (m, .post (.unlock none), [])
  | .loop (wr :: wrs), ret =>
    if m.sq.depth ≤ m.sq.count then some (m, .post (.unlock (some wr)), [])
    else
      match m.fillEntry cfg wr (ret == .ok) with
      | none =>
        some ({m with sq := m.sq.write {m.sq.slot m.sq.tail with
            wrId := wr.wrId, numSge := wr.sgList.length}}, .post (.unlock (some wr)), [])
      | some e =>
        let r : SendRequest := ⟨m.accepted.length, wr.wrId, m.buffered cfg wr⟩
        some ({m with
            sq := m.sq.push e, accepted := m.accepted ++ [r], pendingSends := m.pendingSends + 1},
          .post (.loop wrs), [])
  | .unlock badWr, _ => some ({m with sqLock := false}, .returned badWr, [])

/-- The worker's poll for readiness decides nothing: whatever it returns, the send is tried. A
dma-buf goes out in frames without a header, so no message is sent on the stream. -/
def workerOp : WorkerPc → SendRet → Option (QpMem × SendPc × List SendEvent)
  | .peek, _ =>
    if m.sqLock then none
    else if 0 < m.sq.count then
      some ({m with txInflight := true}, .worker (.poll m.sq.front.peeked), [])
    else some (m, .worker .peek, [])
  | .poll w, _ =>
    if 0 < w.numSge then some (m, .worker (.sending w), [])
    else some (m, .worker (.dequeue w.seq ⟨w.wrId, .success, .send, 0, cfg.qpNum⟩), [])
  | .sending w, .ok =>
    some ({m with stream := m.stream ++
        if (cfg.lookupDmabuf w.lkey).isSome then [] else [⟨w.seq, w.wrId, m.payload w⟩]},
      .worker (.dequeue w.seq ⟨w.wrId, .success, .send, w.len, cfg.qpNum⟩), [])
  | .sending _, .again => some (m, .worker .retain, [])
  | .sending w, .err =>
    some (m, .worker (.dequeue w.seq ⟨w.wrId, .generalErr, .send, 0, cfg.qpNum⟩), [])
  | .retain, _ =>
    if m.sqLock then none else some ({m with txInflight := false}, .worker .peek, [])
  | .dequeue seq wc, _ =>
    if m.sqLock then none
    else some ({m with sq := m.sq.pop, txInflight := false}, .worker (.report seq wc), [])
  | .report seq wc, _ =>
    let r := cqPost m seq wc
    some ({r.1 with pendingSends := r.1.pendingSends - 1}, .worker .peek, r.2)

def sendOp : SendPc → SendRet → Option (QpMem × SendPc × List SendEvent)
  | .post pc, ret => postOp cfg m pc ret
  | .worker pc, ret => workerOp cfg m pc ret
  | .returned _, _ => none

end Ops

/-- Besides the posts and the one worker: the application writes to its buffers and polls, and
other work posts completions to the same queue. -/
inductive SendStart where
  | post (wrs : List SendWr)
  | worker
  | write (addr : Nat) (bytes : List UInt8)
  | writeDmabuf (fd addr : Nat) (bytes : List UInt8)
  | otherPost (wc : Wc)
  | pollCq (n : Nat)
  deriving DecidableEq, Repr

def sendStart (m : QpMem) : SendStart → Option (QpMem × Option SendPc × List SendEvent)
  | .post wrs => some (m, some (.post (.lock wrs)), [])
  | .worker =>
    if m.workerRunning then none
    else some ({m with workerRunning := true}, some (.worker .peek), [])
  | .write addr bytes => some ({m with user := m.user.overwrite addr bytes}, none, [])
  | .writeDmabuf fd addr bytes =>
    some ({m with dmabuf := Function.update m.dmabuf fd ((m.dmabuf fd).overwrite addr bytes)},
      none, [])
  | .otherPost wc =>
    some ({m with sendCq := m.sendCq.map fun cq => (cq.post wc).getD cq}, none, [])
  | .pollCq n => some ({m with sendCq := m.sendCq.map fun cq => (cq.poll n).2}, none, [])

def sendProg (cfg : QpConfig) : Prog QpMem SendPc SendStart SendRet SendEvent :=
  ⟨sendStart, sendOp cfg⟩

end OdinLink
