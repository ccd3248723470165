import OdinLink.Verbs.CompletionQueue

/-!
# The receive queue of a queue pair

Threads post receive buffers; drainers receive messages of the stream into them. A drainer looks at
the buffer at the head with the queue lock held, receives into it without that lock, and takes it
off the queue with the lock again. A second lock, which is only tried, keeps a second drainer out.

Everything between two operations on the queue lock is one operation; every buffer of a posted list
is queued by its own.
-/

namespace OdinLink

open Threads History

def rqDepth : Nat := 256

structure RecvWr where
  wrId : Nat
  sgList : List Sge
  deriving DecidableEq, Repr

/-- An entry of the arrays `rq_wr_id`, `rq_addr` and `rq_len`; `seq` is the number of buffers
accepted before it, which is not in the source. -/
structure RecvEntry where
  seq : Nat
  wrId : Nat
  addr : Nat
  len : Nat
  deriving DecidableEq, Repr

/-- A write to the application's memory: its own, or that of a message for the buffer `slot`. -/
structure BufferWrite where
  slot : Option Nat
  addr : Nat
  bytes : List UInt8
  deriving DecidableEq, Repr

/-- The receive side of a queue pair, its completion queue, the messages that wait in the stream and
the application's memory. The fields from `accepted` on are a record of what happened, in order. -/
structure RqMem where
  drainLock : Bool
  rqLock : Bool
  rq : CircularBuffer RecvEntry
  pendingRecvs : Int
  recvCq : Option Cq
  user : Mem
  inbound : List (List UInt8)
  accepted : List RecvEntry
  arrived : List (List UInt8)
  writes : List BufferWrite
  posted : List (Option Nat × Wc)
  polled : List Wc

def createRq (recvCq : Option Cq) (user : Mem) : RqMem where
  drainLock := false
  rqLock := false
  rq := ⟨rqDepth, fun _ => ⟨0, 0, 0, 0⟩, 0, 0, 0⟩
  pendingRecvs := 0
  recvCq := recvCq
  user := user
  inbound := []
  accepted := []
  arrived := []
  writes := []
  posted := []
  polled := []

def RqMem.write (m : RqMem) (w : BufferWrite) : RqMem :=
  {m with user := m.user.overwrite w.addr w.bytes, writes := m.writes ++ [w]}

inductive PostRecvPc where
  | lock (wrs : List RecvWr)
  | loop (wrs : List RecvWr)
  | unlock (badWr : Option RecvWr)
  deriving DecidableEq, Repr

/-- `n` is the number of completions so far, `got` the length of a received message or `none` after
an error. -/
inductive DrainPc where
  | tryLock
  | peek (n : Nat)
  | recv (e : RecvEntry) (n : Nat)
  | dequeue (e : RecvEntry) (got : Option Nat) (n : Nat)
  | report (e : RecvEntry) (wc : Wc) (n : Nat)
  | unlock (n : Nat)
  deriving DecidableEq, Repr

inductive RqPc where
  | post (pc : PostRecvPc)
  | drain (pc : DrainPc)
  | returned (badWr : Option RecvWr)
  | drained (n : Nat)
  deriving DecidableEq, Repr

inductive RecvRet where
  | ok
  | again
  | err
  deriving DecidableEq, Repr

section Ops
variable (qpNum : Nat) (m : RqMem)

/-- `-EINVAL` without a buffer, or what the ioctl does: the first message is cut to the buffer. It
returns 0 only if a message waits. -/
def RqMem.streamRecv (e : RecvEntry) (ret : RecvRet) : Option (RqMem × Except RecvRet Nat) :=
  if e.addr = 0 ∨ e.len = 0 then some (m, .error .err)
  else
    match ret with
    | .again => some (m, .error .again)
    | .err => some (m, .error .err)
    | .ok =>
      match m.inbound with
      | [] => none
      | msg :: inbound =>
        some ({m with inbound := inbound}.write ⟨some e.seq, e.addr, msg.take e.len⟩,
          .ok (min msg.length e.len))

def postRecvOp : PostRecvPc → Option (RqMem × RqPc)
  | .lock wrs => if m.rqLock then none else some ({m with rqLock := true}, .post (.loop wrs))
  | .loop [] => some (m, .post (.unlock none))
  | .loop (wr :: wrs) =>
    if rqDepth ≤ m.rq.count then some (m, .post (.unlock (some wr)))
    else
      match wr.sgList with
      | [] => some (m, .post (.loop wrs))
      | sge :: _ =>
        let e : RecvEntry := ⟨m.accepted.length, wr.wrId, sge.addr, sge.length⟩
        some ({m with
            rq := m.rq.push e, accepted := m.accepted ++ [e], pendingRecvs := m.pendingRecvs + 1},
          .post (.loop wrs))
  | .unlock badWr => some ({m with rqLock := false}, .returned badWr)

def RecvEntry.wc (e : RecvEntry) (got : Option Nat) : Wc :=
  match got with
  | some actual => ⟨e.wrId, .success, .recv, actual, qpNum⟩
  | none => ⟨e.wrId, .generalErr, .recv, 0, qpNum⟩

def RqMem.cqPost (slot : Option Nat) (wc : Wc) : RqMem :=
  match m.recvCq.bind (·.post wc) with
  | none => m
  | some cq => {m with recvCq := some cq, posted := m.posted ++ [(slot, wc)]}

def drainOp : DrainPc → RecvRet → Option (RqMem × RqPc)
  | .tryLock, _ =>
    if m.drainLock then some (m, .drained 0)
    else some ({m with drainLock := true}, .drain (.peek 0))
  | .peek n, _ =>
    if m.rqLock then none
    else if m.rq.count = 0 then some (m, .drain (.unlock n))
    else some (m, .drain (.recv m.rq.front n))
  | .recv e n, ret =>
    (m.streamRecv e ret).map fun r =>
      match r.2 with
      | .error .again => (r.1, .drain (.unlock n))
      | .error _ => (r.1, .drain (.dequeue e none n))
      | .ok actual => (r.1, .drain (.dequeue e (some actual) n))
  | .dequeue e got n, _ =>
    if m.rqLock then none
    else some ({m with
        rq := if 0 < m.rq.count then m.rq.pop else m.rq, pendingRecvs := m.pendingRecvs - 1},
      .drain (.report e (e.wc qpNum got) n))
  | .report e wc n, _ => some (m.cqPost (some e.seq) wc, .drain (.peek (n + 1)))
  | .unlock n, _ => some ({m with drainLock := false}, .drained n)

def rqOp : RqPc → RecvRet → Option (RqMem × RqPc × List Empty)
  | .post pc, _ => (postRecvOp m pc).map fun r => (r.1, r.2, [])
  | .drain pc, ret => (drainOp qpNum m pc ret).map fun r => (r.1, r.2, [])
  | .returned _, _ => none
  | .drained _, _ => none

end Ops

inductive RecvStart where
  | post (wrs : List RecvWr)
  | drain
  | arrive (msg : List UInt8)
  | write (addr : Nat) (bytes : List UInt8)
  | otherPost (wc : Wc)
  | pollCq (n : Nat)
  deriving DecidableEq, Repr

def recvStart (m : RqMem) : RecvStart → Option (RqMem × Option RqPc × List Empty)
  | .post wrs => some (m, some (.post (.lock wrs)), [])
  | .drain => some (m, some (.drain .tryLock), [])
  | .arrive msg =>
    some ({m with inbound := m.inbound ++ [msg], arrived := m.arrived ++ [msg]}, none, [])
  | .write addr bytes => some (m.write ⟨none, addr, bytes⟩, none, [])
  | .otherPost wc => some (m.cqPost none wc, none, [])
  | .pollCq n =>
    match m.recvCq with
    | none => some (m, none, [])
    | some cq =>
      some ({m with recvCq := some (cq.poll n).2, polled := m.polled ++ (cq.poll n).1}, none, [])

def recvProg (qpNum : Nat) : Prog RqMem RqPc RecvStart RecvRet Empty :=
  ⟨recvStart, rqOp qpNum⟩

/-- The completion queue has room when a drainer posts to it. -/
def cqHasRoom (s : Sys RqMem RqPc) : Move RecvStart RecvRet → Bool
  | .run i _ =>
    match s.pcs[i]? with
    | some (.drain (.report _ wc _)) => (s.mem.recvCq.bind (·.post wc)).isSome
    | _ => true
  | .start _ => true

end OdinLink
