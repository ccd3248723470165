import OdinLink.Lib.Threads
import OdinLink.Rccl.Transfer

/-!
# Connections of the RCCL plugin

All connections of a process share one handle of the device, which counts its references, and each
has a stream of its own. A stream is opened by `listen` or `connect`; `accept` hands the stream and
the reference of a listener to a communicator; `closeSend`, `closeRecv` and `closeListen` give both
back.
-/

namespace OdinLink

open Threads History

/-- A stream: its id, and how many streams the plugin had opened before it. The driver knows the id
only. -/
structure RcclStream where
  id : Nat
  serial : Nat
  deriving DecidableEq, Repr

structure ListenHandle where
  handle : Nat
  stream : RcclStream
  accepted : Bool
  freed : Bool
  deriving DecidableEq, Repr

structure RcclRequest where
  isSend : Bool
  size : Nat
  deriving DecidableEq, Repr

structure CallRet where
  ok : Bool
  actual : Nat
  total : Nat
  deriving DecidableEq, Repr

inductive Xfer where
  | sendHeader (size : Nat)
  | sendChunk (size off : Nat)
  | recvHeader
  | recvChunk (total off : Nat)
  deriving DecidableEq, Repr

namespace Xfer

def begin (req : RcclRequest) : Xfer := if req.isSend then .sendHeader req.size else .recvHeader

def next : Xfer → CallRet → Option Xfer
  | .sendHeader size, r => if r.ok = true ∧ 0 < size then some (.sendChunk size 0) else none
  | .sendChunk size off, r =>
    let off := off + min (size - off) odlChunk
    if r.ok = true ∧ off < size then some (.sendChunk size off) else none
  | .recvHeader, r =>
    if r.ok = true ∧ r.actual = 4 ∧ 0 < toInt r.total then some (.recvChunk r.total 0) else none
  | .recvChunk total off, r =>
    if r.ok = true ∧ r.actual ≠ 0 ∧ ((off + r.actual : Nat) : Int) < toInt total then
      some (.recvChunk total (off + r.actual))
    else none

theorem next_of_failed {x : Xfer} {r : CallRet} (hr : r.ok = false) : x.next r = none := by
  cases x <;> simp [next, hr]

end Xfer

inductive CommWorkerPc where
  | waiting
  | ready (x : Xfer)
  | inCall (x : Xfer)
  | exited
  deriving DecidableEq, Repr

inductive CloserPc where
  | none
  | stopping
  | closed
  | joining
  deriving DecidableEq, Repr

/-- `streamId` is the field `stream_id`, which `comm_stop_worker` clears. -/
structure RcclComm where
  handle : Nat
  stream : RcclStream
  streamId : Nat
  queue : List RcclRequest
  stop : Bool
  worker : CommWorkerPc
  closer : CloserPc
  deriving DecidableEq, Repr

def RcclComm.start (handle : Nat) (stream : RcclStream) : RcclComm :=
  ⟨handle, stream, stream.id, [], false, .waiting, .none⟩

/-- Who has a reference on the shared handle, a listener apart: a call of RCCL before it opens a
stream, before it starts the worker, before it closes a stream, before `put_shared_handle`; or a
communicator. -/
inductive Strand where
  | opening (listen : Bool) (handle : Nat)
  | starting (handle : Nat) (stream : RcclStream)
  | undoing (handle id : Nat) (stream : RcclStream)
  | putting
  | comm (c : RcclComm)
  | returned
  deriving DecidableEq, Repr

/-- `gHandle` is which of the opens of the device the handle is from. `streams` is what the driver
has open for it. -/
structure PluginMem where
  gHandle : Option Nat
  gHandleRefs : Int
  opens : Nat
  serial : Nat
  streams : List RcclStream
  listeners : List ListenHandle
  deriving DecidableEq, Repr

inductive PluginEvent where
  | opened (handle : Nat)
  | used (handle : Nat)
  | closed (handle : Nat)
  | streamOpened (handle : Nat) (stream : RcclStream)
  | streamClosed (handle id : Nat) (stream : RcclStream)
  | issued (handle id : Nat) (stream : RcclStream)
  deriving DecidableEq, Repr

inductive GetRet where
  | noDevice
  | noPeer
  | ready
  deriving DecidableEq, Repr

/-- `alloc` is whether there is memory, and for `listen` also whether `dev` is in range. -/
inductive PluginCall where
  | listen (alloc : Bool) (get : GetRet)
  | connect (alloc : Bool) (get : GetRet)
  | accept (l : Nat) (alloc : Bool)
  | closeListen (l : Nat)
  deriving DecidableEq, Repr

/-- What comes next of a call or a communicator, with the answers it gets. `taken` are the ids that
other processes have open. -/
inductive PluginInput where
  | streamOpen (ok : Bool) (taken : List Nat)
  | threadCreate (ok : Bool)
  | go
  | post (req : RcclRequest)
  | worker (ret : CallRet)
  | close
  deriving DecidableEq, Repr

namespace PluginMem

def init : PluginMem := ⟨none, 0, 0, 0, [], []⟩

variable (m : PluginMem)

def getSharedHandle (get : GetRet) : PluginMem × Option Nat × List PluginEvent :=
  match m.gHandle with
  | some g => ({m with gHandleRefs := m.gHandleRefs + 1}, some g, [])
  | none =>
    match get with
    | .noDevice => (m, none, [])
    | .noPeer =>
      ({m with opens := m.opens + 1}, none, [.opened m.opens, .used m.opens, .closed m.opens])
    | .ready =>
      ({m with
          gHandle := some m.opens, gHandleRefs := m.gHandleRefs + 1, opens := m.opens + 1},
        some m.opens, [.opened m.opens, .used m.opens])

/-- The driver closes what is open on a handle with it. -/
def putSharedHandle : PluginMem × List PluginEvent :=
  match m.gHandle with
  | none => (m, [])
  | some g =>
    if m.gHandleRefs - 1 = 0 then
      ({m with gHandle := none, gHandleRefs := 0, streams := []}, [.closed g])
    else ({m with gHandleRefs := m.gHandleRefs - 1}, [])

/-- `ida_alloc_range` of the driver: the lowest id that is free. -/
def streamCreate (taken : List Nat) : Option RcclStream :=
  ((List.range' 20 236).find? fun id => !(taken ++ m.streams.map (·.id)).contains id).map
    (⟨·, m.serial⟩)

def addStream (st : RcclStream) : PluginMem :=
  {m with serial := m.serial + 1, streams := m.streams ++ [st]}

def closeStream (handle id : Nat) : PluginMem :=
  if m.gHandle = some handle then {m with streams := m.streams.filter (·.id ≠ id)} else m

end PluginMem

section Ops
variable (m : PluginMem)

def openConnection (listen alloc : Bool) (get : GetRet) :
    PluginMem × Option Strand × List PluginEvent :=
  if alloc then
    ((m.getSharedHandle get).1, (m.getSharedHandle get).2.1.map (.opening listen),
      (m.getSharedHandle get).2.2)
  else (m, none, [])

/-- RCCL passes a listener only while it has not closed it. -/
def onListener (l : Nat) (f : ListenHandle → PluginMem × Option Strand × List PluginEvent) :
    Option (PluginMem × Option Strand × List PluginEvent) :=
  m.listeners[l]?.bind fun lh => if lh.freed then none else some (f lh)

def pluginStart : PluginCall → Option (PluginMem × Option Strand × List PluginEvent)
  | .listen alloc get => some (openConnection m true alloc get)
  | .connect alloc get => some (openConnection m false alloc get)
  | .accept l alloc => onListener m l fun lh =>
    if alloc then
      ({m with listeners := m.listeners.set l {lh with accepted := true}},
        some (.starting lh.handle lh.stream), [])
    else (m, none, [])
  | .closeListen l => onListener m l fun lh =>
    ({m with listeners := m.listeners.set l {lh with freed := true}},
      if lh.accepted then none else some (.undoing lh.handle lh.stream.id lh.stream), [])

def openStream (listen : Bool) (handle : Nat) :
    Option RcclStream → PluginMem × Strand × List PluginEvent
  | none => (m, .putting, [.used handle])
  | some st =>
    if listen then
      ({m.addStream st with listeners := m.listeners ++ [⟨handle, st, false, false⟩]}, .returned,
        [.streamOpened handle st])
    else (m.addStream st, .starting handle st, [.streamOpened handle st])

def commWorkerOp (c : RcclComm) (ret : CallRet) : Option (RcclComm × List PluginEvent) :=
  match c.worker with
  | .waiting =>
    match c.queue with
    | req :: queue => some ({c with queue := queue, worker := .ready (.begin req)}, [])
    | [] => if c.stop then some ({c with worker := .exited}, []) else none
  | .ready x => some ({c with worker := .inCall x}, [.issued c.handle c.streamId c.stream])
  | .inCall x => some ({c with worker := ((x.next ret).map .ready).getD .waiting}, [])
  | .exited => none

/-- `closeSend`, `comm_stop_worker` included. -/
def commCloseOp (c : RcclComm) : Option (PluginMem × Strand × List PluginEvent) :=
  match c.closer with
  | .none => some (m, .comm {c with stop := true, closer := .stopping}, [])
  | .stopping =>
    if 0 < c.streamId then
      some (m.closeStream c.handle c.streamId, .comm {c with closer := .closed},
        [.streamClosed c.handle c.streamId c.stream])
    else some (m, .comm {c with closer := .joining}, [])
  | .closed => some (m, .comm {c with streamId := 0, closer := .joining}, [])
  | .joining =>
    if c.worker = .exited then
      some (m, if 0 < c.streamId then .undoing c.handle c.streamId c.stream else .putting, [])
    else none

def pluginOp : Strand → PluginInput → Option (PluginMem × Strand × List PluginEvent)
  | .opening listen handle, .streamOpen ok taken =>
    some (openStream m listen handle (if ok then m.streamCreate taken else none))
  | .starting handle st, .threadCreate ok =>
    some (m, if ok then .comm (.start handle st) else .undoing handle st.id st, [])
  | .undoing handle id st, .go =>
    some (m.closeStream handle id, .putting, [.streamClosed handle id st])
  | .putting, .go => some (m.putSharedHandle.1, .returned, m.putSharedHandle.2)
  -- a request is posted only before the communicator is closed
  | .comm c, .post req =>
    if c.closer = .none then some (m, .comm {c with queue := c.queue ++ [req]}, []) else none
  | .comm c, .worker ret => (commWorkerOp c ret).map fun r => (m, .comm r.1, r.2)
  | .comm c, .close => commCloseOp m c
  | _, _ => none

end Ops

def pluginProg : Prog PluginMem Strand PluginCall PluginInput PluginEvent where
  start := pluginStart
  op := pluginOp

/-! What the plugin has open, told from the calls it made. -/

structure Held where
  device : Option Nat
  streams : List RcclStream
  deriving DecidableEq, Repr

namespace Held

def nothing : Held := ⟨none, []⟩

/-- A call in its turn: the device is opened once at a time, closed once and with no stream left,
and used in between; a stream is opened under an id that is free, and closed once and under its own
id. -/
def after (d : Held) : PluginEvent → Option Held
  | .opened handle => if d.device = none then some ⟨some handle, []⟩ else none
  | .used handle => if d.device = some handle then some d else none
  | .closed handle => if d.device = some handle ∧ d.streams = [] then some nothing else none
  | .streamOpened handle st =>
    if d.device = some handle ∧ st.id ∉ d.streams.map (·.id) then
      some ⟨d.device, d.streams ++ [st]⟩
    else none
  | .streamClosed handle id st =>
    if d.device = some handle ∧ st ∈ d.streams ∧ st.id = id then
      some ⟨d.device, d.streams.filter (·.id ≠ id)⟩
    else none
  | .issued handle _ _ => if d.device = some handle then some d else none

def afterAll (d : Held) : List PluginEvent → Option Held
  | [] => some d
  | e :: es => (d.after e).bind (·.afterAll es)

theorem afterAll_append (d : Held) (es fs : List PluginEvent) :
    d.afterAll (es ++ fs) = (d.afterAll es).bind (·.afterAll fs) := by
  induction es generalizing d with
  | nil => rfl
  | cons e es ih =>
    rw [List.cons_append, afterAll, afterAll, Option.bind_assoc]
    exact congrArg _ (funext ih)

end Held

end OdinLink
