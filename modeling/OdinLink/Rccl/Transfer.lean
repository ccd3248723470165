import Mathlib.Algebra.Group.Int.Defs
import Mathlib.Algebra.Group.Nat.Defs
import OdinLink.Lib.Chunks
import OdinLink.Lib.History

/-!
# Transfers of the RCCL plugin

A connected pair: on one side a worker sends what `isend` queued, on the other a worker receives
into what `irecv` queued. A transfer is a message with the length and then the data in messages of
at most `odlChunk` bytes. Every call of `stream_send` and `stream_recv` is a step of its own.
-/

namespace OdinLink

open History

def odlChunk : Nat := 4000

def intMax : Nat := 2 ^ 31

def headerBytes (size : Nat) : List UInt8 :=
  [UInt8.ofNat size, UInt8.ofNat (size / 2 ^ 8), UInt8.ofNat (size / 2 ^ 16),
    UInt8.ofNat (size / 2 ^ 24)]

def headerTotal : List UInt8 → Nat
  | [a, b, c, d] => a.toNat + 2 ^ 8 * b.toNat + 2 ^ 16 * c.toNat + 2 ^ 24 * d.toNat
  | _ => 0

def toInt (total : Nat) : Int := if total < intMax then total else total - 2 ^ 32

inductive SenderPc where
  | idle
  | header (data : List UInt8)
  | chunk (data : List UInt8) (off : Nat)
  deriving DecidableEq, Repr

/-- `buf` is the content of the buffer so far. -/
inductive ReceiverPc where
  | idle
  | header (buf : List UInt8)
  | chunk (buf : List UInt8) (total off : Nat)
  deriving DecidableEq, Repr

structure IrecvResult where
  buf : List UInt8
  failed : Bool
  doneSize : Nat
  deriving DecidableEq, Repr

/-- `test` of an irecv: nothing yet, `rcclSystemError`, or the size. -/
def testRequest : Option IrecvResult → Option (Except Unit Nat)
  | none => none
  | some r => some (if r.failed then .error () else .ok r.doneSize)

/-- The two communicators and the stream between them. The fields from `isends` on are a record:
what was posted, delivered (with its number) and taken off the stream. -/
structure RcclLink where
  sendQueue : List (List UInt8)
  sender : SenderPc
  isendDone : List Bool
  channel : List (List UInt8)
  recvQueue : List (List UInt8)
  receiver : ReceiverPc
  irecvDone : List IrecvResult
  isends : List (List UInt8)
  irecvs : List (List UInt8)
  delivered : List (Nat × List UInt8)
  received : List (List UInt8)
  deriving DecidableEq, Repr

inductive Fate where
  | delivered
  | lost
  | refused
  deriving DecidableEq, Repr

namespace RcclLink

def connected : RcclLink := ⟨[], .idle, [], [], [], .idle, [], [], [], [], []⟩

section Send
variable (l : RcclLink)

def put (msg : List UInt8) : Fate → RcclLink
  | .delivered => {l with channel := l.channel ++ [msg]}
  | _ => l

def putHeader (data : List UInt8) : Fate → RcclLink
  | .delivered =>
    {l with
      channel := l.channel ++ [headerBytes data.length],
      delivered := l.delivered ++ [(l.isendDone.length, data)]}
  | _ => l

def sendNext (data : List UInt8) (off : Nat) (fate : Fate) : RcclLink :=
  if fate = .refused then {l with sender := .idle, isendDone := l.isendDone ++ [true]}
  else if off < data.length then {l with sender := .chunk data off}
  else {l with sender := .idle, isendDone := l.isendDone ++ [false]}

def senderStep (fate : Fate) : Option RcclLink :=
  match l.sender with
  | .idle =>
    match l.sendQueue with
    | [] => none
    | data :: sendQueue => some {l with sendQueue := sendQueue, sender := .header data}
  | .header data => some ((l.putHeader data fate).sendNext data 0 fate)
  | .chunk data off =>
    let n := min (data.length - off) odlChunk
    some ((l.put ((data.drop off).take n) fate).sendNext data (off + n) fate)

end Send

section Receive
variable (l : RcclLink)

def pull (msg : List UInt8) (channel : List (List UInt8)) : RcclLink :=
  {l with channel := channel, received := l.received ++ [msg]}

def recvDone (r : IrecvResult) : RcclLink :=
  {l with receiver := .idle, irecvDone := l.irecvDone ++ [r]}

def recvNext (buf : List UInt8) (total off : Nat) : RcclLink :=
  if (off : Int) < toInt total then {l with receiver := .chunk buf total off}
  else l.recvDone ⟨buf, decide (buf.length < total), off⟩

def writeChunk (buf : List UInt8) (total off : Nat) (got : List UInt8) : List UInt8 :=
  if buf.length < total then buf
  else buf.take off ++ got ++ buf.drop (off + got.length)

/-- `ok` is whether `stream_recv` succeeds. -/
def receiverStep (ok : Bool) : Option RcclLink :=
  match l.receiver with
  | .idle =>
    match l.recvQueue with
    | [] => none
    | buf :: recvQueue => some {l with recvQueue := recvQueue, receiver := .header buf}
  | .header buf =>
    if !ok then some (l.recvDone ⟨buf, true, 0⟩)
    else
      match l.channel with
      | [] => none
      | msg :: channel =>
        let got := msg.take 4
        if got.length ≠ 4 then some ((l.pull msg channel).recvDone ⟨buf, true, 0⟩)
        else some ((l.pull msg channel).recvNext buf (headerTotal got) 0)
  | .chunk buf total off =>
    if !ok then some (l.recvDone ⟨buf, true, off⟩)
    else
      match l.channel with
      | [] => none
      | msg :: channel =>
        let got := msg.take (min (total - off) odlChunk)
        let buf := writeChunk buf total off got
        if got.length = 0 then
          some ((l.pull msg channel).recvDone ⟨buf, decide (buf.length < total), off⟩)
        else some ((l.pull msg channel).recvNext buf total (off + got.length))

end Receive

end RcclLink

inductive RcclAct where
  | isend (data : List UInt8)
  | irecv (buf : List UInt8)
  | sender (fate : Fate)
  | receiver (ok : Bool)
  deriving DecidableEq, Repr

def RcclAct.worker : RcclAct → Bool
  | .sender _ | .receiver _ => true
  | _ => false

def RcclLink.step (l : RcclLink) : RcclAct → Option (RcclLink × List Empty)
  | .isend data =>
    if data.length < intMax then
      some ({l with sendQueue := l.sendQueue ++ [data], isends := l.isends ++ [data]}, [])
    else none
  | .irecv buf =>
    if buf.length < intMax then
      some ({l with recvQueue := l.recvQueue ++ [buf], irecvs := l.irecvs ++ [buf]}, [])
    else none
  | .sender fate => (l.senderStep fate).map (·, [])
  | .receiver ok => (l.receiverStep ok).map (·, [])

end OdinLink
