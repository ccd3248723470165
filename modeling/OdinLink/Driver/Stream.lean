import OdinLink.Driver.Wire

/-!
# The receive side of one stream

A stream assembles the frames addressed to it and queues complete messages. The steps below are
those of the receive callback between the header check and the end of a frame.
-/

namespace OdinLink

structure RxMsg where
  srcId : UInt8
  flags : UInt8
  data : List UInt8
  deriving DecidableEq, Repr

structure Stream where
  id : UInt8
  rxQueue : List RxMsg
  rxQueueLen : Nat
  rxQueueMax : Nat
  rxComplete : Int
  rxAsmBuf : Option (List UInt8)
  rxAsmLen : Nat
  rxAsmCap : Nat
  rxAsmSrcId : UInt8
  rxAsmNextFrag : UInt16
  rxAsmBad : Bool
  rxFragDrops : Nat
  dying : Bool
  refcount : Nat
  deriving DecidableEq, Repr

def streamCreate (id : UInt8) : Stream where
  id := id
  rxQueue := []
  rxQueueLen := 0
  rxQueueMax := 65536
  rxComplete := 0
  rxAsmBuf := none
  rxAsmLen := 0
  rxAsmCap := 0
  rxAsmSrcId := 0
  rxAsmNextFrag := 0
  rxAsmBad := false
  rxFragDrops := 0
  dying := false
  refcount := 1

structure AllocEnv where
  kmalloc : Bool
  kzalloc : Bool
  deriving DecidableEq, Repr

def AllocEnv.ok : AllocEnv := ⟨true, true⟩

structure Arrival where
  hdr : StreamHdr
  payload : List UInt8
  alloc : AllocEnv
  deriving DecidableEq, Repr

namespace Stream

def asmFree (s : Stream) : Stream := {s with rxAsmBuf := none, rxAsmLen := 0, rxAsmCap := 0}

def asmBytes (s : Stream) : List UInt8 := (s.rxAsmBuf.getD []).take s.rxAsmLen

def asmStart (s : Stream) (h : StreamHdr) : Stream :=
  if h.isStart then
    {s.asmFree with rxAsmSrcId := h.srcId, rxAsmNextFrag := 0, rxAsmBad := false}
  else s

def asmSequence (s : Stream) (fidx : UInt16) : Stream :=
  if fidx ≠ s.rxAsmNextFrag then
    {s with rxAsmBad := true, rxFragDrops := s.rxFragDrops + 1, rxAsmNextFrag := fidx + 1}
  else {s with rxAsmNextFrag := fidx + 1}

def asmGrow (env : AllocEnv) (s : Stream) (payloadLen : Nat) : Stream :=
  if s.rxAsmCap < s.rxAsmLen + payloadLen then
    if env.kmalloc then
      {s with
        rxAsmBuf := some s.asmBytes,
        rxAsmCap := max 8192 (max (s.rxAsmCap * 2) (s.rxAsmLen + payloadLen))}
    else s
  else s

def asmFits (s : Stream) (payloadLen : Nat) : Bool :=
  s.rxAsmBuf.isSome && decide (s.rxAsmLen + payloadLen ≤ s.rxAsmCap)

def asmAppend (s : Stream) (payload : List UInt8) : Stream :=
  if s.asmFits payload.length then
    {s with
      rxAsmBuf := some (s.asmBytes ++ payload),
      rxAsmLen := s.rxAsmLen + payload.length}
  else s

def asmFrame (env : AllocEnv) (s : Stream) (h : StreamHdr) (payload : List UInt8) : Stream :=
  (((s.asmStart h).asmSequence h.fragIdx).asmGrow env payload.length).asmAppend payload

def asmCopies (env : AllocEnv) (s : Stream) (h : StreamHdr) (payloadLen : Nat) : Bool :=
  (((s.asmStart h).asmSequence h.fragIdx).asmGrow env payloadLen).asmFits payloadLen

def rxEnqueue (s : Stream) (m : RxMsg) : Stream × Option RxMsg :=
  if s.rxQueueLen < s.rxQueueMax then
    ({s with
      rxQueue := s.rxQueue ++ [m],
      rxQueueLen := s.rxQueueLen + 1,
      rxComplete := s.rxComplete + 1}, some m)
  else (s, none)

/-- End of message: queue it, or drop it when a fragment was missing. The message that went on
the queue is returned. -/
def rxFinish (env : AllocEnv) (s : Stream) : Stream × Option RxMsg :=
  if s.rxAsmBad then
    ({s.asmFree with rxAsmBad := false, rxAsmNextFrag := 0}, none)
  else if env.kzalloc && s.rxAsmBuf.isSome then
    let q := s.rxEnqueue ⟨s.rxAsmSrcId, shdrFMsgEnd, s.asmBytes⟩
    (q.1.asmFree, q.2)
  else (s.asmFree, none)

def rxFrame (env : AllocEnv) (s : Stream) (h : StreamHdr) (payload : List UInt8) :
    Stream × Option RxMsg :=
  let t := s.asmFrame env h payload
  if h.isEnd then t.rxFinish env else (t, none)

end Stream

inductive RecvResult where
  | blocked
  | shutdown
  | again
  | fault
  | message (srcId : UInt8) (data : List UInt8)
  deriving DecidableEq, Repr

def streamRecv (s : Stream) (bufLen : Nat) (copyFault : Bool) : Stream × RecvResult :=
  if s.rxComplete ≤ 0 then
    (s, if s.dying then .shutdown else .blocked)
  else match s.rxQueue with
    | [] => (s, .again)
    | m :: queue =>
      ({s with rxQueue := queue, rxQueueLen := s.rxQueueLen - 1, rxComplete := s.rxComplete - 1},
        if copyFault then .fault else .message m.srcId (m.data.take bufLen))

inductive StreamEvent where
  | frame (h : StreamHdr) (payload : List UInt8) (env : AllocEnv)
  | recv (bufLen : Nat) (copyFault : Bool)
  deriving DecidableEq, Repr

namespace Stream

/-- A stream whose last reference is gone is not found by the lookup. -/
def step (s : Stream) : StreamEvent → Stream × Option RxMsg
  | .frame h payload env => if s.refcount = 0 then (s, none) else s.rxFrame env h payload
  | .recv bufLen copyFault => ((streamRecv s bufLen copyFault).1, none)

def run (s : Stream) : List StreamEvent → Stream × List RxMsg
  | [] => (s, [])
  | e :: es =>
    let r := s.step e
    let q := r.1.run es
    (q.1, r.2.toList ++ q.2)

section Refcount
variable (s : Stream) (n : Nat) (env : AllocEnv) (h : StreamHdr) (payload : List UInt8)

theorem asmStart_refcount :
    asmStart {s with refcount := n} h = {s.asmStart h with refcount := n} := by
  unfold asmStart
  split <;> rfl

theorem asmSequence_refcount (fidx : UInt16) :
    asmSequence {s with refcount := n} fidx = {s.asmSequence fidx with refcount := n} := by
  unfold asmSequence
  split <;> rfl

theorem asmGrow_refcount (len : Nat) :
    asmGrow env {s with refcount := n} len = {s.asmGrow env len with refcount := n} := by
  unfold asmGrow
  split
  · split <;> rfl
  · rfl

theorem asmAppend_refcount :
    asmAppend {s with refcount := n} payload = {s.asmAppend payload with refcount := n} := by
  unfold asmAppend
  split <;> rename_i hf
  · rw [if_pos (show s.asmFits payload.length from hf)]
    rfl
  · rw [if_neg (show ¬ s.asmFits payload.length from hf)]

theorem rxFinish_refcount :
    rxFinish env {s with refcount := n} =
      ({(s.rxFinish env).1 with refcount := n}, (s.rxFinish env).2) := by
  unfold rxFinish
  split
  · rfl
  · split
    · unfold rxEnqueue
      split <;> rfl
    · rfl

theorem rxFrame_refcount :
    rxFrame env {s with refcount := n} h payload =
      ({(s.rxFrame env h payload).1 with refcount := n}, (s.rxFrame env h payload).2) := by
  have hframe : asmFrame env {s with refcount := n} h payload =
      {s.asmFrame env h payload with refcount := n} := by
    simp only [asmFrame, asmStart_refcount, asmSequence_refcount, asmGrow_refcount,
      asmAppend_refcount]
  unfold rxFrame
  rw [hframe]
  split
  · exact rxFinish_refcount _ n env
  · rfl

end Refcount

theorem rxFrame_keeps_refcount (s : Stream) (env : AllocEnv) (h : StreamHdr)
    (payload : List UInt8) : (s.rxFrame env h payload).1.refcount = s.refcount :=
  congrArg (fun r => r.1.refcount) (s.rxFrame_refcount s.refcount env h payload)

@[simp] theorem step_refcount (s : Stream) (e : StreamEvent) :
    (s.step e).1.refcount = s.refcount := by
  cases e with
  | frame h payload env =>
    simp only [step]
    split
    · rfl
    · exact s.rxFrame_keeps_refcount env h payload
  | recv bufLen copyFault =>
    simp only [step, streamRecv]
    split
    · rfl
    · split <;> rfl

@[simp] theorem run_nil (s : Stream) : s.run [] = (s, []) := rfl

theorem run_append (s : Stream) (es fs : List StreamEvent) :
    s.run (es ++ fs) = (((s.run es).1.run fs).1, (s.run es).2 ++ ((s.run es).1.run fs).2) := by
  induction es generalizing s with
  | nil => simp
  | cons e es ih => simp [run, ih, List.append_assoc]

end Stream

end OdinLink
