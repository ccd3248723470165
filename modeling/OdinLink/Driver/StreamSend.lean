import OdinLink.Driver.Wire
import OdinLink.Lib.Chunks

/-!
# The send paths

A message is cut into frames by two loops: one frame at a time from the frame pool, or in batches of
64 from the batch buffers. What the pools, the user copy and the ring answer is given as an outcome
for each round.
-/

namespace OdinLink

def batchFrames : Nat := 64
def throughputThresh : Nat := 65536
def modeHysteresis : Nat := 4

def eIo : Int := 5
def eNoMem : Int := 12
def eFault : Int := 14
def eInval : Int := 22
def eNotConn : Int := 107
def eTimedOut : Int := 110

structure TxFrame where
  hdr : StreamHdr
  payload : List UInt8
  size : Nat
  sof : Nat
  eof : Nat
  deriving DecidableEq, Repr

def TxFrame.wire (f : TxFrame) : List UInt8 := (f.hdr.bytes ++ f.payload).take f.size

def shdrFlags (first last : Bool) : UInt8 :=
  if first && last then shdrFSingle
  else if first then shdrFMsgStart
  else if last then shdrFMsgEnd
  else 0

def buildFrame (srcId dstId : UInt8) (fragIdx : UInt16) (first last : Bool)
    (payload : List UInt8) : TxFrame where
  hdr :=
    { srcId := srcId
      dstId := dstId
      flags := shdrFlags first last
      reserved := 0
      payloadLen := UInt16.ofNat payload.length
      fragIdx := fragIdx }
  payload := payload
  size := streamHdrSize + payload.length
  sof := pdfSofData
  eof := pdfEofData

/-- How a send ends; `pending` is one that has not returned yet. -/
inductive SendEnd where
  | ok
  | failed (err : Int)
  | pending
  deriving DecidableEq, Repr

inductive FrameOutcome where
  | waitFailed (ret : Int)
  | noSlot
  | copyFault
  | ringRefused
  | submitted
  deriving DecidableEq, Repr

/-- One round of the throughput loop; a granted batch buffer may meet a fault in the copy of a
frame or a refusal of a frame by the ring. -/
inductive BatchOutcome where
  | waitFailed (ret : Int)
  | noBuf
  | granted (copyFault ringRefused : Nat → Bool)

def waitError (ret : Int) : Int := if ret = 0 then -eTimedOut else ret

section Loops
variable (srcId dstId : UInt8) (data : List UInt8)

def latencyLoop : List FrameOutcome → Nat → UInt16 → List TxFrame × SendEnd
  | [], sent, _ => ([], if sent < data.length then .pending else .ok)
  | o :: os, sent, fragIdx =>
    if sent < data.length then
      match o with
      | .waitFailed ret => ([], .failed (waitError ret))
      | .noSlot => latencyLoop os sent fragIdx
      | .copyFault => ([], .failed (-eFault))
      | .ringRefused => ([], .failed (-eIo))
      | .submitted =>
        let payload := (data.drop sent).take streamPayloadMax
        let f := buildFrame srcId dstId fragIdx (sent == 0)
          (sent + payload.length == data.length) payload
        let r := latencyLoop os (sent + payload.length) (fragIdx + 1)
        (f :: r.1, r.2)
    else ([], .ok)

def fillBatch (totalSent batchPayload : Nat) (copyFault : Nat → Bool) (fragIdx : UInt16)
    (i : Nat) : Nat → Option (List TxFrame)
  | 0 => some []
  | n + 1 =>
    let offset := i * streamPayloadMax
    let payload :=
      (data.drop (totalSent + offset)).take (min (batchPayload - offset) streamPayloadMax)
    if copyFault i then none
    else
      (fillBatch totalSent batchPayload copyFault (fragIdx + 1) (i + 1) n).map
        (buildFrame srcId dstId fragIdx (totalSent == 0 && i == 0)
          (totalSent + offset + payload.length == data.length) payload :: ·)

def submitBatch (ringRefused : Nat → Bool) (i : Nat) : List TxFrame → List TxFrame × Bool
  | [] => ([], true)
  | f :: fs =>
    if ringRefused i then ([], false)
    else
      let r := submitBatch ringRefused (i + 1) fs
      (f :: r.1, r.2)

def throughputLoop : List BatchOutcome → Nat → UInt16 → List TxFrame × SendEnd
  | [], totalSent, _ => ([], if totalSent < data.length then .pending else .ok)
  | o :: os, totalSent, fragIdx =>
    if totalSent < data.length then
      match o with
      | .waitFailed ret => ([], .failed (waitError ret))
      | .noBuf => throughputLoop os totalSent fragIdx
      | .granted copyFault ringRefused =>
        let batchPayload := min (data.length - totalSent) (batchFrames * streamPayloadMax)
        let nframes := Chunks.count streamPayloadMax batchPayload
        match fillBatch srcId dstId data totalSent batchPayload copyFault fragIdx 0 nframes with
        | none => ([], .failed (-eFault))
        | some frames =>
          let s := submitBatch ringRefused 0 frames
          if s.2 then
            let r := throughputLoop os (totalSent + batchPayload) (fragIdx + UInt16.ofNat nframes)
            (s.1 ++ r.1, r.2)
          else (s.1, .failed (-eIo))
    else ([], .ok)

end Loops

inductive TxMode where
  | latency
  | throughput
  deriving DecidableEq, Repr

structure SendEnv where
  msgAlloc : Bool
  frames : List FrameOutcome
  batches : List BatchOutcome

def streamSendLatency (srcId dstId : UInt8) (data : List UInt8) (env : SendEnv) :
    List TxFrame × SendEnd :=
  if env.msgAlloc then latencyLoop srcId dstId data env.frames 0 0
  else ([], .failed (-eNoMem))

def streamSendThroughput (srcId dstId : UInt8) (data : List UInt8) (env : SendEnv) :
    List TxFrame × SendEnd :=
  if env.msgAlloc then throughputLoop srcId dstId data env.batches 0 0
  else ([], .failed (-eNoMem))

def streamSendIn (mode : TxMode) (srcId dstId : UInt8) (data : List UInt8) (env : SendEnv) :
    List TxFrame × SendEnd :=
  match mode with
  | .latency => streamSendLatency srcId dstId data env
  | .throughput => streamSendThroughput srcId dstId data env

structure TxDevice where
  state : ConnState
  batchPool : Bool
  poolSize : Nat
  poolFree : Nat
  mode : TxMode
  consecutiveLow : Nat
  highWatermark : Nat
  lowWatermark : Nat
  deriving DecidableEq, Repr

def evaluateTxMode (dev : TxDevice) (msgLen : Nat) : TxDevice × TxMode :=
  if !dev.batchPool then (dev, .latency)
  else if throughputThresh < msgLen then
    ({dev with consecutiveLow := 0, mode := .throughput}, .throughput)
  else
    let poolUsed := dev.poolSize - dev.poolFree
    let nframes := Chunks.count streamPayloadMax msgLen
    match dev.mode with
    | .latency =>
      if dev.highWatermark < poolUsed + nframes then
        ({dev with consecutiveLow := 0, mode := .throughput}, .throughput)
      else (dev, .latency)
    | .throughput =>
      if poolUsed < dev.lowWatermark then
        if modeHysteresis ≤ dev.consecutiveLow + 1 then
          ({dev with consecutiveLow := 0, mode := .latency}, .latency)
        else ({dev with consecutiveLow := dev.consecutiveLow + 1}, .throughput)
      else ({dev with consecutiveLow := 0}, .throughput)

def streamSend (dev : TxDevice) (srcId dstId : UInt8) (data : List UInt8) (env : SendEnv) :
    TxDevice × List TxFrame × SendEnd :=
  if dev.state ≠ .ready then (dev, [], .failed (-eNotConn))
  else if data.length = 0 ∨ streamPayloadMax * streamMaxFrames < data.length then
    (dev, [], .failed (-eInval))
  else
    let m := evaluateTxMode dev data.length
    (m.1, streamSendIn m.2 srcId dstId data env)

end OdinLink
