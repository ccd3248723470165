import OdinLink.Driver.NonblockingSend

/-!
# Software loopback devices

A loopback device is created without rings and without a frame pool and is ready at once. Its hooks
for sending and receiving are neither set nor called, so that a send takes the path of a real
device.
-/

namespace OdinLink

structure LoopbackDevice where
  tx : TxDevice
  streams : List Stream

structure LbCreateEnv where
  dev : Bool
  chardev : Option Int
  lb : Bool
  buf : Bool
  deriving DecidableEq, Repr

def lbCreate (env : LbCreateEnv) : Except Int LoopbackDevice :=
  if !env.dev then .error (-eNoMem)
  else
    match env.chardev with
    | some ret => .error ret
    | none =>
      if !env.lb then .error (-eNoMem)
      else if !env.buf then .error (-eNoMem)
      else
        .ok {
          tx := {
            state := .ready, batchPool := false, poolSize := 0, poolFree := 0, mode := .latency,
            consecutiveLow := 0, highWatermark := 0, lowWatermark := 0}
          streams := []}

/-- A round of a blocking send: slots that come back before it, what the wait returns if it finds
none, and the answers of the copy and the ring. -/
structure WaitRound where
  freed : Nat
  ret : Int
  copyFault : Bool
  ringRefused : Bool
  deriving DecidableEq, Repr

def waitedFrames (poolSize : Nat) : Nat → List WaitRound → List FrameOutcome
  | _, [] => []
  | free, r :: rs =>
    let free := min poolSize (free + r.freed)
    if txReserve < free then
      FrameRound.outcome ⟨r.freed, r.copyFault, r.ringRefused⟩ ::
        waitedFrames poolSize (free - 1) rs
    else [.waitFailed r.ret]

structure LoopSendEnv where
  copyReq : Bool
  msgAlloc : Bool
  rounds : Nat → WaitRound

namespace LoopbackDevice

variable (dev : LoopbackDevice)

def isOpen (id : UInt8) : Bool := dev.streams.any (·.id == id)

/-- A blocking `STREAM_SEND`. There are no batch buffers. -/
def send (srcId dstId : UInt8) (data : List UInt8) (env : LoopSendEnv) :
    LoopbackDevice × SendEnd :=
  if !env.copyReq then (dev, .failed (-eFault))
  else if !dev.isOpen srcId then (dev, .failed (-eNoEnt))
  else
    let rounds := (List.range (frameCount data)).map env.rounds
    let r := streamSend dev.tx srcId dstId data
      ⟨env.msgAlloc, waitedFrames dev.tx.poolSize dev.tx.poolFree rounds, []⟩
    ({dev with tx := r.1}, r.2.2)

def recv (id : UInt8) : LoopbackDevice :=
  {dev with
    streams := dev.streams.map fun s =>
      if s.id == id then {s with rxQueue := s.rxQueue.tail} else s}

end LoopbackDevice

inductive LoopOp where
  | openStream (id : UInt8)
  | closeStream (id : UInt8)
  | send (srcId dstId : UInt8) (data : List UInt8) (env : LoopSendEnv)
  | recv (id : UInt8)

namespace LoopbackDevice

def step (dev : LoopbackDevice) : LoopOp → LoopbackDevice
  | .openStream id =>
    if dev.isOpen id then dev else {dev with streams := dev.streams ++ [streamCreate id]}
  | .closeStream id => {dev with streams := dev.streams.filter (·.id != id)}
  | .send srcId dstId data env => (dev.send srcId dstId data env).1
  | .recv id => dev.recv id

def queued (dev : LoopbackDevice) (id : UInt8) : List (UInt8 × List UInt8) :=
  match dev.streams.find? (·.id == id) with
  | none => []
  | some s => s.rxQueue.map fun m => (m.srcId, m.data)

end LoopbackDevice

def LoopSendEnv.Works (env : LoopSendEnv) : Prop :=
  env.copyReq = true ∧ env.msgAlloc = true ∧
    ∀ i, (env.rounds i).ret = 0 ∧ (env.rounds i).copyFault = false ∧
      (env.rounds i).ringRefused = false

def acceptedLength (data : List UInt8) : Bool :=
  0 < data.length && data.length ≤ streamPayloadMax * streamMaxFrames

namespace LoopbackDevice

/-- On success the message waits on the destination behind those that wait there already, and a send
between open streams that meets no failing call succeeds. -/
structure Delivers (dev : LoopbackDevice) (srcId dstId : UInt8) (data : List UInt8)
    (env : LoopSendEnv) : Prop where
  queued : (dev.send srcId dstId data env).2 = .ok →
    (dev.send srcId dstId data env).1.queued dstId = dev.queued dstId ++ [(srcId, data)]
  succeeds : env.Works → acceptedLength data = true → dev.isOpen srcId = true →
    dev.isOpen dstId = true → (dev.send srcId dstId data env).2 = .ok

structure Poolless (tx : TxDevice) : Prop where
  ready : tx.state = .ready
  batchPool : tx.batchPool = false
  poolSize : tx.poolSize = 0

section Sends
variable {dev : LoopbackDevice} {srcId dstId : UInt8} {data : List UInt8} {env : LoopSendEnv}

theorem lbCreate_poolless {cenv : LbCreateEnv} (h : lbCreate cenv = .ok dev) :
    Poolless dev.tx := by
  unfold lbCreate at h
  split at h
  · cases h
  · split at h
    · cases h
    · split at h
      · cases h
      · split at h
        · cases h
        · cases h
          exact ⟨rfl, rfl, rfl⟩

theorem waitedFrames_empty (free : Nat) (r : WaitRound) (rs : List WaitRound) :
    waitedFrames 0 free (r :: rs) = [.waitFailed r.ret] := by
  simp [waitedFrames]

theorem Poolless.evaluateTxMode {tx : TxDevice} (h : Poolless tx) (n : Nat) :
    evaluateTxMode tx n = (tx, .latency) := by
  simp [OdinLink.evaluateTxMode, h.batchPool]

theorem waiting_fails {free : Nat} (rounds : Nat → WaitRound) (hpos : 0 < data.length) :
    latencyLoop srcId dstId data
        (waitedFrames 0 free ((List.range (frameCount data)).map rounds)) 0 0 =
      ([], .failed (waitError (rounds 0).ret)) := by
  have hcount : 0 < frameCount data := (Chunks.lt_count_iff streamPayloadMax_pos).mpr (by omega)
  obtain ⟨n, hn⟩ := Nat.exists_eq_succ_of_ne_zero (Nat.ne_of_gt hcount)
  rw [hn, List.range_succ_eq_map, List.map_cons, waitedFrames_empty, latencyLoop, if_pos hpos]

theorem Poolless.send (h : Poolless dev.tx) :
    (dev.send srcId dstId data env).2 ≠ .ok ∧
      (dev.send srcId dstId data env).1.tx = dev.tx := by
  unfold LoopbackDevice.send
  split
  · exact ⟨by simp, rfl⟩
  split
  · exact ⟨by simp, rfl⟩
  dsimp only
  rw [streamSend, if_neg (not_not.mpr h.ready)]
  split
  · exact ⟨by simp, rfl⟩
  rename_i hlen
  rw [h.evaluateTxMode, h.poolSize]
  refine ⟨?_, rfl⟩
  simp only [streamSendIn, streamSendLatency]
  split
  · rw [waiting_fails env.rounds (by omega)]
    simp
  · simp

theorem Poolless.step (h : Poolless dev.tx) (op : LoopOp) : Poolless (dev.step op).tx := by
  cases op with
  | openStream id =>
    simp only [LoopbackDevice.step]
    split <;> exact h
  | closeStream id => exact h
  | send srcId dstId data env =>
    simp only [LoopbackDevice.step]
    rw [h.send.2]
    exact h
  | recv id => exact h

theorem Poolless.run (h : Poolless dev.tx) (ops : List LoopOp) :
    Poolless (ops.foldl LoopbackDevice.step dev).tx := by
  induction ops generalizing dev with
  | nil => exact h
  | cons op ops ih => exact ih (h.step op)

end Sends

end LoopbackDevice

/-- On a loopback device no send succeeds, so a message is delivered as it should be exactly when
something other than the device stands in its way. -/
theorem loopback_delivers_iff {cenv : LbCreateEnv} {dev₀ dev : LoopbackDevice}
    (hcreate : lbCreate cenv = .ok dev₀) (ops : List LoopOp)
    (hdev : ops.foldl LoopbackDevice.step dev₀ = dev) (srcId dstId : UInt8) (data : List UInt8)
    (env : LoopSendEnv) :
    dev.Delivers srcId dstId data env ↔
      ¬ (env.Works ∧ acceptedLength data = true ∧ dev.isOpen srcId = true ∧
        dev.isOpen dstId = true) := by
  have hpool : LoopbackDevice.Poolless dev.tx := by
    rw [← hdev]
    exact (LoopbackDevice.lbCreate_poolless hcreate).run ops
  have hfails : (dev.send srcId dstId data env).2 ≠ .ok := hpool.send.1
  constructor
  · rintro hdelivers ⟨hworks, hlen, hsrc, hdst⟩
    exact hfails (hdelivers.succeeds hworks hlen hsrc hdst)
  · intro hnot
    refine ⟨fun hok => absurd hok hfails, fun hworks hlen hsrc hdst => ?_⟩
    exact absurd ⟨hworks, hlen, hsrc, hdst⟩ hnot

def LoopSendEnv.calm : LoopSendEnv where
  copyReq := true
  msgAlloc := true
  rounds := fun _ => ⟨0, 0, false, false⟩

theorem LoopSendEnv.calm_works : LoopSendEnv.calm.Works := by
  refine ⟨rfl, rfl, fun i => ⟨rfl, rfl, rfl⟩⟩

/-- A signal ends the wait for a slot with `-ERESTARTSYS`. -/
def LoopSendEnv.interrupted : LoopSendEnv :=
  {LoopSendEnv.calm with rounds := fun _ => ⟨0, -512, false, false⟩}

theorem loopback_delivers_interrupted :
    ∃ dev₀ dev, lbCreate ⟨true, none, true, true⟩ = .ok dev₀ ∧
      [LoopOp.openStream 20, .openStream 21].foldl LoopbackDevice.step dev₀ = dev ∧
      dev.isOpen 20 = true ∧ dev.isOpen 21 = true ∧
      (dev.send 20 21 [7, 8, 9] .interrupted).2 = .failed (-512) ∧
      dev.Delivers 20 21 [7, 8, 9] .interrupted := by
  refine ⟨_, _, rfl, rfl, by decide, by decide, by decide +kernel, ?_⟩
  have hcreate : lbCreate ⟨true, none, true, true⟩ = .ok _ := rfl
  refine (loopback_delivers_iff hcreate [.openStream 20, .openStream 21] rfl 20 21 [7, 8, 9]
    .interrupted).mpr ?_
  rintro ⟨hworks, -⟩
  exact absurd (hworks.2.2 0).1 (by decide)

/-- One byte from one open stream to another: the send waits five seconds for a slot and fails,
although every call works. -/
theorem loopback_send_times_out :
    ∃ dev₀ dev, lbCreate ⟨true, none, true, true⟩ = .ok dev₀ ∧
      [LoopOp.openStream 20, .openStream 21].foldl LoopbackDevice.step dev₀ = dev ∧
      LoopSendEnv.calm.Works ∧ acceptedLength [7] = true ∧ dev.isOpen 20 = true ∧
      dev.isOpen 21 = true ∧ (dev.send 20 21 [7] .calm).2 = .failed (-eTimedOut) ∧
      (dev.send 20 21 [7] .calm).1.queued 21 = [] ∧ ¬ dev.Delivers 20 21 [7] .calm := by
  have hsend : ∀ dev : LoopbackDevice, (dev.send 20 21 [7] .calm).2 = .failed (-eTimedOut) →
      dev.isOpen 20 = true → dev.isOpen 21 = true → ¬ dev.Delivers 20 21 [7] .calm := by
    intro dev hfails hsrc hdst hdelivers
    have hok := hdelivers.succeeds LoopSendEnv.calm_works (by decide) hsrc hdst
    rw [hfails] at hok
    cases hok
  refine ⟨_, _, rfl, rfl, LoopSendEnv.calm_works, by decide, by decide, by decide,
    by decide +kernel, by decide +kernel, ?_⟩
  exact hsend _ (by decide +kernel) (by decide) (by decide)

end OdinLink
