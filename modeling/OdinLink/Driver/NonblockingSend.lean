import Mathlib.Data.List.TakeWhile
import OdinLink.Driver.SendModes
import OdinLink.Driver.TxModes

/-!
# Sends that must not wait

A non-blocking `STREAM_SEND` is let in when the frame pool has a slot to spare. The send itself
takes a slot for each frame of the message, or a batch buffer for each 64 of them, and waits where
there is none. When a copy fails or the ring refuses a frame, it waits for the frames it has sent.
-/

namespace OdinLink

def eNoEnt : Int := 2
def eAgain : Int := 11

def streamCanSend (dev : TxDevice) : Bool := dev.state = .ready && txReserve < dev.poolFree

/-- `POLLOUT`; `slots` says that the frame pool is allocated. -/
def pollOut (dev : TxDevice) (slots : Bool) : Bool :=
  dev.state = .ready && slots && txReserve < dev.poolFree

/-- A round of the latency loop. The slots that are free when it takes one are those that are left
by this send, by other sends and by the refill of the receive ring. -/
structure FrameRound where
  free : Nat
  copyFault : Bool
  ringRefused : Bool

def FrameRound.outcome (r : FrameRound) : FrameOutcome :=
  if r.copyFault then .copyFault else if r.ringRefused then .ringRefused else .submitted

structure BatchRound where
  free : Nat
  copyFault : Nat → Bool
  ringRefused : Nat → Bool

def BatchRound.outcome (r : BatchRound) : BatchOutcome := .granted r.copyFault r.ringRefused

/-- Outcomes of the calls of a `STREAM_SEND`; `pending` says that frames it has sent are still on the
ring when it fails. -/
structure NonblockEnv where
  copyReq : Bool
  lookup : Bool
  msgAlloc : Bool
  frames : Nat → FrameRound
  batches : Nat → BatchRound
  pending : Bool

def batchCount (data : List UInt8) : Nat :=
  Chunks.count (batchFrames * streamPayloadMax) data.length

/-- The rounds up to the first that finds no more than the reserve, or no batch buffer. -/
def NonblockEnv.rounds (env : NonblockEnv) (data : List UInt8) : SendEnv where
  msgAlloc := env.msgAlloc
  frames := (((List.range (frameCount data)).map env.frames).takeWhile (txReserve < ·.free)).map
    FrameRound.outcome
  batches := (((List.range (batchCount data)).map env.batches).takeWhile (0 < ·.free)).map
    BatchRound.outcome

/-- The `STREAM_SEND` ioctl. A send that ends as `pending` stands in the wait for a slot or a batch
buffer. -/
def ioctlStreamSend (nonblock : Bool) (dev : TxDevice) (srcId dstId : UInt8) (data : List UInt8)
    (env : NonblockEnv) : TxDevice × List TxFrame × SendEnd :=
  if !env.copyReq then (dev, [], .failed (-eFault))
  else if !env.lookup then (dev, [], .failed (-eNoEnt))
  else if nonblock && !streamCanSend dev then (dev, [], .failed (-eAgain))
  else streamSend dev srcId dstId data (env.rounds data)

/-- The send sleeps for a slot or a batch buffer, or in `wait_pending`: it has failed while frames it
sent are on the ring. -/
def NonblockEnv.sleeps (env : NonblockEnv) (r : List TxFrame × SendEnd) : Bool :=
  match r.2 with
  | .pending => true
  | .failed _ => !r.1.isEmpty && env.pending
  | .ok => false

/-- Others take at most `taken` slots and `batchesTaken` batch buffers during the send, and a call
fails only when no frames are on the ring. -/
structure NonblockEnv.Within (env : NonblockEnv) (poolFree batchFree taken batchesTaken : Nat) :
    Prop where
  slots : ∀ k, poolFree ≤ (env.frames k).free + k + taken
  buffers : ∀ k, batchFree ≤ (env.batches k).free + k + batchesTaken
  settled : env.pending = false ∨
    ∀ k, (env.frames k).outcome = .submitted ∧ (env.batches k).outcome.Smooth

/-- The pool of the path has enough for the message and for the others. -/
def Room (mode : TxMode) (poolFree batchFree taken batchesTaken : Nat) (data : List UInt8) : Prop :=
  match mode with
  | .latency => txReserve + frameCount data + taken ≤ poolFree
  | .throughput => batchCount data + batchesTaken ≤ batchFree

section Rounds
variable {α : Type} {f : Nat → α} {p : α → Bool} {n k : Nat}

theorem rounds_eq_self (h : ∀ k < n, p (f k) = true) :
    ((List.range n).map f).takeWhile p = (List.range n).map f :=
  List.takeWhile_eq_self_iff.mpr (by simpa using h)

theorem rounds_length_le (hp : p (f k) = false) :
    (((List.range n).map f).takeWhile p).length ≤ k := by
  by_contra hle
  have hlt := Nat.not_le.mp hle
  have hget := List.prefix_iff_getElem?.mp (List.takeWhile_prefix p) k hlt
  obtain ⟨_, hget⟩ := List.getElem?_eq_some_iff.mp hget
  rw [List.getElem_map, List.getElem_range] at hget
  have hpk := List.mem_takeWhile_imp (List.getElem_mem hlt)
  rw [← hget, hp] at hpk
  cases hpk

theorem rounds_map_eq_replicate {β : Type} {g : α → β} {o : β} (h : ∀ k, g (f k) = o) :
    (((List.range n).map f).takeWhile p).map g =
      List.replicate (((List.range n).map f).takeWhile p).length o := by
  refine List.eq_replicate_iff.mpr ⟨List.length_map _, fun y hy => ?_⟩
  obtain ⟨x, hx, rfl⟩ := List.mem_map.mp hy
  obtain ⟨k, -, rfl⟩ := List.mem_map.mp ((List.takeWhile_sublist p).subset hx)
  exact h k

end Rounds

section Waits

variable (srcId dstId : UInt8) {data : List UInt8} {fragIdx : UInt16} {k : Nat}

theorem latencyLoop_waits {sent : Nat} (n : Nat) (h : Position data sent fragIdx k)
    (hshort : k + n < frameCount data) :
    (latencyLoop srcId dstId data (List.replicate n .submitted) sent fragIdx).2 = .pending := by
  have hs : sent < data.length := h.lt_iff.mpr (by omega)
  induction n generalizing sent fragIdx k with
  | zero => simp [latencyLoop, hs]
  | succ n ih =>
    have hk : k < frameCount data := by omega
    have hnext := h.next hk
    simp only [List.replicate_succ, latencyLoop, hs, if_true, h.take_eq hk]
    exact ih hnext (by omega) (hnext.lt_iff.mpr (by omega))

theorem throughputLoop_granted {totalSent : Nat} (os : List BatchOutcome)
    (h : Position data totalSent fragIdx k) (hk : k < frameCount data) :
    ∃ sent' fragIdx' n, Position data sent' fragIdx' (k + n) ∧
      (k + n = frameCount data ∨ n = batchFrames) ∧ n ≤ batchFrames ∧
      (throughputLoop srcId dstId data (.granted (fun _ => false) (fun _ => false) :: os) totalSent
        fragIdx).2 = (throughputLoop srcId dstId data os sent' fragIdx').2 := by
  have hs : totalSent < data.length := h.lt_iff.mpr hk
  have hb : Batch data k (min (data.length - totalSent) (batchFrames * streamPayloadMax)) :=
    ⟨hk, by rw [h.sent_eq_mul hk]⟩
  simp only [throughputLoop, hs, if_true]
  generalize min (data.length - totalSent) (batchFrames * streamPayloadMax) = batchPayload at hb ⊢
  rw [h.sent_eq_mul hk, h.idx_eq]
  have hle : Chunks.count streamPayloadMax batchPayload ≤ batchFrames := by
    apply Chunks.count_le streamPayloadMax_pos
    rw [hb.eq, Nat.mul_comm streamPayloadMax]
    exact Nat.min_le_right _ _
  refine ⟨_, _, _, hb.next, hb.count_cases, hle, ?_⟩
  obtain ⟨frames, hfill⟩ := Option.isSome_iff_exists.mp
    (fillBatch_isSome srcId dstId data (fun _ => rfl) (k * streamPayloadMax) batchPayload
      (UInt16.ofNat k) 0 (Chunks.count streamPayloadMax batchPayload))
  simp only [hfill, submitBatch_ok (fun _ => rfl), if_true]

theorem throughputLoop_waits {totalSent : Nat} (n : Nat) (h : Position data totalSent fragIdx k)
    (hshort : k + batchFrames * n < frameCount data) :
    (throughputLoop srcId dstId data
      (List.replicate n (.granted (fun _ => false) (fun _ => false))) totalSent fragIdx).2 =
        .pending := by
  induction n generalizing totalSent fragIdx k with
  | zero =>
    have hs : totalSent < data.length := h.lt_iff.mpr (by omega)
    simp [throughputLoop, hs]
  | succ n ih =>
    rw [Nat.mul_succ] at hshort
    obtain ⟨sent', fragIdx', m, hnext, hm, hle, heq⟩ := throughputLoop_granted srcId dstId
      (List.replicate n (.granted (fun _ => false) (fun _ => false))) h (by omega)
    rw [List.replicate_succ, heq]
    apply ih hnext
    -- more than one batch is missing, so this one is full
    omega

end Waits

section Nonblocking

variable {dev : TxDevice} {batchFree : Nat} {srcId dstId : UInt8} {data : List UInt8}

/-- Others take their slots and buffers at once, and every call succeeds. -/
def NonblockEnv.still (poolFree batchFree taken batchesTaken : Nat) : NonblockEnv where
  copyReq := true
  lookup := true
  msgAlloc := true
  frames k := ⟨poolFree - k - taken, false, false⟩
  batches k := ⟨batchFree - k - batchesTaken, fun _ => false, fun _ => false⟩
  pending := false

theorem frameCount_le_batches : frameCount data ≤ batchFrames * batchCount data := by
  have hpos : 0 < batchFrames * streamPayloadMax := by decide
  apply Chunks.count_le streamPayloadMax_pos
  calc data.length ≤ batchCount data * (batchFrames * streamPayloadMax) :=
        Chunks.le_count_mul hpos data.length
    _ = streamPayloadMax * (batchFrames * batchCount data) := by
        rw [Nat.mul_comm (batchCount data), Nat.mul_comm batchFrames streamPayloadMax,
          Nat.mul_assoc]

theorem batches_lt_frameCount {n : Nat} (h : n < batchCount data) :
    batchFrames * n < frameCount data := by
  have hpos : 0 < batchFrames * streamPayloadMax := by decide
  have hlt := (Chunks.lt_count_iff hpos).mp h
  rw [frameCount, Chunks.lt_count_iff streamPayloadMax_pos, Nat.mul_comm batchFrames, Nat.mul_assoc]
  exact hlt

theorem FrameRound.outcome_ne (r : FrameRound) : r.outcome ≠ .noSlot := by
  unfold FrameRound.outcome
  split
  · simp
  · split <;> simp

section Paths
variable {mode : TxMode} {env : NonblockEnv} {poolFree taken batchesTaken : Nat}

theorem rounds_of_room (henv : env.Within poolFree batchFree taken batchesTaken)
    (hroom : Room mode poolFree batchFree taken batchesTaken data) :
    match mode with
    | .latency => (env.rounds data).frames =
        ((List.range (frameCount data)).map env.frames).map FrameRound.outcome
    | .throughput => (env.rounds data).batches =
        ((List.range (batchCount data)).map env.batches).map BatchRound.outcome := by
  cases mode with
  | latency =>
    dsimp only [Room, NonblockEnv.rounds] at hroom ⊢
    rw [rounds_eq_self]
    intro k hk
    have hfree := henv.slots k
    exact decide_eq_true (by omega)
  | throughput =>
    dsimp only [Room, NonblockEnv.rounds] at hroom ⊢
    rw [rounds_eq_self]
    intro k hk
    have hfree := henv.buffers k
    exact decide_eq_true (by omega)

theorem streamSendIn_ends {P : SendEnd → Prop} (hdone : P .ok)
    (hfail : (∀ e, P (.failed e)) ∨
      ∀ k, (env.frames k).outcome = .submitted ∧ (env.batches k).outcome.Smooth)
    (halloc : env.msgAlloc = true) (henv : env.Within poolFree batchFree taken batchesTaken)
    (hroom : Room mode poolFree batchFree taken batchesTaken data) :
    P (streamSendIn mode srcId dstId data (env.rounds data)).2 := by
  have hrounds := rounds_of_room henv hroom
  have halloc : (env.rounds data).msgAlloc = true := halloc
  cases mode with
  | latency =>
    dsimp only [streamSendIn, streamSendLatency] at hrounds ⊢
    rw [if_pos halloc, hrounds]
    refine latencyLoop_ends srcId dstId data hdone _ (hfail.imp_right fun hok => ?_)
      (position_start data) ?_
    · simp [hok, FrameOutcome.smooth]
    · rw [List.countP_eq_length.mpr (by simp [FrameRound.outcome_ne])]
      simp
  | throughput =>
    dsimp only [streamSendIn, streamSendThroughput] at hrounds ⊢
    rw [if_pos halloc, hrounds]
    refine throughputLoop_ends srcId dstId data hdone _ (hfail.imp_right fun hok => ?_)
      (position_start data) ?_
    · simp [hok]
    · rw [List.countP_eq_length.mpr (by simp [BatchRound.outcome, BatchOutcome.sends])]
      simpa using frameCount_le_batches

theorem streamSendIn_awake (henv : env.Within poolFree batchFree taken batchesTaken)
    (hroom : Room mode poolFree batchFree taken batchesTaken data) :
    env.sleeps (streamSendIn mode srcId dstId data (env.rounds data)) = false := by
  cases halloc : env.msgAlloc with
  | false =>
    have halloc : (env.rounds data).msgAlloc = false := halloc
    cases mode <;> simp [streamSendIn, streamSendLatency, streamSendThroughput, halloc,
      NonblockEnv.sleeps]
  | true =>
    rw [NonblockEnv.sleeps]
    obtain hnone | hok := henv.settled
    · have hends : (streamSendIn mode srcId dstId data (env.rounds data)).2 ≠ .pending :=
        streamSendIn_ends (P := (· ≠ .pending)) (by simp) (.inl (by simp)) halloc henv hroom
      split
      · exact absurd ‹_› hends
      · rw [hnone, Bool.and_false]
      · rfl
    · rw [streamSendIn_ends (P := (· = .ok)) rfl (.inr hok) halloc henv hroom]

theorem still_within : (NonblockEnv.still poolFree batchFree taken batchesTaken).Within poolFree
    batchFree taken batchesTaken where
  slots k := by
    simp only [NonblockEnv.still]
    omega
  buffers k := by
    simp only [NonblockEnv.still]
    omega
  settled := .inl rfl

theorem streamSendIn_waits (henv : env = .still poolFree batchFree taken batchesTaken)
    (hpos : 0 < data.length) (hroom : ¬ Room mode poolFree batchFree taken batchesTaken data) :
    (streamSendIn mode srcId dstId data (env.rounds data)).2 = .pending := by
  have hcount : 0 < frameCount data := Chunks.count_pos streamPayloadMax_pos hpos
  have hbatches : 0 < batchCount data := Chunks.count_pos (by decide) hpos
  have halloc : (env.rounds data).msgAlloc = true := by
    rw [henv]
    rfl
  cases mode with
  | latency =>
    dsimp only [Room, streamSendIn, streamSendLatency] at hroom ⊢
    have hall : (env.rounds data).frames = List.replicate _ .submitted :=
      rounds_map_eq_replicate fun _ => by rw [henv]; rfl
    rw [if_pos halloc, hall]
    refine latencyLoop_waits srcId dstId _ (position_start data) ?_
    have hshort := rounds_length_le (n := frameCount data) (k := frameCount data - 1)
      (p := fun r : FrameRound => decide (txReserve < r.free)) (f := env.frames)
      (decide_eq_false (by simp only [henv, NonblockEnv.still]; omega))
    omega
  | throughput =>
    dsimp only [Room, streamSendIn, streamSendThroughput] at hroom ⊢
    have hall : (env.rounds data).batches =
        List.replicate _ (.granted (fun _ => false) (fun _ => false)) :=
      rounds_map_eq_replicate fun _ => by rw [henv]; rfl
    rw [if_pos halloc, hall]
    refine throughputLoop_waits srcId dstId _ (position_start data) ?_
    have hshort := rounds_length_le (n := batchCount data) (k := batchCount data - 1)
      (p := fun r : BatchRound => decide (0 < r.free)) (f := env.batches)
      (decide_eq_false (by simp only [henv, NonblockEnv.still]; omega))
    rw [Nat.zero_add]
    apply batches_lt_frameCount
    omega

end Paths

theorem streamSend_ready (hready : dev.state = .ready) (hpos : 0 < data.length)
    (hmax : data.length ≤ streamPayloadMax * streamMaxFrames) (env : SendEnv) :
    (streamSend dev srcId dstId data env).2 =
      streamSendIn (evaluateTxMode dev data.length).2 srcId dstId data env := by
  have hlen : ¬ (data.length = 0 ∨ streamPayloadMax * streamMaxFrames < data.length) := by omega
  rw [streamSend, if_neg (not_not.mpr hready), if_neg hlen]

theorem ioctlStreamSend_entered {env : NonblockEnv} (hcan : streamCanSend dev = true)
    (hcopy : env.copyReq = true) (hlookup : env.lookup = true) (hpos : 0 < data.length)
    (hmax : data.length ≤ streamPayloadMax * streamMaxFrames) :
    (ioctlStreamSend true dev srcId dstId data env).2 =
      streamSendIn (evaluateTxMode dev data.length).2 srcId dstId data (env.rounds data) := by
  have hready : dev.state = .ready := by
    simp only [streamCanSend, Bool.and_eq_true, decide_eq_true_eq] at hcan
    exact hcan.1
  rw [← streamSend_ready hready hpos hmax, ioctlStreamSend, hcan, hcopy, hlookup]
  rfl

theorem send_large_waits {ringSize low : Nat} (hlarge : throughputThresh < data.length)
    (hmax : data.length ≤ streamPayloadMax * streamMaxFrames)
    (hbatch : batchFree < batchCount data) :
    (ioctlStreamSend true (.idle ringSize .latency low) srcId dstId data
      (.still 2048 batchFree 0 0)).2.2 = .pending := by
  have hpos : 0 < data.length := Nat.lt_of_le_of_lt (Nat.zero_le _) hlarge
  have hmode : (evaluateTxMode (.idle ringSize .latency low) data.length).2 = .throughput := by
    simp [evaluateTxMode, TxDevice.idle, updateTxWatermarks, hlarge]
  rw [ioctlStreamSend_entered rfl rfl rfl hpos hmax, hmode]
  apply streamSendIn_waits rfl hpos
  rw [Room, Nat.add_zero]
  exact Nat.not_le.mpr hbatch

variable (dev batchFree srcId dstId data)

/-- Among sends of an accepted message during which others take at most so much from the pools and
no call fails with frames pending, a non-blocking one never sleeps exactly when it is refused at once
or the pool of its path has room for all. -/
theorem nonblocking_send_iff_room (taken batchesTaken : Nat) (hpos : 0 < data.length)
    (hmax : data.length ≤ streamPayloadMax * streamMaxFrames) :
    (∀ env : NonblockEnv, env.Within dev.poolFree batchFree taken batchesTaken →
      env.sleeps (ioctlStreamSend true dev srcId dstId data env).2 = false) ↔
    (streamCanSend dev = true →
      Room (evaluateTxMode dev data.length).2 dev.poolFree batchFree taken batchesTaken data) := by
  constructor
  · intro hnever hcan
    by_contra hroom
    have hsleeps := hnever _ still_within
    rw [ioctlStreamSend_entered hcan rfl rfl hpos hmax, NonblockEnv.sleeps,
      streamSendIn_waits rfl hpos hroom] at hsleeps
    cases hsleeps
  · intro hroom env henv
    by_cases hin : env.copyReq = true ∧ env.lookup = true ∧ streamCanSend dev = true
    · obtain ⟨hcopy, hlookup, hcan⟩ := hin
      rw [ioctlStreamSend_entered hcan hcopy hlookup hpos hmax]
      exact streamSendIn_awake henv (hroom hcan)
    · -- it is refused before it sends anything
      unfold ioctlStreamSend
      split
      · rfl
      split
      · rfl
      rw [if_pos (by simp_all)]
      rfl

end Nonblocking

/-- While 1000 slots are taken for receiving, a message of two frames is sent, or fails without frames
on the ring. -/
theorem two_frames_do_not_wait :
    streamCanSend (.idle 4096 .latency 0) = true ∧
    ∀ env : NonblockEnv, env.Within 2048 32 1000 0 →
      env.sleeps (ioctlStreamSend true (.idle 4096 .latency 0) 1 2 (List.replicate 4025 7)
        env).2 = false := by
  refine ⟨by decide, ?_⟩
  have hlen : (List.replicate 4025 (7 : UInt8)).length = 4025 := List.length_replicate
  refine (nonblocking_send_iff_room (.idle 4096 .latency 0) 32 1 2 _ 1000 0 (by rw [hlen]; decide)
    (by rw [hlen]; decide)).mpr fun _ => ?_
  rw [hlen]
  change txReserve + frameCount (List.replicate 4025 7) + 1000 ≤ 2048
  rw [frameCount, hlen]
  decide

/-- The second frame of a message cannot be copied while the first is on the ring. -/
def faultInSecond : NonblockEnv :=
  {NonblockEnv.still 2048 32 0 0 with
    frames := fun k => ⟨2048 - k, k == 1, false⟩
    pending := true}

theorem faultInSecond_sleeps {data : List UInt8} (hlen : data.length = 4025) :
    faultInSecond.sleeps (ioctlStreamSend true (.idle 4096 .latency 0) 1 2 data
      faultInSecond).2 = true := by
  have hsend : (ioctlStreamSend true (.idle 4096 .latency 0) 1 2 data faultInSecond).2 =
      latencyLoop 1 2 data [.submitted, .copyFault] 0 0 := by
    rw [ioctlStreamSend_entered rfl rfl rfl (by rw [hlen]; decide) (by rw [hlen]; decide), hlen]
    change latencyLoop 1 2 data (faultInSecond.rounds data).frames 0 0 = _
    rw [NonblockEnv.rounds, frameCount, hlen]
    rfl
  rw [hsend]
  simp [latencyLoop, NonblockEnv.sleeps, hlen, streamPayloadMax]
  rfl

/-- The largest message takes 64 batch buffers and the device has 32: with nothing in flight, and
the device reported as writable, a non-blocking send waits. So does one of 65537 bytes when the
buffers are in use, and one of two frames that fails with the first of them sent. -/
theorem nonblocking_send_waits :
    pollOut (.idle 4096 .latency 0) true = true ∧
    (ioctlStreamSend true (.idle 4096 .latency 0) 1 2 (List.replicate (4024 * 4096) 7)
      (.still 2048 32 0 0)).2.2 = .pending ∧
    (ioctlStreamSend true (.idle 4096 .latency 0) 1 2 (List.replicate 65537 7)
      (.still 2048 0 0 0)).2.2 = .pending ∧
    faultInSecond.sleeps (ioctlStreamSend true (.idle 4096 .latency 0) 1 2
      (List.replicate 4025 7) faultInSecond).2 = true := by
  refine ⟨by decide, ?_, ?_, faultInSecond_sleeps List.length_replicate⟩
  · apply send_large_waits
    · rw [List.length_replicate]
      decide
    · rw [List.length_replicate]
      decide
    · rw [batchCount, List.length_replicate]
      decide
  · apply send_large_waits
    · rw [List.length_replicate]
      decide
    · rw [List.length_replicate]
      decide
    · rw [batchCount, List.length_replicate]
      decide

end OdinLink
