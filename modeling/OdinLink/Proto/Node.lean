import OdinLink.Driver.Wire
import Mathlib.Data.BitVec
import Mathlib.Tactic.IntervalCases

/-!
# One end of the login protocol

Before data moves, each machine logs in at the other over the XDomain control channel and answers
the other's login. The device keeps what it learned in flags that the packet handler and five work
items share.
-/

namespace OdinLink.Proto

def msgLogin : UInt32 := 1
def msgLoginRsp : UInt32 := 2
def msgLogout : UInt32 := 3

def loginStatusOk : UInt32 := 0
def loginStatusProtoMismatch : UInt32 := 1
def loginStatusBadRing : UInt32 := 2
def loginStatusRingUnavailable : UInt32 := 3

def ringSizeMin : Nat := 64
def ringSizeMax : Nat := 16384
def enableRetries : Nat := 5
def verifyAttempts : Nat := 300

def xdHdrSizeDw : UInt32 := 3
def xdSnMask : UInt32 := 0x18000000

/-- `sizeof` of the header, and of the login message and its response. -/
def xdHeaderSize : Nat := 32
def loginMsgSize : Nat := 48

structure Config where
  protocolMode : Nat
  protocolVer : UInt32
  protoUuid : BitVec 128
  route : UInt64
  loginMaxRetries : Int
  deriving DecidableEq, Repr

structure XdHeader where
  routeHi : UInt32
  routeLo : UInt32
  lengthSn : UInt32
  uuid : BitVec 128
  type : UInt32
  deriving DecidableEq, Repr

/-- A packet handed up by the control channel: `size` bytes, read as a login message. The fields
past `size` are not in the packet. -/
structure Packet where
  size : Nat
  hdr : XdHeader
  protoVersion : UInt32
  transmitPath : UInt32
  reserved0 : Nat
  deriving DecidableEq, Repr

structure LoginResponse where
  hdr : XdHeader
  status : UInt32
  transmitPath : UInt32
  reserved0 : Nat
  deriving DecidableEq, Repr

def isPowerOf2 (n : Nat) : Bool := n ≠ 0 && n &&& (n - 1) = 0

def ringDepthOk (n : Nat) : Bool := isPowerOf2 n && ringSizeMin ≤ n && n ≤ ringSizeMax

def roundupPowOfTwo (n : Nat) : Nat :=
  match (List.range 32).find? (fun k => n ≤ 2 ^ k) with
  | some k => 2 ^ k
  | none => 0

theorem ringDepthOk_iff {n : Nat} : ringDepthOk n = true ↔ ∃ k, 6 ≤ k ∧ k ≤ 14 ∧ n = 2 ^ k := by
  unfold ringDepthOk isPowerOf2 ringSizeMin ringSizeMax
  simp only [Bool.and_eq_true, decide_eq_true_eq]
  constructor
  · rintro ⟨⟨⟨h0, hp⟩, hlo⟩, hhi⟩
    obtain ⟨k, rfl⟩ := (Nat.and_sub_one_eq_zero_iff_isPowerOfTwo h0).mp hp
    have h2 : 1 < 2 := Nat.one_lt_two
    exact ⟨k, (Nat.pow_le_pow_iff_right h2).mp hlo, (Nat.pow_le_pow_iff_right h2).mp hhi, rfl⟩
  · rintro ⟨k, hlo, hhi, rfl⟩
    interval_cases k <;> decide

theorem roundup_ringDepth {n : Nat} (hn : ringDepthOk n = true) :
    roundupPowOfTwo (min (max n ringSizeMin) ringSizeMax) = n := by
  obtain ⟨k, hlo, hhi, rfl⟩ := ringDepthOk_iff.mp hn
  interval_cases k <;> rfl

def XdHeader.route (h : XdHeader) : UInt64 :=
  (h.routeHi.toUInt64 <<< 32 ||| h.routeLo.toUInt64) &&& 0x7fffffffffffffff

def upper32 (x : UInt64) : UInt32 := (x >>> 32).toUInt32

def lower32 (x : UInt64) : UInt32 := x.toUInt32

def xdHeaderInit (cfg : Config) (type : UInt32) (totalSize : Nat) : XdHeader :=
  ⟨upper32 cfg.route, lower32 cfg.route, UInt32.ofNat (totalSize / 4) - xdHdrSizeDw,
    cfg.protoUuid, type⟩

inductive Worker where
  | login
  | connect
  | restart
  | verify
  | ctrlReply
  deriving DecidableEq, Repr

inductive Wake where
  | restart
  | connect
  deriving DecidableEq, Repr

def Wake.worker : Wake → Worker
  | restart => .restart
  | connect => .connect

structure Work (P : Type) where
  pending : Bool
  running : Option P
  deriving DecidableEq, Repr

def Work.idle {P : Type} : Work P := ⟨false, none⟩

inductive LoginPc where
  | request
  | await
  | accepted (r : LoginResponse)
  | wakeConnect
  | retry
  deriving DecidableEq, Repr

inductive SetupPc where
  | releaseOld
  | allocHop
  | startRings
  | primeRx
  | enablePaths (attempt : Nat)
  | finish
  deriving DecidableEq, Repr

/-- `setup` carries the peer path and the generation read under the first lock. -/
inductive ConnectPc where
  | begin
  | relogin
  | setup (path : Int32) (gen : UInt32) (pc : SetupPc)
  | disablePaths (path : Int32)
  | stopRings
  | releaseHop
  | failed
  | retryLogin
  | allocPools
  | scheduleVerify
  deriving DecidableEq, Repr

/-- `cancel` takes a work item off its queue, `flush` waits for it to return. -/
inductive RestartPc where
  | cancel (w : Worker)
  | flush (w : Worker)
  | clearPong
  | teardown
  | stopRings
  | releaseHop
  | reset
  | relogin
  deriving DecidableEq, Repr

inductive VerifyPc where
  | begin
  | post
  | check (attempt : Nat)
  | flush (attempt : Nat)
  | ping (attempt : Nat)
  | wait (attempt : Nat)
  | evaluate
  | flushReply
  | resetRings
  | setReady
  | outReset
  deriving DecidableEq, Repr

inductive CtrlReplyPc where
  | read
  | reply
  | record
  deriving DecidableEq, Repr

structure Device where
  state : ConnState
  loginRetries : Nat
  loginSent : Bool
  loginReceived : Bool
  connecting : Bool
  loginGeneration : UInt32
  peerRingSize : Nat
  localTxHopid : Int32
  remoteTxHopid : Int32
  staleRemoteTxHopid : Int32
  inHopidValid : Bool
  inHopid : Int32
  ringSize : Nat
  -- the ring pointers are not null
  ringsPresent : Bool
  txStarted : Bool
  rxStarted : Bool
  framePool : Bool
  pongReceived : Bool
  peerPingAnswered : Bool
  verifyRxType : Nat
  deriving DecidableEq, Repr

structure Node extends Device where
  loginWork : Work LoginPc
  connectWork : Work ConnectPc
  restartWork : Work RestartPc
  verifyWork : Work VerifyPc
  ctrlReplyWork : Work CtrlReplyPc
  handler : Option Wake
  deriving DecidableEq, Repr

inductive Event where
  | loginRequested (p : Packet)
  | responded (r : LoginResponse)
  | loginAccepted (p : Packet)
  | loginRefused (p : Packet) (status : UInt32)
  | loginUnanswered (p : Packet)
  | replyAccepted (r : LoginResponse)
  | replyRefused (r : LoginResponse)
  | logout
  | connectFailed
  | snapshot (path : Int32) (gen : UInt32)
  | hopAllocated (requested granted : Int32)
  | hopReleased (id : Int32)
  | ringsStarted
  | pathsEnabled (path : Int32)
  | pathsDisabled (path : Int32)
  | connected
  | controlReceived (type : Nat)
  | pingAnswered
  | ready
  deriving DecidableEq, Repr

namespace Node

def protoInit (ring : Nat) (hop : Int32) : Node where
  state := .handshake
  loginRetries := 0
  loginSent := false
  loginReceived := false
  connecting := false
  loginGeneration := 0
  peerRingSize := 0
  localTxHopid := hop
  remoteTxHopid := 0
  staleRemoteTxHopid := 0
  inHopidValid := false
  inHopid := 0
  ringSize := ring
  ringsPresent := true
  txStarted := false
  rxStarted := false
  framePool := false
  pongReceived := false
  peerPingAnswered := false
  verifyRxType := 0
  loginWork := ⟨true, none⟩
  connectWork := .idle
  restartWork := .idle
  verifyWork := .idle
  ctrlReplyWork := .idle
  handler := none

def setPending (s : Node) : Worker → Bool → Node
  | .login, b => {s with loginWork := ⟨b, s.loginWork.running⟩}
  | .connect, b => {s with connectWork := ⟨b, s.connectWork.running⟩}
  | .restart, b => {s with restartWork := ⟨b, s.restartWork.running⟩}
  | .verify, b => {s with verifyWork := ⟨b, s.verifyWork.running⟩}
  | .ctrlReply, b => {s with ctrlReplyWork := ⟨b, s.ctrlReplyWork.running⟩}

def pending (s : Node) : Worker → Bool
  | .login => s.loginWork.pending
  | .connect => s.connectWork.pending
  | .restart => s.restartWork.pending
  | .verify => s.verifyWork.pending
  | .ctrlReply => s.ctrlReplyWork.pending

def running (s : Node) : Worker → Bool
  | .login => s.loginWork.running.isSome
  | .connect => s.connectWork.running.isSome
  | .restart => s.restartWork.running.isSome
  | .verify => s.verifyWork.running.isSome
  | .ctrlReply => s.ctrlReplyWork.running.isSome

/-- `schedule_work`: queued once, and not at all while a `cancel_work_sync` waits for the item. -/
def schedule (s : Node) (w : Worker) : Node :=
  if s.restartWork.running = some (.flush w) then s else s.setPending w true

/-! ## The packet handler -/

/-- The fields of a login that are in the packet; the others default to zero. -/
def loginFields (p : Packet) : UInt32 × UInt32 × Nat :=
  if loginMsgSize ≤ p.size then (p.transmitPath, p.protoVersion, p.reserved0)
  else if xdHeaderSize + 8 ≤ p.size then (p.transmitPath, p.protoVersion, 0)
  else (0, 0, 0)

def loginResponse (cfg : Config) (p : Packet) (status : UInt32) : LoginResponse :=
  ⟨⟨upper32 cfg.route, lower32 cfg.route,
    (p.hdr.lengthSn &&& xdSnMask) ||| (UInt32.ofNat (loginMsgSize / 4) - xdHdrSizeDw),
    cfg.protoUuid, msgLoginRsp⟩, status, 0, 0⟩

/-- The status a login is answered with; only the last refusal looks at the device. -/
def loginStatus (cfg : Config) (s : Node) (p : Packet) : UInt32 :=
  if cfg.protocolMode = 0 ∧ loginMsgSize ≤ p.size ∧ (loginFields p).2.1 ≠ cfg.protocolVer then
    loginStatusProtoMismatch
  else if cfg.protocolMode = 0 ∧
      (p.size < loginMsgSize ∨ ringDepthOk (loginFields p).2.2 = false) then
    loginStatusBadRing
  else if s.state = .error then loginStatusRingUnavailable
  else loginStatusOk

theorem loginFields_full {p : Packet} (hp : loginMsgSize ≤ p.size) :
    loginFields p = (p.transmitPath, p.protoVersion, p.reserved0) := if_pos hp

theorem loginStatus_ok {cfg : Config} {s : Node} {p : Packet} (hm : cfg.protocolMode = 0)
    (hst : loginStatus cfg s p = loginStatusOk) :
    loginMsgSize ≤ p.size ∧ p.protoVersion = cfg.protocolVer ∧ ringDepthOk p.reserved0 = true := by
  unfold loginStatus at hst
  split at hst
  · contradiction
  rename_i hver
  split at hst
  · contradiction
  rename_i hring
  have hfull : loginMsgSize ≤ p.size := by
    by_contra hlt
    exact hring ⟨hm, .inl (Nat.lt_of_not_le hlt)⟩
  rw [loginFields_full hfull] at hver hring
  refine ⟨hfull, ?_, ?_⟩
  · by_contra hne
    exact hver ⟨hm, hfull, hne⟩
  · by_contra hbad
    exact hring ⟨hm, .inr (Bool.eq_false_of_not_eq_true hbad)⟩

def acceptLogin (cfg : Config) (s : Node) (p : Packet) (sent : Bool) : Node × List Event :=
  let s := {s with peerRingSize := (loginFields p).2.2}
  -- the depth is stored before `tb_xdomain_response` is known to have gone through
  if !sent then (s, [.loginUnanswered p])
  else
    let resp := {loginResponse cfg p loginStatusOk with
      transmitPath := s.localTxHopid.toUInt32, reserved0 := s.ringSize}
    let path := (loginFields p).1.toInt32
    let s := {s with loginGeneration := s.loginGeneration + 1, loginReceived := true}
    if s.state ≠ .handshake ∨ s.connecting = true then
      ({s with staleRemoteTxHopid := s.remoteTxHopid, remoteTxHopid := path,
               handler := some .restart}, [.responded resp, .loginAccepted p])
    else
      ({s with remoteTxHopid := path, handler := if s.loginSent then some .connect else none},
        [.responded resp, .loginAccepted p])

def handleLogin (cfg : Config) (s : Node) (p : Packet) (sent : Bool) : Node × List Event :=
  let status := loginStatus cfg s p
  if status = loginStatusOk then acceptLogin cfg s p sent
  else
    (s, (if sent then [.responded (loginResponse cfg p status)] else []) ++
      [.loginRefused p status])

def handleLogout (s : Node) : Node × List Event :=
  ({s with staleRemoteTxHopid := s.remoteTxHopid, loginReceived := false, loginSent := false,
           loginGeneration := s.loginGeneration + 1, handler := some .restart}, [.logout])

/-- `sent` says whether a response could be sent. The first component is what the handler returns:
whether the packet was for it. -/
def handlePacket (cfg : Config) (s : Node) (p : Packet) (sent : Bool) :
    Bool × Node × List Event :=
  if p.size < xdHeaderSize ∨ p.hdr.route ≠ cfg.route then (false, s, [])
  else if p.hdr.type = msgLogin then (true, handleLogin cfg s p sent)
  else if p.hdr.type = msgLogout then (true, handleLogout s)
  else (false, s, [])

end Node

end OdinLink.Proto
