import OdinLink.Proto.Node

/-!
# The work items

Each work function is cut where it takes or drops the state lock and at every call that other work
items can observe. A step runs one such piece.
-/

namespace OdinLink.Proto

structure RingAlloc where
  frames : Bool
  outHopid : Int32
  rings : Bool
  dmaBufs : Bool
  deriving DecidableEq, Repr

structure ConnectEnv where
  ok : Bool
  hop : Int32
  shrink : RingAlloc
  restore : RingAlloc
  deriving DecidableEq, Repr

inductive Act where
  -- the control channel hands a packet to the handler
  | packet (p : Packet) (sent : Bool)
  -- the handler, its locks dropped, queues the work it decided on
  | wake
  -- a control frame completes, in a pool slot or on the legacy path
  | control (pool : Bool) (type : Nat)
  | start (w : Worker)
  | login (reply : Option LoginResponse)
  | connect (env : ConnectEnv)
  | restart
  | verify (ok : Bool)
  | ctrlReply (ok : Bool)
  deriving DecidableEq, Repr

def Act.moves : Act → Option Worker
  | .start w => some w
  | .login _ => some .login
  | .connect _ => some .connect
  | .restart => some .restart
  | .verify _ => some .verify
  | .ctrlReply _ => some .ctrlReply
  | _ => none

namespace Node

/-! ## Rings -/

def ringsFree (s : Node) : Node :=
  {s with ringsPresent := false,
          localTxHopid := if 0 ≤ s.localTxHopid then -1 else s.localTxHopid}

def ringsAlloc (s : Node) (requested : Nat) (e : RingAlloc) : Bool × Node :=
  let rs := roundupPowOfTwo (min (max requested ringSizeMin) ringSizeMax)
  let s := {s with ringSize := rs}
  if !e.frames || e.outHopid < 0 then (false, s)
  else if !e.rings then (false, {s with localTxHopid := -1, ringsPresent := false})
  else (true, {s with localTxHopid := e.outHopid, ringsPresent := true})

def ringsResize (s : Node) (newSize : Nat) (env : ConnectEnv) : Bool × Node :=
  if s.txStarted || s.rxStarted then (false, s)
  else if s.ringSize ≤ newSize then (true, s)
  else
    let r := s.ringsFree.ringsAlloc newSize env.shrink
    if r.1 && env.shrink.dmaBufs then (true, r.2)
    -- the old depth is put back, and the failure is reported all the same
    else (false, (r.2.ringsFree.ringsAlloc s.ringSize env.restore).2)

def ringsStart (s : Node) : Node := {s with txStarted := true, rxStarted := true}

def ringsStop (s : Node) : Node :=
  {s with txStarted := s.txStarted && !s.ringsPresent, rxStarted := s.rxStarted && !s.ringsPresent}

def submitRx (s : Node) (ok : Bool) : Bool :=
  (s.state = .connected || s.state = .ready || s.rxStarted) && ok

/-- `tb_ring_tx` refuses every frame while the ring is stopped. -/
def sendDmaMsg (s : Node) (ok : Bool) : Bool := s.txStarted && ok

/-- The callback of a control frame. The legacy path looks at the state first. -/
def rxControl (s : Node) (pool : Bool) (type : Nat) : Node × List Event :=
  if pool || ConnState.connected.code ≤ s.state.code then
    if type = dmaPong then ({s with pongReceived := true}, [.controlReceived type])
    else ({s with verifyRxType := type}.schedule .ctrlReply, [.controlReceived type])
  else (s, [])

/-! ## Login work -/

def loginTo (s : Node) (pc : Option LoginPc) : Node :=
  {s with loginWork := ⟨s.loginWork.pending, pc⟩}

/-- Whether `odl_tb5_proto_send_login` takes a response for an answer to its login. -/
def replyOk (cfg : Config) (r : LoginResponse) : Bool :=
  cfg.protocolMode = 1 ||
    (r.hdr.uuid = cfg.protoUuid && r.hdr.type = msgLoginRsp && r.status = loginStatusOk &&
      ringDepthOk r.reserved0)

def loginMsg (cfg : Config) (s : Node) : Packet :=
  ⟨loginMsgSize, xdHeaderInit cfg msgLogin loginMsgSize, cfg.protocolVer,
    s.localTxHopid.toUInt32, s.ringSize⟩

def loginStep (cfg : Config) (s : Node) (reply : Option LoginResponse) :
    LoginPc → Node × List Event
  | .request => (s.loginTo (some .await), [.loginRequested (loginMsg cfg s)])
  | .await =>
    match reply with
    | none => (s.loginTo (some .retry), [])
    | some r =>
      if cfg.protocolMode = 1 then
        -- this write is not under the lock
        ({s with remoteTxHopid := r.transmitPath.toInt32}.loginTo (some (.accepted r)), [])
      else if replyOk cfg r then (s.loginTo (some (.accepted r)), [])
      else (s.loginTo (some .retry), [.replyRefused r])
  | .accepted r =>
    let s := {s with
      loginGeneration := s.loginGeneration + 1, remoteTxHopid := r.transmitPath.toInt32,
      peerRingSize := if cfg.protocolMode = 0 then r.reserved0 else 0, loginSent := true}
    (s.loginTo (if s.loginReceived ∧ s.state = .handshake then some .wakeConnect else none),
      [.replyAccepted r])
  | .wakeConnect => ((s.schedule .connect).loginTo none, [])
  | .retry =>
    let s := {s with loginRetries := s.loginRetries + 1}
    if 0 < cfg.loginMaxRetries ∧ cfg.loginMaxRetries ≤ s.loginRetries then (s.loginTo none, [])
    else ((s.schedule .login).loginTo none, [])

/-! ## Connect work -/

def connectTo (s : Node) (pc : Option ConnectPc) : Node :=
  {s with connectWork := ⟨s.connectWork.pending, pc⟩}

def connectBegin (cfg : Config) (s : Node) (env : ConnectEnv) : Node × List Event :=
  if s.state ≠ .handshake ∨ s.connecting = true ∨ s.loginSent = false ∨
      s.loginReceived = false then (s.connectTo none, [])
  else
    let matching := cfg.protocolMode = 0 ∧ ringDepthOk s.peerRingSize = true
    if matching ∧ s.peerRingSize < s.ringSize then
      let r := s.ringsResize s.peerRingSize env
      if r.1 then ({r.2 with loginSent := false}.connectTo (some .relogin), [])
      else ({r.2 with state := .error}.connectTo none, [])
    else if matching ∧ s.ringSize < s.peerRingSize then
      ({s with loginSent := false}.connectTo (some .relogin), [])
    else
      ({s with connecting := true}.connectTo
          (some (.setup s.remoteTxHopid s.loginGeneration .releaseOld)),
        [.snapshot s.remoteTxHopid s.loginGeneration])

/-- The second section: the attempt is stale when anything it rests on has changed. -/
def staleLogin (s : Node) (gen : UInt32) : Bool :=
  s.state ≠ .handshake || !s.connecting || !s.loginSent || !s.loginReceived ||
    s.loginGeneration ≠ gen

def setupStep (s : Node) (env : ConnectEnv) (path : Int32) (gen : UInt32) :
    SetupPc → Option (Node × List Event)
  | .releaseOld =>
    let s' := s.connectTo (some (.setup path gen .allocHop))
    if s.inHopidValid then
      some ({s' with inHopidValid := false},
        (if s.txStarted then [.pathsDisabled s.inHopid] else []) ++ [.hopReleased s.inHopid])
    else some (s', [])
  | .allocHop =>
    if env.hop < 0 then some (s.connectTo (some .failed), [])
    else
      some ({s with inHopid := path, inHopidValid := true}.connectTo
        (some (.setup path gen .startRings)), [.hopAllocated path env.hop])
  | .startRings =>
    if s.ringsPresent then
      some (s.ringsStart.connectTo (some (.setup path gen .primeRx)), [.ringsStarted])
    -- `tb_ring_start` on a null pointer: this piece never returns
    else none
  | .primeRx =>
    if s.submitRx env.ok then some (s.connectTo (some (.setup path gen (.enablePaths 0))), [])
    else some (s.connectTo (some .stopRings), [])
  | .enablePaths attempt =>
    if env.ok then some (s.connectTo (some (.setup path gen .finish)), [.pathsEnabled path])
    else if attempt + 1 < enableRetries then
      some (s.connectTo (some (.setup path gen (.enablePaths (attempt + 1)))), [])
    else some (s.connectTo (some .stopRings), [])
  | .finish =>
    if s.staleLogin gen then some (s.connectTo (some (.disablePaths path)), [])
    else
      some ({s with connecting := false, state := .connected}.connectTo (some .allocPools),
        [.connected])

def connectStep (cfg : Config) (s : Node) (env : ConnectEnv) :
    ConnectPc → Option (Node × List Event)
  | .begin => some (s.connectBegin cfg env)
  | .relogin => some ((s.schedule .login).connectTo none, [])
  | .setup path gen pc => s.setupStep env path gen pc
  | .disablePaths path => some (s.connectTo (some .stopRings), [.pathsDisabled path])
  | .stopRings => some (s.ringsStop.connectTo (some .releaseHop), [])
  | .releaseHop =>
    some ({s with inHopidValid := false}.connectTo (some .failed), [.hopReleased s.inHopid])
  | .failed =>
    some ({s with connecting := false, loginSent := false, loginReceived := false}.connectTo
      (some .retryLogin), [.connectFailed])
  | .retryLogin => some ((s.schedule .login).connectTo none, [])
  | .allocPools =>
    some ({s with framePool := s.framePool || env.ok}.connectTo (some .scheduleVerify), [])
  | .scheduleVerify => some ((s.schedule .verify).connectTo none, [])

/-! ## Restart work -/

def restartTo (s : Node) (pc : Option RestartPc) : Node :=
  {s with restartWork := ⟨s.restartWork.pending, pc⟩}

def afterFlush : Worker → RestartPc
  | .verify => .cancel .ctrlReply
  | .ctrlReply => .cancel .connect
  | .connect => .cancel .login
  | _ => .clearPong

def restartStep (s : Node) : RestartPc → Option (Node × List Event)
  | .cancel w => some ((s.setPending w false).restartTo (some (.flush w)), [])
  | .flush w => if s.running w then none else some (s.restartTo (some (afterFlush w)), [])
  | .clearPong => some ({s with pongReceived := false}.restartTo (some .teardown), [])
  | .teardown =>
    if s.txStarted then
      some (s.restartTo (some .stopRings),
        if s.inHopidValid then [.pathsDisabled s.inHopid] else [])
    else some (s.restartTo (some .reset), [])
  | .stopRings => some (s.ringsStop.restartTo (some .releaseHop), [])
  | .releaseHop =>
    some ({s with inHopidValid := false}.restartTo (some .reset),
      if s.inHopidValid then [.hopReleased s.inHopid] else [])
  | .reset =>
    some ({s with state := .handshake, loginSent := false, loginRetries := 0, peerRingSize := 0,
                  connecting := false}.restartTo (some .relogin), [])
  | .relogin => some ((s.schedule .login).restartTo none, [])

/-! ## Verify and control reply work -/

def verifyTo (s : Node) (pc : Option VerifyPc) : Node :=
  {s with verifyWork := ⟨s.verifyWork.pending, pc⟩}

def ctrlReplyTo (s : Node) (pc : Option CtrlReplyPc) : Node :=
  {s with ctrlReplyWork := ⟨s.ctrlReplyWork.pending, pc⟩}

/-- What `flush_work` waits for: no instance runs and none is queued. -/
def flushed (s : Node) (w : Worker) : Bool := !s.pending w && !s.running w

def verifyNext (attempt : Nat) : VerifyPc :=
  if attempt + 1 < verifyAttempts then .check (attempt + 1) else .evaluate

def verifyStep (s : Node) (ok : Bool) : VerifyPc → Option (Node × List Event)
  | .begin => some ({s with pongReceived := false}.verifyTo (some .post), [])
  | .post =>
    if s.framePool || s.submitRx ok then some (s.verifyTo (some (.check 0)), [])
    else some (s.verifyTo (some .outReset), [])
  | .check attempt =>
    if s.state ≠ .connected then some (s.verifyTo (some .outReset), [])
    else if s.peerPingAnswered then some (s.verifyTo (some .evaluate), [])
    else some (s.verifyTo (some (.flush attempt)), [])
  | .flush attempt =>
    if s.flushed .ctrlReply then some (s.verifyTo (some (.ping attempt)), []) else none
  | .ping attempt =>
    if s.sendDmaMsg ok then some (s.verifyTo (some (.wait attempt)), [])
    else some (s.verifyTo (some .outReset), [])
  | .wait attempt =>
    -- the condition is looked at before a signal or the timeout
    if s.pongReceived || s.peerPingAnswered then some (s.verifyTo (some .evaluate), [])
    else if ok then some (s.verifyTo (some (verifyNext attempt)), [])
    else some (s.verifyTo (some .outReset), [])
  | .evaluate =>
    if s.pongReceived || s.peerPingAnswered then some (s.verifyTo (some .flushReply), [])
    else some (s.verifyTo (some .outReset), [])
  | .flushReply =>
    if s.flushed .ctrlReply then some (s.verifyTo (some .resetRings), []) else none
  | .resetRings => some (s.verifyTo (some .setReady), [])
  | .setReady => some ({s with state := .ready}.verifyTo none, [.ready])
  | .outReset =>
    if s.state = .connected then some ((s.schedule .restart).verifyTo none, [])
    else some (s.verifyTo none, [])

def ctrlReplyStep (s : Node) (ok : Bool) : CtrlReplyPc → Node × List Event
  | .read => (s.ctrlReplyTo (if s.verifyRxType = dmaPing then some .reply else none), [])
  | .reply =>
    if s.sendDmaMsg ok then (s.ctrlReplyTo (some .record), [.pingAnswered])
    else (s.ctrlReplyTo none, [])
  | .record => ({s with peerPingAnswered := true, pongReceived := true}.ctrlReplyTo none, [])

/-! ## The device -/

def startWork (s : Node) (w : Worker) : Option Node :=
  if s.pending w && !s.running w then
    some (match w with
      | .login => {s with loginWork := ⟨false, some .request⟩}
      | .connect => {s with connectWork := ⟨false, some .begin⟩}
      | .restart => {s with restartWork := ⟨false, some (.cancel .verify)⟩}
      | .verify => {s with verifyWork := ⟨false, some .begin⟩}
      | .ctrlReply => {s with ctrlReplyWork := ⟨false, some .read⟩})
  else none

/-- One step of the device. The control channel delivers one packet at a time, so the handler
takes none before it has queued its work. -/
def step (cfg : Config) (s : Node) : Act → Option (Node × List Event)
  | .packet p sent => if s.handler = none then some (s.handlePacket cfg p sent).2 else none
  | .wake =>
    match s.handler with
    | none => none
    | some w => some ({s with handler := none}.schedule w.worker, [])
  | .control pool type => if s.rxStarted then some (s.rxControl pool type) else none
  | .start w => (s.startWork w).map fun s' => (s', [])
  | .login reply => s.loginWork.running.map (s.loginStep cfg reply)
  | .connect env => s.connectWork.running.bind (s.connectStep cfg env)
  | .restart => s.restartWork.running.bind s.restartStep
  | .verify ok => s.verifyWork.running.bind (s.verifyStep ok)
  | .ctrlReply ok => s.ctrlReplyWork.running.map (s.ctrlReplyStep ok)

end Node

end OdinLink.Proto
