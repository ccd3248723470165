import OdinLink.Proto.Workers

/-!
# What a step can change

The work items communicate through the device. `Change` lists every way in which a step can leave
the device different from how it found it, with the events logged along with it; `step_change` says
that the list is complete.
-/

namespace OdinLink.Proto

namespace Node
variable (s : Node)

@[simp] theorem setPending_toDevice (w : Worker) (b : Bool) :
    (s.setPending w b).toDevice = s.toDevice := by
  cases w <;> rfl

@[simp] theorem schedule_toDevice (w : Worker) : (s.schedule w).toDevice = s.toDevice := by
  unfold schedule
  split
  · rfl
  · exact s.setPending_toDevice w true

@[simp] theorem loginTo_toDevice (pc : Option LoginPc) : (s.loginTo pc).toDevice = s.toDevice := rfl

@[simp] theorem connectTo_toDevice (pc : Option ConnectPc) :
    (s.connectTo pc).toDevice = s.toDevice := rfl

@[simp] theorem restartTo_toDevice (pc : Option RestartPc) :
    (s.restartTo pc).toDevice = s.toDevice := rfl

@[simp] theorem verifyTo_toDevice (pc : Option VerifyPc) :
    (s.verifyTo pc).toDevice = s.toDevice := rfl

end Node

def Event.quiet : Event → Bool
  | .replyRefused _ | .hopReleased _ | .pathsDisabled _ | .pingAnswered => true
  | _ => false

theorem not_mem_of_quiet {e : Event} {es : List Event} (hes : es.all Event.quiet = true)
    (he : e.quiet = false) : e ∉ es := by
  intro hmem
  rw [List.all_eq_true.mp hes e hmem] at he
  contradiction

theorem any_of_quiet {q : Event → Bool} (hq : ∀ e, Event.quiet e = true → q e = false)
    {es : List Event} (hes : es.all Event.quiet = true) : es.any q = false := by
  rw [List.any_eq_false]
  intro e he
  rw [hq e (List.all_eq_true.mp hes e he)]
  exact Bool.false_ne_true

def Node.mayConnect (s : Node) : Prop :=
  s.state = .handshake ∧ s.connecting = false ∧ s.loginSent = true ∧ s.loginReceived = true

/-- `Change cfg s a es d`: the act `a` from `s` logs `es` and leaves the device as `d`. -/
inductive Change (cfg : Config) (s : Node) (a : Act) : List Event → Device → Prop where
  | quiet {es : List Event} (hq : es.all Event.quiet = true) : Change cfg s a es s.toDevice
  | requested : Change cfg s a [.loginRequested (s.loginMsg cfg)] s.toDevice
  | refused (p : Packet) (status : UInt32) (hst : status ≠ loginStatusOk) :
      Change cfg s a [.responded (Node.loginResponse cfg p status), .loginRefused p status]
        s.toDevice
  | refusedUnsent (p : Packet) (status : UInt32) : Change cfg s a [.loginRefused p status] s.toDevice
  | unanswered (p : Packet) (ha : a = .packet p false) (hl : p.hdr.type = msgLogin)
      (hp : s.loginStatus cfg p = loginStatusOk) :
      Change cfg s a [.loginUnanswered p] {s.toDevice with peerRingSize := (Node.loginFields p).2.2}
  | accepted (p : Packet) (resp : LoginResponse) (stale : Int32) (ha : a = .packet p true)
      (hl : p.hdr.type = msgLogin) (hp : s.loginStatus cfg p = loginStatusOk)
      (hr : resp.reserved0 = s.ringSize) :
      Change cfg s a [.responded resp, .loginAccepted p]
        {s.toDevice with
          peerRingSize := (Node.loginFields p).2.2, loginGeneration := s.loginGeneration + 1,
          loginReceived := true, staleRemoteTxHopid := stale,
          remoteTxHopid := (Node.loginFields p).1.toInt32}
  | loggedOut :
      Change cfg s a [.logout]
        {s.toDevice with
          staleRemoteTxHopid := s.remoteTxHopid, loginReceived := false, loginSent := false,
          loginGeneration := s.loginGeneration + 1}
  | pong : Change cfg s a [.controlReceived dmaPong] {s.toDevice with pongReceived := true}
  | control (type : Nat) (ht : type ≠ dmaPong) :
      Change cfg s a [.controlReceived type] {s.toDevice with verifyRxType := type}
  | replyPath (path : Int32) (hm : cfg.protocolMode = 1) :
      Change cfg s a [] {s.toDevice with remoteTxHopid := path}
  | replied (r : LoginResponse) (hr : s.loginWork.running = some (.accepted r)) :
      Change cfg s a [.replyAccepted r]
        {s.toDevice with
          loginGeneration := s.loginGeneration + 1, remoteTxHopid := r.transmitPath.toInt32,
          peerRingSize := if cfg.protocolMode = 0 then r.reserved0 else 0, loginSent := true}
  | retried : Change cfg s a [] {s.toDevice with loginRetries := s.loginRetries + 1}
  | shrunk (hop : Int32) (hc : s.mayConnect) (hd : ringDepthOk s.peerRingSize = true)
      (hlt : s.peerRingSize < s.ringSize) (hstop : s.txStarted = false ∧ s.rxStarted = false)
      (ha : a.moves = some .connect) :
      Change cfg s a []
        {s.toDevice with
          ringSize := s.peerRingSize, localTxHopid := hop, ringsPresent := true,
          loginSent := false}
  | shrinkFailed (ring : Nat) (hop : Int32) (present : Bool) (hc : s.mayConnect)
      (hring : ringDepthOk s.ringSize = true → ring = s.ringSize)
      (hpres : s.txStarted = true ∨ s.rxStarted = true → present = s.ringsPresent)
      (ha : a.moves = some .connect) :
      Change cfg s a []
        {s.toDevice with
          ringSize := ring, localTxHopid := hop, ringsPresent := present, state := .error}
  | waited : Change cfg s a [] {s.toDevice with loginSent := false}
  | snapshot (ha : a.moves = some .connect) (hc : s.mayConnect)
      (hd : cfg.protocolMode = 0 → ringDepthOk s.peerRingSize = true →
        s.ringSize = s.peerRingSize) :
      Change cfg s a [.snapshot s.remoteTxHopid s.loginGeneration]
        {s.toDevice with connecting := true}
  | hopReleased (es : List Event) (hq : es.all Event.quiet = true)
      (ha : a.moves = some .connect ∨ a.moves = some .restart) :
      Change cfg s a es {s.toDevice with inHopidValid := false}
  | hopAllocated (ha : a.moves = some .connect) (path granted : Int32) :
      Change cfg s a [.hopAllocated path granted]
        {s.toDevice with inHopid := path, inHopidValid := true}
  | ringsStarted (ha : a.moves = some .connect) (path : Int32) (gen : UInt32)
      (hpc : s.connectWork.running = some (.setup path gen .startRings)) :
      Change cfg s a [.ringsStarted] {s.toDevice with txStarted := true, rxStarted := true}
  | pathsEnabled (ha : a.moves = some .connect) (path : Int32) :
      Change cfg s a [.pathsEnabled path] s.toDevice
  | connected (path : Int32) (gen : UInt32)
      (hpc : s.connectWork.running = some (.setup path gen .finish))
      (hst : s.staleLogin gen = false) (ha : a.moves = some .connect) :
      Change cfg s a [.connected] {s.toDevice with connecting := false, state := .connected}
  | ringsStopped (ha : a.moves = some .connect ∨ a.moves = some .restart) :
      Change cfg s a []
        {s.toDevice with
          txStarted := s.txStarted && !s.ringsPresent, rxStarted := s.rxStarted && !s.ringsPresent}
  | connectFailed :
      Change cfg s a [.connectFailed]
        {s.toDevice with connecting := false, loginSent := false, loginReceived := false}
  | pools (b : Bool) : Change cfg s a [] {s.toDevice with framePool := b}
  | pongCleared : Change cfg s a [] {s.toDevice with pongReceived := false}
  | reset (ha : a.moves = some .restart) :
      Change cfg s a []
        {s.toDevice with
          state := .handshake, loginSent := false, loginRetries := 0, peerRingSize := 0,
          connecting := false}
  | ready (hpc : s.verifyWork.running = some .setReady) (ha : a.moves = some .verify) :
      Change cfg s a [.ready] {s.toDevice with state := .ready}
  | recorded (hpc : s.ctrlReplyWork.running = some .record) :
      Change cfg s a [] {s.toDevice with peerPingAnswered := true, pongReceived := true}

namespace Node
variable {cfg : Config} {s s' : Node} {es : List Event}
variable {env : ConnectEnv} {w : Worker} {ok : Bool}

theorem step_packet {p : Packet} {sent : Bool} :
    s.step cfg (.packet p sent) = some (s', es) ↔
      s.handler = none ∧ (s.handlePacket cfg p sent).2 = (s', es) := by
  simp only [step]
  split <;> simp_all

theorem step_wake :
    s.step cfg .wake = some (s', es) ↔
      ∃ w, s.handler = some w ∧ {s with handler := none}.schedule w.worker = s' ∧ [] = es := by
  simp only [step]
  split <;> simp_all

theorem step_control {pool : Bool} {type : Nat} :
    s.step cfg (.control pool type) = some (s', es) ↔
      s.rxStarted = true ∧ s.rxControl pool type = (s', es) := by
  simp only [step]
  split <;> simp_all

theorem step_start :
    s.step cfg (.start w) = some (s', es) ↔ s.startWork w = some s' ∧ [] = es := by
  simp [step]

theorem step_login {reply : Option LoginResponse} :
    s.step cfg (.login reply) = some (s', es) ↔
      ∃ pc, s.loginWork.running = some pc ∧ s.loginStep cfg reply pc = (s', es) := by
  simp [step]

theorem step_connect :
    s.step cfg (.connect env) = some (s', es) ↔
      ∃ pc, s.connectWork.running = some pc ∧ s.connectStep cfg env pc = some (s', es) := by
  simp [step, Option.bind_eq_some_iff]

theorem step_restart :
    s.step cfg .restart = some (s', es) ↔
      ∃ pc, s.restartWork.running = some pc ∧ s.restartStep pc = some (s', es) := by
  simp [step, Option.bind_eq_some_iff]

theorem step_verify :
    s.step cfg (.verify ok) = some (s', es) ↔
      ∃ pc, s.verifyWork.running = some pc ∧ s.verifyStep ok pc = some (s', es) := by
  simp [step, Option.bind_eq_some_iff]

theorem step_ctrlReply :
    s.step cfg (.ctrlReply ok) = some (s', es) ↔
      ∃ pc, s.ctrlReplyWork.running = some pc ∧ s.ctrlReplyStep ok pc = (s', es) := by
  simp [step]

variable (cfg) (a : Act)

theorem handlePacket_change (p : Packet) (sent : Bool) :
    Change cfg s (.packet p sent) (s.handlePacket cfg p sent).2.2
      (s.handlePacket cfg p sent).2.1.toDevice := by
  unfold handlePacket
  split
  · exact .quiet rfl
  split
  · rename_i hl
    show Change cfg s _ (s.handleLogin cfg p sent).2 (s.handleLogin cfg p sent).1.toDevice
    unfold handleLogin
    dsimp only
    split
    · rename_i hok
      unfold acceptLogin
      cases sent with
      | false => exact .unanswered p rfl hl hok
      | true =>
        simp only [Bool.not_true, Bool.false_eq_true, if_false]
        split
        · exact .accepted p _ _ rfl hl hok rfl
        · exact .accepted p _ s.staleRemoteTxHopid rfl hl hok rfl
    · rename_i hst
      cases sent with
      | false => exact .refusedUnsent p _
      | true => exact .refused p _ hst
  split
  · exact .loggedOut
  · exact .quiet rfl

theorem rxControl_change (pool : Bool) (type : Nat) :
    Change cfg s a (s.rxControl pool type).2 (s.rxControl pool type).1.toDevice := by
  unfold rxControl
  split
  · split
    · rename_i ht
      rw [ht]
      exact .pong
    · rename_i ht
      rw [schedule_toDevice]
      exact .control type ht
  · exact .quiet rfl

theorem loginStep_change {pc : LoginPc} (reply : Option LoginResponse)
    (hpc : s.loginWork.running = some pc) :
    Change cfg s a (s.loginStep cfg reply pc).2 (s.loginStep cfg reply pc).1.toDevice := by
  cases pc with
  | request => exact .requested
  | await =>
    cases reply with
    | none => exact .quiet rfl
    | some r =>
      simp only [loginStep]
      split
      · rename_i hm
        exact .replyPath _ hm
      · split <;> exact .quiet rfl
  | accepted r => exact .replied r hpc
  | wakeConnect =>
    simp only [loginStep, loginTo_toDevice, schedule_toDevice]
    exact .quiet rfl
  | retry =>
    simp only [loginStep]
    split
    · exact .retried
    · simp only [loginTo_toDevice, schedule_toDevice]
      exact .retried

theorem ringsAlloc_toDevice (n : Nat) (e : RingAlloc) :
    ∃ hop present, (s.ringsAlloc n e).2.toDevice =
      {s.toDevice with
        ringSize := roundupPowOfTwo (min (max n ringSizeMin) ringSizeMax), localTxHopid := hop,
        ringsPresent := present} ∧
      ((s.ringsAlloc n e).1 = true → present = true) := by
  unfold ringsAlloc
  dsimp only
  split
  · exact ⟨_, _, rfl, fun h => by contradiction⟩
  · split
    · exact ⟨_, _, rfl, fun h => by contradiction⟩
    · exact ⟨_, _, rfl, fun _ => rfl⟩

theorem ringsResize_toDevice {n : Nat} (env : ConnectEnv) (hn : ringDepthOk n = true)
    (hlt : n < s.ringSize) :
    ((s.ringsResize n env).1 = true ∧ s.txStarted = false ∧ s.rxStarted = false ∧
      ∃ hop, (s.ringsResize n env).2.toDevice =
        {s.toDevice with ringSize := n, localTxHopid := hop, ringsPresent := true}) ∨
    ((s.ringsResize n env).1 = false ∧
      ∃ ring hop present, (s.ringsResize n env).2.toDevice =
          {s.toDevice with ringSize := ring, localTxHopid := hop, ringsPresent := present} ∧
        (ringDepthOk s.ringSize = true → ring = s.ringSize) ∧
        (s.txStarted = true ∨ s.rxStarted = true → present = s.ringsPresent)) := by
  unfold ringsResize
  split
  · exact .inr ⟨rfl, s.ringSize, s.localTxHopid, s.ringsPresent, rfl, fun _ => rfl, fun _ => rfl⟩
  rename_i hstop
  rw [Bool.or_eq_true, not_or, Bool.not_eq_true, Bool.not_eq_true] at hstop
  rw [if_neg (Nat.not_le.mpr hlt)]
  dsimp only
  split
  · rename_i hok
    obtain ⟨hop, present, hdev, hpres⟩ := ringsAlloc_toDevice (s := s.ringsFree) n env.shrink
    rw [Bool.and_eq_true] at hok
    refine .inl ⟨rfl, hstop.1, hstop.2, hop, ?_⟩
    rw [hdev, roundup_ringDepth hn, hpres hok.1]
    rfl
  · obtain ⟨hop₁, present₁, hdev₁, -⟩ := ringsAlloc_toDevice (s := s.ringsFree) n env.shrink
    -- the second allocation asks for the old depth, which the rounding leaves alone
    generalize (s.ringsFree.ringsAlloc n env.shrink).2 = t at hdev₁ ⊢
    obtain ⟨hop, present, hdev, -⟩ :=
      ringsAlloc_toDevice (s := t.ringsFree) s.ringSize env.restore
    refine .inr ⟨rfl, _, hop, present, ?_, roundup_ringDepth, ?_⟩
    · rw [hdev]
      simp only [ringsFree, hdev₁]
    · rintro (htx | hrx)
      · rw [hstop.1] at htx
        contradiction
      · rw [hstop.2] at hrx
        contradiction

theorem connectBegin_change (ha : a.moves = some .connect) (env : ConnectEnv) :
    Change cfg s a (s.connectBegin cfg env).2 (s.connectBegin cfg env).1.toDevice := by
  unfold connectBegin
  split
  · exact .quiet rfl
  rename_i hc
  have hmay : s.mayConnect := by
    simpa only [mayConnect, not_or, ne_eq, not_not, Bool.not_eq_true, Bool.not_eq_false] using hc
  dsimp only
  split
  · rename_i hlt
    rcases ringsResize_toDevice env hlt.1.2 hlt.2 with
      ⟨hok, htx, hrx, hop, hdev⟩ | ⟨hok, ring, hop, present, hdev, hring, hpres⟩
    · rw [if_pos hok]
      simp only [connectTo_toDevice, hdev]
      exact .shrunk hop hmay hlt.1.2 hlt.2 ⟨htx, hrx⟩ ha
    · rw [if_neg (by simp [hok])]
      simp only [connectTo_toDevice, hdev]
      exact .shrinkFailed ring hop present hmay hring hpres ha
  rename_i hge
  split
  · exact .waited
  · rename_i hle
    apply Change.snapshot ha hmay
    intro hm hd
    have hge' : ¬ s.peerRingSize < s.ringSize := fun hlt => hge ⟨⟨hm, hd⟩, hlt⟩
    have hle' : ¬ s.ringSize < s.peerRingSize := fun hlt => hle ⟨⟨hm, hd⟩, hlt⟩
    omega

theorem setupStep_change (ha : a.moves = some .connect) {path : Int32}
    {gen : UInt32} {pc : SetupPc} (hpc : s.connectWork.running = some (.setup path gen pc))
    (hs : s.setupStep env path gen pc = some (s', es)) : Change cfg s a es s'.toDevice := by
  cases pc with
  | releaseOld =>
    simp only [setupStep] at hs
    split at hs
    · cases hs
      refine .hopReleased _ ?_ (.inl ha)
      cases s.txStarted <;> rfl
    · cases hs
      exact .quiet rfl
  | allocHop =>
    simp only [setupStep] at hs
    split at hs
    · cases hs
      exact .quiet rfl
    · cases hs
      exact .hopAllocated ha path env.hop
  | startRings =>
    simp only [setupStep] at hs
    split at hs
    · cases hs
      exact .ringsStarted ha path gen hpc
    · contradiction
  | primeRx =>
    simp only [setupStep] at hs
    split at hs <;> cases hs <;> exact .quiet rfl
  | enablePaths attempt =>
    simp only [setupStep] at hs
    split at hs
    · cases hs
      exact .pathsEnabled ha path
    · split at hs <;> cases hs <;> exact .quiet rfl
  | finish =>
    simp only [setupStep] at hs
    split at hs
    · cases hs
      exact .quiet rfl
    · rename_i hst
      cases hs
      exact .connected path gen hpc (by simpa using hst) ha

theorem connectStep_change (ha : a.moves = some .connect) {pc : ConnectPc}
    (hpc : s.connectWork.running = some pc) (hs : s.connectStep cfg env pc = some (s', es)) :
    Change cfg s a es s'.toDevice := by
  cases pc with
  | setup path gen pc => exact setupStep_change cfg a ha hpc hs
  | begin =>
    simp only [connectStep, Option.some.injEq] at hs
    have := connectBegin_change cfg a (s := s) ha env
    rwa [hs] at this
  | disablePaths path =>
    cases hs
    exact .quiet rfl
  | stopRings =>
    cases hs
    exact .ringsStopped (.inl ha)
  | releaseHop =>
    cases hs
    exact .hopReleased _ rfl (.inl ha)
  | failed =>
    cases hs
    exact .connectFailed
  | allocPools =>
    cases hs
    exact .pools _
  | relogin | retryLogin | scheduleVerify =>
    cases hs
    rw [connectTo_toDevice, schedule_toDevice]
    exact .quiet rfl

theorem restartStep_change (ha : a.moves = some .restart) {pc : RestartPc}
    (hs : s.restartStep pc = some (s', es)) : Change cfg s a es s'.toDevice := by
  cases pc with
  | cancel w =>
    cases hs
    rw [restartTo_toDevice, setPending_toDevice]
    exact .quiet rfl
  | flush w =>
    simp only [restartStep] at hs
    split at hs
    · contradiction
    · cases hs
      exact .quiet rfl
  | clearPong =>
    cases hs
    exact .pongCleared
  | teardown =>
    simp only [restartStep] at hs
    split at hs
    · cases hs
      apply Change.quiet
      cases s.inHopidValid <;> rfl
    · cases hs
      exact .quiet rfl
  | stopRings =>
    cases hs
    exact .ringsStopped (.inr ha)
  | releaseHop =>
    cases hs
    refine .hopReleased _ ?_ (.inr ha)
    cases s.inHopidValid <;> rfl
  | reset =>
    cases hs
    exact .reset ha
  | relogin =>
    cases hs
    rw [restartTo_toDevice, schedule_toDevice]
    exact .quiet rfl

theorem verifyStep_change (ha : a.moves = some .verify) {pc : VerifyPc}
    (hpc : s.verifyWork.running = some pc) (hs : s.verifyStep ok pc = some (s', es)) :
    Change cfg s a es s'.toDevice := by
  cases pc with
  | begin =>
    cases hs
    exact .pongCleared
  | setReady =>
    cases hs
    exact .ready hpc ha
  | resetRings =>
    cases hs
    exact .quiet rfl
  | outReset =>
    simp only [verifyStep] at hs
    split at hs
    · cases hs
      rw [verifyTo_toDevice, schedule_toDevice]
      exact .quiet rfl
    · cases hs
      exact .quiet rfl
  | post | ping | evaluate =>
    simp only [verifyStep] at hs
    split at hs <;> cases hs <;> exact .quiet rfl
  | flush | flushReply =>
    simp only [verifyStep] at hs
    split at hs
    · cases hs
      exact .quiet rfl
    · contradiction
  | check | wait =>
    simp only [verifyStep] at hs
    split at hs
    · cases hs
      exact .quiet rfl
    · split at hs <;> cases hs <;> exact .quiet rfl

theorem ctrlReplyStep_change (ok : Bool) {pc : CtrlReplyPc}
    (hpc : s.ctrlReplyWork.running = some pc) :
    Change cfg s a (s.ctrlReplyStep ok pc).2 (s.ctrlReplyStep ok pc).1.toDevice := by
  cases pc with
  | read => exact .quiet rfl
  | reply =>
    simp only [ctrlReplyStep]
    split <;> exact .quiet rfl
  | record => exact .recorded hpc

theorem startWork_toDevice (hs : s.startWork w = some s') :
    s'.toDevice = s.toDevice := by
  unfold startWork at hs
  split at hs
  · cases hs
    cases w <;> rfl
  · contradiction

variable {cfg} {a}

theorem step_change (hs : s.step cfg a = some (s', es)) :
    Change cfg s a es s'.toDevice := by
  cases a with
  | packet p sent =>
    have hc := handlePacket_change cfg (s := s) p sent
    rwa [(step_packet.mp hs).2] at hc
  | wake =>
    obtain ⟨w, -, rfl, rfl⟩ := step_wake.mp hs
    rw [schedule_toDevice]
    exact .quiet rfl
  | control pool type =>
    have hc := rxControl_change cfg (.control pool type) (s := s) pool type
    rwa [(step_control.mp hs).2] at hc
  | start w =>
    obtain ⟨hw, rfl⟩ := step_start.mp hs
    rw [startWork_toDevice hw]
    exact .quiet rfl
  | login reply =>
    obtain ⟨pc, hpc, hs⟩ := step_login.mp hs
    have hc := loginStep_change cfg (.login reply) reply hpc
    rwa [hs] at hc
  | connect env =>
    obtain ⟨pc, hpc, hs⟩ := step_connect.mp hs
    exact connectStep_change cfg _ rfl hpc hs
  | restart =>
    obtain ⟨pc, -, hs⟩ := step_restart.mp hs
    exact restartStep_change cfg _ rfl hs
  | verify ok =>
    obtain ⟨pc, hpc, hs⟩ := step_verify.mp hs
    exact verifyStep_change cfg _ rfl hpc hs
  | ctrlReply ok =>
    obtain ⟨pc, hpc, hs⟩ := step_ctrlReply.mp hs
    have hc := ctrlReplyStep_change cfg (.ctrlReply ok) ok hpc
    rwa [hs] at hc

/-! ## Where the other work items stand -/

structure Others (m : Option Worker) (s s' : Node) : Prop where
  login : m ≠ some .login → s'.loginWork.running = s.loginWork.running
  connect : m ≠ some .connect → s'.connectWork.running = s.connectWork.running
  restart : m ≠ some .restart → s'.restartWork.running = s.restartWork.running
  verify : m ≠ some .verify → s'.verifyWork.running = s.verifyWork.running
  ctrlReply : m ≠ some .ctrlReply → s'.ctrlReplyWork.running = s.ctrlReplyWork.running

section Others
variable {m : Option Worker}

theorem Others.refl (s : Node) : Others m s s :=
  ⟨fun _ => rfl, fun _ => rfl, fun _ => rfl, fun _ => rfl, fun _ => rfl⟩

theorem setPending_others (s : Node) (w : Worker) (b : Bool) : Others m s (s.setPending w b) := by
  cases w <;> exact ⟨fun _ => rfl, fun _ => rfl, fun _ => rfl, fun _ => rfl, fun _ => rfl⟩

theorem schedule_others (s : Node) (w : Worker) : Others m s (s.schedule w) := by
  unfold schedule
  split
  · exact .refl s
  · exact setPending_others s w true

theorem handlePacket_others (cfg : Config) (p : Packet) (sent : Bool) :
    Others m s (s.handlePacket cfg p sent).2.1 := by
  unfold handlePacket handleLogin handleLogout acceptLogin
  constructor <;> grind

theorem rxControl_others (pool : Bool) (type : Nat) : Others m s (s.rxControl pool type).1 := by
  have hsched := schedule_others (m := m) {s with verifyRxType := type} .ctrlReply
  unfold rxControl
  split
  · split
    · exact ⟨fun _ => rfl, fun _ => rfl, fun _ => rfl, fun _ => rfl, fun _ => rfl⟩
    · exact ⟨hsched.login, hsched.connect, hsched.restart, hsched.verify, hsched.ctrlReply⟩
  · exact .refl s

theorem ringsResize_others (n : Nat) (env : ConnectEnv) : Others m s (s.ringsResize n env).2 := by
  unfold ringsResize ringsAlloc ringsFree
  constructor <;> grind

end Others

theorem loginStep_others (cfg : Config) (reply : Option LoginResponse) (pc : LoginPc) :
    Others (some .login) s (s.loginStep cfg reply pc).1 := by
  have hsched (t : Node) (w : Worker) := schedule_others (m := some .login) t w
  constructor <;> intro _ <;> cases pc <;> cases reply <;> grind [loginStep, loginTo, Others]

theorem setupStep_others {path : Int32} {gen : UInt32} {pc : SetupPc}
    (hs : s.setupStep env path gen pc = some (s', es)) : Others (some .connect) s s' := by
  constructor <;> intro _ <;> cases pc <;> grind [setupStep, connectTo, ringsStart]

theorem connectStep_others {pc : ConnectPc}
    (hs : s.connectStep cfg env pc = some (s', es)) : Others (some .connect) s s' := by
  have hsched (t : Node) (w : Worker) := schedule_others (m := some .connect) t w
  have hresize (n : Nat) (e : ConnectEnv) := ringsResize_others (m := some .connect) (s := s) n e
  cases pc with
  | setup path gen pc => exact setupStep_others hs
  | begin => constructor <;> intro _ <;> grind [connectStep, connectBegin, connectTo, Others]
  | _ => constructor <;> intro _ <;> grind [connectStep, connectTo, ringsStop, Others]

theorem restartStep_others {pc : RestartPc} (hs : s.restartStep pc = some (s', es)) :
    Others (some .restart) s s' := by
  have hsched (t : Node) (w : Worker) := schedule_others (m := some .restart) t w
  have hset (t : Node) (w : Worker) (b : Bool) := setPending_others (m := some .restart) t w b
  constructor <;> intro _ <;> cases pc <;> grind [restartStep, restartTo, ringsStop, Others]

theorem verifyStep_others {pc : VerifyPc} (hs : s.verifyStep ok pc = some (s', es)) :
    Others (some .verify) s s' := by
  have hsched (t : Node) (w : Worker) := schedule_others (m := some .verify) t w
  constructor <;> intro _ <;> cases pc <;> grind [verifyStep, verifyTo, Others]

theorem ctrlReplyStep_others (ok : Bool) (pc : CtrlReplyPc) :
    Others (some .ctrlReply) s (s.ctrlReplyStep ok pc).1 := by
  constructor <;> intro _ <;> cases pc <;> grind [ctrlReplyStep, ctrlReplyTo]

theorem startWork_others (hs : s.startWork w = some s') : Others (some w) s s' := by
  constructor <;> intro _ <;> cases w <;> grind [startWork]

theorem step_others (hs : s.step cfg a = some (s', es)) : Others a.moves s s' := by
  cases a with
  | packet p sent =>
    have ho := handlePacket_others (m := none) (s := s) cfg p sent
    rwa [(step_packet.mp hs).2] at ho
  | wake =>
    obtain ⟨w, -, rfl, rfl⟩ := step_wake.mp hs
    have ho := schedule_others (m := none) {s with handler := none} w.worker
    exact ⟨ho.login, ho.connect, ho.restart, ho.verify, ho.ctrlReply⟩
  | control pool type =>
    have ho := rxControl_others (m := none) (s := s) pool type
    rwa [(step_control.mp hs).2] at ho
  | start w => exact startWork_others (step_start.mp hs).1
  | login reply =>
    obtain ⟨pc, -, hs⟩ := step_login.mp hs
    have ho := loginStep_others (s := s) cfg reply pc
    rwa [hs] at ho
  | connect env =>
    obtain ⟨pc, -, hs⟩ := step_connect.mp hs
    exact connectStep_others hs
  | restart =>
    obtain ⟨pc, -, hs⟩ := step_restart.mp hs
    exact restartStep_others hs
  | verify ok =>
    obtain ⟨pc, -, hs⟩ := step_verify.mp hs
    exact verifyStep_others hs
  | ctrlReply ok =>
    obtain ⟨pc, -, hs⟩ := step_ctrlReply.mp hs
    have ho := ctrlReplyStep_others (s := s) ok pc
    rwa [hs] at ho

theorem Others.running {m : Option Worker} (ho : Others m s s') (hw : m ≠ some w) :
    s'.running w = s.running w := by
  cases w with
  | login => rw [Node.running, ho.login hw, Node.running]
  | connect => rw [Node.running, ho.connect hw, Node.running]
  | restart => rw [Node.running, ho.restart hw, Node.running]
  | verify => rw [Node.running, ho.verify hw, Node.running]
  | ctrlReply => rw [Node.running, ho.ctrlReply hw, Node.running]

theorem running_of_moves (hs : s.step cfg a = some (s', es)) (hw : a.moves = some w)
    (ha : a ≠ .start w) : s.running w = true := by
  cases a with
  | start v => exact absurd (congrArg Act.start (Option.some.inj hw)) ha
  | login reply =>
    obtain ⟨pc, hpc, -⟩ := step_login.mp hs
    cases hw
    simp [running, hpc]
  | connect env =>
    obtain ⟨pc, hpc, -⟩ := step_connect.mp hs
    cases hw
    simp [running, hpc]
  | restart =>
    obtain ⟨pc, hpc, -⟩ := step_restart.mp hs
    cases hw
    simp [running, hpc]
  | verify ok =>
    obtain ⟨pc, hpc, -⟩ := step_verify.mp hs
    cases hw
    simp [running, hpc]
  | ctrlReply ok =>
    obtain ⟨pc, hpc, -⟩ := step_ctrlReply.mp hs
    cases hw
    simp [running, hpc]
  | packet | wake | control => contradiction

theorem step_running (hs : s.step cfg a = some (s', es)) (hr : s'.running w = true) :
    s.running w = true ∨ a = .start w ∧ s.pending w = true := by
  by_cases ha : a = .start w
  · subst ha
    have he := (step_start.mp hs).1
    unfold startWork at he
    grind
  · left
    by_cases hw : a.moves = some w
    · exact running_of_moves hs hw ha
    · rwa [← (step_others hs).running hw]

end Node

end OdinLink.Proto
