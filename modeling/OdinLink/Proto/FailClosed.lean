import OdinLink.Proto.Pair

/-!
# Compatibility is fail-closed

The two login flags are evidence. `loginReceived` stands only while the device has accepted a
compatible login since the flags were last cleared, `loginSent` only while the peer has accepted one
of its own. Both are needed for CONNECTED.
-/

namespace OdinLink.Proto

open History Node

def Event.clears : Event → Bool
  | .logout | .connectFailed => true
  | _ => false

def GoodLogin (cfg : Config) (p : Packet) : Prop :=
  p.hdr.type = msgLogin ∧ loginMsgSize ≤ p.size ∧ p.protoVersion = cfg.protocolVer ∧
    ringDepthOk p.reserved0 = true

def GoodReply (cfg : Config) (r : LoginResponse) : Prop :=
  r.hdr.uuid = cfg.protoUuid ∧ r.hdr.type = msgLoginRsp ∧ r.status = loginStatusOk ∧
    ringDepthOk r.reserved0 = true

section Flags
variable {cfg : Config} {s : Node} {a : Act} {es : List Event} {d : Device}

theorem clears_of_quiet (e : Event) (hq : e.quiet = true) : e.clears = false := by
  cases e <;> first | rfl | contradiction

theorem Change.received (hm : cfg.protocolMode = 0) (hc : Change cfg s a es d)
    (hd : d.loginReceived = true) :
    s.loginReceived = true ∧ es.any Event.clears = false ∨
      ∃ e ∈ since Event.clears es, ∃ p, e = .loginAccepted p ∧ GoodLogin cfg p := by
  cases hc with
  | accepted p resp stale ha hl hp hr =>
    exact .inr ⟨_, by simp [since, Event.clears], p, rfl, hl, loginStatus_ok hm hp⟩
  | quiet hq | hopReleased _ hq => exact .inl ⟨hd, any_of_quiet clears_of_quiet hq⟩
  | loggedOut | connectFailed => contradiction
  | _ => exact .inl ⟨hd, rfl⟩

theorem Change.sent (hc : Change cfg s a es d) (hd : d.loginSent = true) :
    s.loginSent = true ∧ es.any Event.clears = false ∨
      ∃ e ∈ since Event.clears es, ∃ r, e = .replyAccepted r ∧
        s.loginWork.running = some (.accepted r) := by
  cases hc with
  | replied r hr => exact .inr ⟨_, by simp [since, Event.clears], r, rfl, hr⟩
  | quiet hq | hopReleased _ hq => exact .inl ⟨hd, any_of_quiet clears_of_quiet hq⟩
  | loggedOut | connectFailed | shrunk | waited | reset => contradiction
  | _ => exact .inl ⟨hd, rfl⟩

end Flags

section Runs
variable {cfg : Config} {ok : Node → List Event → Act → Prop} {ring : Nat} {hop : Int32}
  {s s' : Node} {h es : List Event} {a : Act}

theorem step_reply {r : LoginResponse} (hs : s.step cfg a = some (s', es))
    (hpc : s'.loginWork.running = some (.accepted r)) :
    s.loginWork.running = some (.accepted r) ∨ a = .login (some r) ∧ replyOk cfg r = true := by
  by_cases ha : a.moves = some .login
  · right
    cases a with
    | start w =>
      cases ha
      have he := (step_start.mp hs).1
      grind [startWork]
    | login reply =>
      obtain ⟨pc, hpc₀, he⟩ := step_login.mp hs
      cases pc <;> cases reply <;> grind [loginStep, loginTo, replyOk]
    | _ => cases ha
  · rw [(step_others hs).login ha] at hpc
    exact .inl hpc

theorem goodReply_of_ok (hm : cfg.protocolMode = 0) {r : LoginResponse}
    (hr : replyOk cfg r = true) : GoodReply cfg r := by
  simp only [replyOk, hm, Bool.or_eq_true, Bool.and_eq_true, decide_eq_true_eq] at hr
  rcases hr with hr | ⟨⟨⟨hu, ht⟩, hst⟩, hd⟩
  · contradiction
  · exact ⟨hu, ht, hst, hd⟩

theorem reply_checked (hm : cfg.protocolMode = 0)
    (hr : Reaches (step cfg) ok (protoInit ring hop) s h) {r : LoginResponse}
    (hpc : s.loginWork.running = some (.accepted r)) : GoodReply cfg r := by
  revert r
  refine hr.invariant
    (fun s _ => ∀ {r}, s.loginWork.running = some (.accepted r) → GoodReply cfg r) ?_ ?_
  · intro r hpc
    contradiction
  · intro s h a s' es _ ih _ hs r hpc
    rcases step_reply hs hpc with hpc | ⟨-, hok⟩
    · exact ih hpc
    · exact goodReply_of_ok hm hok

theorem login_of_received (hm : cfg.protocolMode = 0)
    (hr : Reaches (step cfg) ok (protoInit ring hop) s h) (hf : s.loginReceived = true) :
    ∃ p, .loginAccepted p ∈ since Event.clears h ∧ GoodLogin cfg p := by
  obtain ⟨e, he, p, rfl, hp⟩ := hr.backed (fun s => s.loginReceived = true)
    (fun e => ∃ p, e = .loginAccepted p ∧ GoodLogin cfg p) Event.clears (by simp [protoInit])
    (fun _ _ _ _ _ _ _ hs hf => (step_change hs).received hm hf) hf
  exact ⟨p, he, hp⟩

theorem reply_of_sent (hm : cfg.protocolMode = 0)
    (hr : Reaches (step cfg) ok (protoInit ring hop) s h) (hf : s.loginSent = true) :
    ∃ r, .replyAccepted r ∈ since Event.clears h ∧ GoodReply cfg r := by
  obtain ⟨e, he, r, rfl, hgood⟩ := hr.backed (fun s => s.loginSent = true)
    (fun e => ∃ r, e = .replyAccepted r ∧ GoodReply cfg r) Event.clears (by simp [protoInit])
    (fun s h a s' es hr _ hs hf => by
      rcases (step_change hs).sent hf with hflag | ⟨e, he, r, rfl, hpc⟩
      · exact .inl hflag
      · exact .inr ⟨_, he, r, rfl, reply_checked hm hr hpc⟩) hf
  exact ⟨r, he, hgood⟩

theorem flags_of_connected (hs : s.step cfg a = some (s', es)) (he : .connected ∈ es) :
    s.loginSent = true ∧ s.loginReceived = true := by
  obtain ⟨path, gen, -, hst, -⟩ := finish_of_connected hs he
  simp only [staleLogin, Bool.or_eq_false_iff, Bool.not_eq_false'] at hst
  exact ⟨hst.1.1.2, hst.1.2⟩

theorem login_of_connected (hm : cfg.protocolMode = 0)
    (hr : Reaches (step cfg) ok (protoInit ring hop) s h) (hc : .connected ∈ h) :
    ∃ p, .loginAccepted p ∈ h ∧ GoodLogin cfg p := by
  revert hc
  refine hr.invariant
    (fun _ h => Event.connected ∈ h → ∃ p, .loginAccepted p ∈ h ∧ GoodLogin cfg p) (by simp) ?_
  intro s h a s' es hr ih _ hs hc
  have hold : ∃ p, .loginAccepted p ∈ h ∧ GoodLogin cfg p := by
    rcases List.mem_append.mp hc with hc | hc
    · exact ih hc
    · obtain ⟨p, hp, hgood⟩ := login_of_received hm hr (flags_of_connected hs hc).2
      exact ⟨p, since_subset _ h hp, hgood⟩
  obtain ⟨p, hp, hgood⟩ := hold
  exact ⟨p, List.mem_append_left es hp, hgood⟩

theorem packet_of_accepted {P : Packet → Prop} {Q : LoginResponse → Prop}
    (hr : Reaches (step cfg) (fun _ _ a => Incoming P Q a) (protoInit ring hop) s h) {p : Packet}
    (hp : .loginAccepted p ∈ h) : p.hdr.type = msgLogin ∧ P p := by
  revert p
  refine hr.invariant (fun _ h => ∀ {p}, .loginAccepted p ∈ h → p.hdr.type = msgLogin ∧ P p)
    (by simp) ?_
  intro s h a s' es _ ih hin hs p hp
  rcases List.mem_append.mp hp with hp | hp
  · exact ih hp
  have hc := step_change hs
  generalize s'.toDevice = d at hc
  cases hc with
  | accepted q resp stale ha hl hq hr =>
    simp only [List.mem_cons, reduceCtorEq, Event.loginAccepted.injEq, List.not_mem_nil, or_false,
      false_or] at hp
    subst hp ha
    refine ⟨hl, hin.resolve_left ?_⟩
    rw [hl]
    decide
  | quiet hq | hopReleased _ hq => exact absurd hp (not_mem_of_quiet hq rfl)
  | _ => simp at hp

end Runs

/-! ## Devices of different versions -/

theorem step_requested {cfg : Config} {s s' : Node} {a : Act} {es : List Event} {p : Packet}
    (hs : s.step cfg a = some (s', es)) (hp : .loginRequested p ∈ es) : p = s.loginMsg cfg := by
  have hc := step_change hs
  generalize s'.toDevice = d at hc
  cases hc with
  | requested => simpa using hp
  | quiet hq | hopReleased _ hq => exact absurd hp (not_mem_of_quiet hq rfl)
  | _ => simp at hp

theorem versions_disconnected {cfg : Side → Config} {ring : Side → Nat} {hop : Side → Int32}
    {l : Pair} {h : List (Side × Event)} (hm : ∀ i, (cfg i).protocolMode = 0)
    (hv : (cfg .left).protocolVer ≠ (cfg .right).protocolVer)
    (hr : Reaches (Pair.step cfg) (fun _ _ _ => True)
      (Pair.init fun i => protoInit (ring i) (hop i)) l h) (i : Side) : ¬ (l.node i).live := by
  intro hlive
  -- every login in flight carries the version of its sender
  let P (i : Side) (p : Packet) : Prop := p.protoVersion = (cfg i.other).protocolVer
  obtain ⟨hrun, -⟩ := Pair.components P (fun _ _ => True)
    (fun i _ _ a => Incoming (P i) (fun _ => True) a) (fun _ _ _ _ _ hin => hin)
    (fun i s h a s' es _ hs => by
      refine ⟨fun p hp => ?_, fun _ _ => trivial⟩
      simp only [P, step_requested hs hp, Side.other_other]
      rfl) hr i
  -- the accepted login carries the own version, and the version of the peer that sent it
  obtain ⟨p, hp, -, -, hver, -⟩ := login_of_connected (hm i) hrun (connected_of_live hrun hlive)
  obtain ⟨-, hpeer⟩ := packet_of_accepted hrun hp
  have heq : (cfg i).protocolVer = (cfg i.other).protocolVer := hver.symm.trans hpeer
  cases i with
  | left => exact hv heq
  | right => exact hv heq.symm

theorem compatibility_fail_closed :
    (∀ (cfg : Config) (ring : Nat) (hop : Int32) (s s' : Node) (h es : List Event) (a : Act),
      cfg.protocolMode = 0 →
      Reaches (step cfg) (fun _ _ _ => True) (protoInit ring hop) s h →
      s.step cfg a = some (s', es) → s.state ≠ .connected → s'.state = .connected →
      (∃ p, .loginAccepted p ∈ since Event.clears h ∧ GoodLogin cfg p) ∧
        ∃ r, .replyAccepted r ∈ since Event.clears h ∧ GoodReply cfg r) ∧
    ∀ (cfg : Side → Config) (ring : Side → Nat) (hop : Side → Int32) (l : Pair)
      (h : List (Side × Event)),
      (∀ i, (cfg i).protocolMode = 0) → (cfg .left).protocolVer ≠ (cfg .right).protocolVer →
      Reaches (Pair.step cfg) (fun _ _ _ => True) (Pair.init fun i => protoInit (ring i) (hop i))
        l h →
      ∀ i, (l.node i).state ≠ .connected ∧ (l.node i).state ≠ .ready := by
  constructor
  · intro cfg ring hop s s' h es a hm hr hs hne hst
    have hflags := flags_of_connected hs ((step_connected hs hst).resolve_left hne)
    exact ⟨login_of_received hm hr hflags.2, reply_of_sent hm hr hflags.1⟩
  · intro cfg ring hop l h hm hv hr i
    have hdead := versions_disconnected hm hv hr i
    exact ⟨fun hst => hdead (.inl hst), fun hst => hdead (.inr (.inl hst))⟩

def demoCfg (ver : UInt32) : Config := ⟨0, ver, 0x4F4C, 1, 20⟩

def demoPacket (type ver path : UInt32) (depth : Nat) : Packet :=
  ⟨48, ⟨0, 1, 9, 0x4F4C, type⟩, ver, path, depth⟩

def demoReply (path : UInt32) (depth : Nat) : LoginResponse :=
  ⟨⟨0, 1, 9, 0x4F4C, msgLoginRsp⟩, loginStatusOk, path, depth⟩

def demoEnv (hop : Int32) : ConnectEnv := ⟨true, hop, ⟨true, 8, true, true⟩, ⟨true, 8, true, true⟩⟩

def demoLogin (path : UInt32) (depth : Nat) : List Act :=
  [Act.packet (demoPacket msgLogin 3 path depth) true, .start .login, .login none,
    .login (some (demoReply path depth)), .login none, .login none, .start .connect] ++
    List.replicate 6 (Act.connect (demoEnv path.toInt32))

theorem demoLogin_run : (run (step (demoCfg 3)) (fun _ _ _ => true) (protoInit 64 8) []
    (demoLogin 9 64)).isSome = true := by decide +kernel

theorem demoLogin_step : ((final _ _ _ _ demoLogin_run).1.step (demoCfg 3)
    (.connect (demoEnv 9))).isSome = true := by decide +kernel

def demoRefusal : List (Side × Act) :=
  [(.left, .start .login), (.left, .login none),
    (.right, .packet (demoPacket msgLogin 3 8 64) true)]

def demoCfgs (i : Side) : Config := demoCfg (if i = .left then 3 else 4)

theorem demoRefusal_run : (run (Pair.step demoCfgs) (fun _ _ _ => true)
    (Pair.init fun _ => protoInit 64 8) [] demoRefusal).isSome = true := by decide +kernel

theorem compatibility_fail_closed_demo :
    (∃ s h a s' es, Reaches (step (demoCfg 3)) (fun _ _ _ => True) (protoInit 64 8) s h ∧
      s.step (demoCfg 3) a = some (s', es) ∧ s.state ≠ .connected ∧ s'.state = .connected ∧
      (∃ p, .loginAccepted p ∈ since Event.clears h ∧ GoodLogin (demoCfg 3) p) ∧
        ∃ r, .replyAccepted r ∈ since Event.clears h ∧ GoodReply (demoCfg 3) r) ∧
    ∃ l h, Reaches (Pair.step demoCfgs) (fun _ _ _ => True) (Pair.init fun _ => protoInit 64 8)
      l h ∧ ∀ i, (l.node i).state ≠ .connected ∧ (l.node i).state ≠ .ready := by
  have hr := Reaches.of_final (fun _ _ _ => True) (fun _ _ _ _ => trivial) demoLogin_run
  have hp := Reaches.of_final (fun _ _ _ => True) (fun _ _ _ _ => trivial) demoRefusal_run
  constructor
  · have hs := (Option.some_get demoLogin_step).symm
    have hne : (final _ _ _ _ demoLogin_run).1.state ≠ .connected := by decide +kernel
    have hst : (Option.get _ demoLogin_step).1.state = .connected := by decide +kernel
    exact ⟨_, _, _, _, _, hr, hs, hne, hst,
      compatibility_fail_closed.1 _ _ _ _ _ _ _ _ rfl hr hs hne hst⟩
  · exact ⟨_, _, hp, compatibility_fail_closed.2 _ _ _ _ _ (fun _ => rfl) (by decide) hp⟩

end OdinLink.Proto
