import OdinLink.Proto.FailClosed

/-!
# State and hardware

The connect work starts the rings and takes an input hop before it announces CONNECTED, the restart
work undoes both before it announces HANDSHAKE, and neither holds the state lock while it is at it.
-/

namespace OdinLink.Proto

open History Node

def up (st : ConnState) : Bool := st = .connected || st = .ready

/-- Whether the rings run and whether a hop is held, while the connect work stands there; `none`
where the state says it. -/
def ConnectPc.hardware : ConnectPc → Option (Bool × Bool)
  | .setup _ _ .releaseOld | .setup _ _ .allocHop | .failed => some (false, false)
  | .setup _ _ .startRings | .releaseHop => some (false, true)
  | .setup _ _ _ | .disablePaths _ | .stopRings => some (true, true)
  | _ => none

def RestartPc.hardware : RestartPc → Option (Bool × Bool)
  | .stopRings => some (true, true)
  | .releaseHop => some (false, true)
  | .reset => some (false, false)
  | _ => none

/-- The restart work has cancelled the others and not yet announced HANDSHAKE. -/
def RestartPc.tearsDown : RestartPc → Bool
  | .teardown | .stopRings | .releaseHop | .reset => true
  | _ => false

def VerifyPc.tested : VerifyPc → Bool
  | .begin | .post | .check _ | .outReset => false
  | _ => true

namespace Device

structure Drives (d : Device) (x : Bool × Bool) : Prop where
  tx : d.txStarted = x.1
  rx : d.rxStarted = x.1
  hop : d.inHopidValid = x.2
  present : x.1 = true → d.ringsPresent = true

structure SameHardware (d d' : Device) : Prop where
  state : d'.state = d.state
  tx : d'.txStarted = d.txStarted
  rx : d'.rxStarted = d.rxStarted
  hop : d'.inHopidValid = d.inHopidValid
  present : d'.ringsPresent = d.ringsPresent

theorem SameHardware.refl (d : Device) : SameHardware d d := ⟨rfl, rfl, rfl, rfl, rfl⟩

theorem SameHardware.drives {d d' : Device} {x : Bool × Bool} (hsame : SameHardware d d')
    (hd : d.Drives x) : d'.Drives x where
  tx := hsame.tx.trans hd.tx
  rx := hsame.rx.trans hd.rx
  hop := hsame.hop.trans hd.hop
  present h := hsame.present.trans (hd.present h)

end Device

theorem Change.sameHardware {cfg : Config} {s : Node} {a : Act} {es : List Event} {d : Device}
    (hc : Change cfg s a es d) (hn : a.moves ≠ some .connect) (hr : a.moves ≠ some .restart)
    (hv : s.verifyWork.running ≠ some .setReady ∨ a.moves ≠ some .verify) :
    s.SameHardware d := by
  cases hc with
  | shrunk | shrinkFailed | hopReleased | hopAllocated | ringsStarted | connected | ringsStopped |
      reset | ready => simp_all
  | _ => exact ⟨rfl, rfl, rfl, rfl, rfl⟩

namespace Node

def hardware (s : Node) : Bool × Bool :=
  ((s.connectWork.running.bind ConnectPc.hardware).or
    (s.restartWork.running.bind RestartPc.hardware)).getD (up s.state, up s.state)

structure Matches (s : Node) : Prop where
  drives : s.Drives s.hardware
  attempt : s.connectWork.running.bind ConnectPc.hardware ≠ none → s.state = .handshake
  tested : ∀ pc, s.verifyWork.running = some pc → pc.tested = true → up s.state = true

def Exclusive (s : Node) : Prop :=
  s.restartWork.running.any RestartPc.tearsDown = true →
    s.connectWork.running = none ∧ s.verifyWork.running = none

instance (s : Node) : Decidable s.Exclusive := inferInstanceAs (Decidable (_ → _))

section Hardware
variable {s : Node} {x : Bool × Bool}

theorem hardware_connect {pc : ConnectPc} (hpc : s.connectWork.running = some pc)
    (hx : pc.hardware = some x) : s.hardware = x := by
  simp [hardware, hpc, hx]

theorem hardware_restart {pc : RestartPc} (hc : s.connectWork.running = none)
    (hpc : s.restartWork.running = some pc) (hx : pc.hardware = some x) : s.hardware = x := by
  simp [hardware, hc, hpc, hx]

theorem hardware_state (hc : s.connectWork.running.bind ConnectPc.hardware = none)
    (hr : s.restartWork.running.bind RestartPc.hardware = none) :
    s.hardware = (up s.state, up s.state) := by
  simp [hardware, hc, hr]

theorem Matches.of_connect {pc : ConnectPc} (hd : s.Drives x) (hst : s.state = .handshake)
    (hv : ∀ pc, s.verifyWork.running = some pc → pc.tested = false)
    (hpc : s.connectWork.running = some pc) (hx : pc.hardware = some x) :
    s.Matches := by
  refine ⟨(hardware_connect hpc hx).symm ▸ hd, fun _ => hst, fun pc hpc ht => ?_⟩
  rw [hv pc hpc] at ht
  contradiction

theorem Matches.not_tested (hm : s.Matches) (hst : s.state = .handshake) (pc : VerifyPc)
    (hpc : s.verifyWork.running = some pc) : pc.tested = false := by
  by_contra ht
  have hup := hm.tested pc hpc (by simpa using ht)
  rw [hst] at hup
  contradiction

theorem Matches.connect {pc : ConnectPc} (hm : s.Matches) (hpc : s.connectWork.running = some pc)
    (hx : pc.hardware = some x) :
    s.Drives x ∧ s.state = .handshake ∧
      ∀ pc, s.verifyWork.running = some pc → pc.tested = false := by
  have hst : s.state = .handshake := hm.attempt (by simp [hpc, hx])
  exact ⟨hardware_connect hpc hx ▸ hm.drives, hst, hm.not_tested hst⟩

theorem Matches.of_state (hc : s.connectWork.running.bind ConnectPc.hardware = none)
    (hr : s.restartWork.running.bind RestartPc.hardware = none)
    (hd : s.Drives (up s.state, up s.state))
    (hv : ∀ pc, s.verifyWork.running = some pc → pc.tested = true → up s.state = true) :
    s.Matches :=
  ⟨(hardware_state hc hr).symm ▸ hd, fun h => absurd hc h, hv⟩

theorem Matches.of_down (hc : s.connectWork.running.bind ConnectPc.hardware = none)
    (hr : s.restartWork.running.bind RestartPc.hardware = none) (hup : up s.state = false)
    (hd : s.Drives (false, false))
    (hv : ∀ pc, s.verifyWork.running = some pc → pc.tested = false) : s.Matches := by
  refine .of_state hc hr (hup.symm ▸ hd) fun pc hpc ht => ?_
  rw [hv pc hpc] at ht
  contradiction

theorem Matches.of_restart {pc : RestartPc} (hc : s.connectWork.running = none)
    (hpc : s.restartWork.running = some pc) (hx : pc.hardware = some x) (hd : s.Drives x)
    (hv : s.verifyWork.running = none) : s.Matches := by
  refine ⟨(hardware_restart hc hpc hx).symm ▸ hd, fun h => ?_, fun pc h => ?_⟩
  · simp [hc] at h
  · simp [hv] at h

theorem Matches.congr {s' : Node} (hm : s.Matches) (hsame : s.SameHardware s'.toDevice)
    (hc : s'.connectWork.running.bind ConnectPc.hardware =
      s.connectWork.running.bind ConnectPc.hardware)
    (hr : s'.restartWork.running.bind RestartPc.hardware =
      s.restartWork.running.bind RestartPc.hardware)
    (hv : ∀ pc, s'.verifyWork.running = some pc → pc.tested = true → up s.state = true) :
    s'.Matches := by
  have hhw : s'.hardware = s.hardware := by rw [hardware, hardware, hc, hr, hsame.state]
  refine ⟨hhw ▸ hsame.drives hm.drives, fun h => ?_, fun pc hpc ht => ?_⟩
  · rw [hsame.state, hm.attempt (hc ▸ h)]
  · rw [hsame.state, hv pc hpc ht]

theorem Matches.restart {pc : RestartPc} (hm : s.Matches) (hx : s.Exclusive)
    (hpc : s.restartWork.running = some pc) (ht : pc.tearsDown = true)
    (hh : pc.hardware = some x) :
    s.Drives x ∧ s.connectWork.running = none ∧ s.verifyWork.running = none := by
  obtain ⟨hc, hv⟩ := hx (by simp [hpc, ht])
  exact ⟨hardware_restart hc hpc hh ▸ hm.drives, hc, hv⟩

theorem Exclusive.restart_hardware (hx : s.Exclusive)
    (hrun : s.connectWork.running ≠ none ∨ s.verifyWork.running ≠ none) :
    s.restartWork.running.bind RestartPc.hardware = none := by
  cases hr : s.restartWork.running with
  | none => rfl
  | some pc =>
    unfold Exclusive at hx
    cases pc <;> simp_all [RestartPc.hardware, RestartPc.tearsDown]

end Hardware

section Steps
variable {cfg : Config} {s s' : Node} {a : Act} {es : List Event}

theorem ringsStop_drives (hd : s.Drives (true, true)) : s.ringsStop.Drives (false, true) := by
  refine ⟨?_, ?_, hd.hop, fun h => by contradiction⟩
  · simp [ringsStop, hd.present rfl]
  · simp [ringsStop, hd.present rfl]

theorem setupStep_matches {env : ConnectEnv} {path : Int32} {gen : UInt32} {pc : SetupPc}
    (hpc : s.connectWork.running = some (.setup path gen pc)) (hx : s.Exclusive) (hm : s.Matches)
    (hs : s.setupStep env path gen pc = some (s', es)) : s'.Matches := by
  cases pc with
  | releaseOld =>
    -- an attempt begins with nothing held, so there is no old hop to release
    obtain ⟨hd, hst, hv⟩ := hm.connect hpc rfl
    simp only [setupStep, hd.hop] at hs
    cases hs
    exact .of_connect hd hst hv rfl rfl
  | allocHop =>
    obtain ⟨hd, hst, hv⟩ := hm.connect hpc rfl
    simp only [setupStep] at hs
    split at hs
    · cases hs
      exact .of_connect hd hst hv rfl rfl
    · cases hs
      exact .of_connect (x := (false, true)) ⟨hd.tx, hd.rx, rfl, hd.present⟩ hst hv rfl rfl
  | startRings =>
    obtain ⟨hd, hst, hv⟩ := hm.connect hpc rfl
    simp only [setupStep] at hs
    split at hs
    · rename_i hpres
      cases hs
      exact .of_connect (x := (true, true)) ⟨rfl, rfl, hd.hop, fun _ => hpres⟩ hst hv rfl rfl
    · contradiction
  | primeRx =>
    obtain ⟨hd, hst, hv⟩ := hm.connect hpc rfl
    simp only [setupStep] at hs
    split at hs <;> cases hs <;> exact .of_connect hd hst hv rfl rfl
  | enablePaths attempt =>
    obtain ⟨hd, hst, hv⟩ := hm.connect hpc rfl
    simp only [setupStep] at hs
    split at hs
    · cases hs
      exact .of_connect hd hst hv rfl rfl
    · split at hs <;> cases hs <;> exact .of_connect hd hst hv rfl rfl
  | finish =>
    obtain ⟨hd, hst, hv⟩ := hm.connect hpc rfl
    simp only [setupStep] at hs
    split at hs
    · cases hs
      exact .of_connect hd hst hv rfl rfl
    · cases hs
      have hr := hx.restart_hardware (.inl (by simp [hpc]))
      exact .of_state rfl hr ⟨hd.tx, hd.rx, hd.hop, hd.present⟩ fun _ _ _ => rfl

theorem ringsResize_hardware (n : Nat) (env : ConnectEnv) :
    (s.ringsResize n env).2.state = s.state ∧
      (s.ringsResize n env).2.txStarted = s.txStarted ∧
      (s.ringsResize n env).2.rxStarted = s.rxStarted ∧
      (s.ringsResize n env).2.inHopidValid = s.inHopidValid := by
  unfold ringsResize ringsAlloc ringsFree
  grind

theorem connectBegin_matches (cfg : Config) (env : ConnectEnv)
    (hpc : s.connectWork.running = some .begin) (hx : s.Exclusive) (hm : s.Matches) :
    (s.connectBegin cfg env).1.Matches := by
  have hr := hx.restart_hardware (.inl (by simp [hpc]))
  have hd := hm.drives
  have hv := hm.tested
  rw [hardware_state (by rw [hpc]; rfl) hr] at hd
  unfold connectBegin
  split
  · exact hm.congr (.refl _) (by rw [hpc]; rfl) rfl hv
  rename_i hmay
  have hst : s.state = .handshake := by
    by_contra hne
    exact hmay (.inl hne)
  dsimp only
  split
  · obtain ⟨hst', htx, hrx, hhop⟩ := ringsResize_hardware (s := s) s.peerRingSize env
    have ho := ringsResize_others (m := none) (s := s) s.peerRingSize env
    rw [hst] at hd hst'
    generalize (s.ringsResize s.peerRingSize env).2 = t at *
    have hr' : t.restartWork.running.bind RestartPc.hardware = none := by
      rw [ho.restart (by simp), hr]
    have hv' (pc : VerifyPc) (hpc : t.verifyWork.running = some pc) : pc.tested = false :=
      hm.not_tested hst pc (ho.verify (by simp) ▸ hpc)
    have hd' : t.Drives (false, false) :=
      ⟨htx.trans hd.tx, hrx.trans hd.rx, hhop.trans hd.hop, fun h => by contradiction⟩
    split
    · exact .of_down rfl hr' (hst' ▸ rfl) ⟨hd'.tx, hd'.rx, hd'.hop, hd'.present⟩ hv'
    · exact .of_down rfl hr' rfl ⟨hd'.tx, hd'.rx, hd'.hop, hd'.present⟩ hv'
  split
  · exact hm.congr ⟨rfl, rfl, rfl, rfl, rfl⟩ (by rw [hpc]; rfl) rfl hv
  · rw [hst] at hd
    exact .of_connect (x := (false, false)) ⟨hd.tx, hd.rx, hd.hop, hd.present⟩ hst
      (hm.not_tested hst) rfl rfl

theorem connectStep_matches {env : ConnectEnv} {pc : ConnectPc}
    (hpc : s.connectWork.running = some pc) (hx : s.Exclusive) (hm : s.Matches)
    (hs : s.connectStep cfg env pc = some (s', es)) : s'.Matches := by
  have hr := hx.restart_hardware (.inl (by simp [hpc]))
  cases pc with
  | setup path gen pc => exact setupStep_matches hpc hx hm hs
  | begin =>
    have hb := connectBegin_matches cfg env hpc hx hm
    rw [connectStep, Option.some.injEq] at hs
    rwa [hs] at hb
  | disablePaths path =>
    obtain ⟨hd, hst, hv⟩ := hm.connect hpc rfl
    cases hs
    exact .of_connect hd hst hv rfl rfl
  | stopRings =>
    obtain ⟨hd, hst, hv⟩ := hm.connect hpc rfl
    cases hs
    exact .of_connect (ringsStop_drives hd) hst hv rfl rfl
  | releaseHop =>
    obtain ⟨hd, hst, hv⟩ := hm.connect hpc rfl
    cases hs
    exact .of_connect (x := (false, false)) ⟨hd.tx, hd.rx, rfl, hd.present⟩ hst hv rfl rfl
  | failed =>
    obtain ⟨hd, hst, hv⟩ := hm.connect hpc rfl
    cases hs
    exact .of_down rfl hr (hst ▸ rfl) ⟨hd.tx, hd.rx, hd.hop, hd.present⟩ hv
  | relogin | retryLogin | scheduleVerify =>
    cases hs
    have ho := schedule_others (m := none) s
    refine hm.congr ?_ ?_ ?_ ?_
    · rw [connectTo_toDevice, schedule_toDevice]
      exact .refl _
    · rw [hpc]
      rfl
    · simp [connectTo, (ho _).restart]
    · simpa [connectTo, (ho _).verify] using hm.tested
  | allocPools =>
    cases hs
    exact hm.congr ⟨rfl, rfl, rfl, rfl, rfl⟩ (by rw [hpc]; rfl) rfl
      hm.tested

theorem restartStep_matches {pc : RestartPc} (hpc : s.restartWork.running = some pc)
    (hx : s.Exclusive) (hm : s.Matches) (hs : s.restartStep pc = some (s', es)) : s'.Matches := by
  cases pc with
  | cancel w =>
    cases hs
    have ho := setPending_others (m := none) s w false
    refine hm.congr ?_ ?_ ?_ ?_
    · rw [restartTo_toDevice, setPending_toDevice]
      exact .refl _
    · simp [restartTo, ho.connect]
    · simp [restartTo, hpc, RestartPc.hardware]
    · simpa [restartTo, ho.verify] using hm.tested
  | flush w =>
    simp only [restartStep] at hs
    split at hs
    · contradiction
    · cases hs
      refine hm.congr (.refl _) rfl ?_ hm.tested
      cases w <;> simp [restartTo, hpc, afterFlush, RestartPc.hardware]
  | clearPong =>
    cases hs
    exact hm.congr ⟨rfl, rfl, rfl, rfl, rfl⟩ rfl (by simp [restartTo, hpc, RestartPc.hardware])
      hm.tested
  | teardown =>
    -- the test of `tx.started` alone decides whether the hop is released
    obtain ⟨hc, hv⟩ := hx (by simp [hpc, RestartPc.tearsDown])
    have hd := hm.drives
    rw [hardware_state (by simp [hc]) (by simp [hpc, RestartPc.hardware])] at hd
    simp only [restartStep] at hs
    split at hs
    · rename_i htx
      cases hs
      rw [show up s.state = true from hd.tx.symm.trans htx] at hd
      exact .of_restart hc rfl rfl hd hv
    · rename_i htx
      cases hs
      rw [show up s.state = false from hd.tx.symm.trans (Bool.eq_false_of_not_eq_true htx)] at hd
      exact .of_restart hc rfl rfl hd hv
  | stopRings =>
    obtain ⟨hd, hc, hv⟩ := hm.restart hx hpc rfl rfl
    cases hs
    exact .of_restart hc rfl rfl (ringsStop_drives hd) hv
  | releaseHop =>
    obtain ⟨hd, hc, hv⟩ := hm.restart hx hpc rfl rfl
    cases hs
    exact .of_restart (x := (false, false)) hc rfl rfl ⟨hd.tx, hd.rx, rfl, hd.present⟩ hv
  | reset =>
    obtain ⟨hd, hc, hv⟩ := hm.restart hx hpc rfl rfl
    cases hs
    refine .of_down ?_ rfl rfl ⟨hd.tx, hd.rx, hd.hop, hd.present⟩ fun pc hpc => ?_
    · simp [restartTo, hc]
    · simp [restartTo, hv] at hpc
  | relogin =>
    cases hs
    have ho := schedule_others (m := none) s .login
    refine hm.congr ?_ ?_ ?_ ?_
    · rw [restartTo_toDevice, schedule_toDevice]
      exact .refl _
    · simp [restartTo, ho.connect]
    · simp [restartTo, hpc, RestartPc.hardware]
    · simpa [restartTo, ho.verify] using hm.tested

theorem setReady_matches (hpc : s.verifyWork.running = some .setReady) (hx : s.Exclusive)
    (hm : s.Matches) : ({s with state := .ready}.verifyTo none).Matches := by
  -- the state is not looked at again here: it is still what the test found
  have hup := hm.tested _ hpc rfl
  have hr := hx.restart_hardware (.inr (by simp [hpc]))
  have hc : s.connectWork.running.bind ConnectPc.hardware = none := by
    by_contra hne
    rw [hm.attempt hne] at hup
    contradiction
  have hd := hm.drives
  rw [hardware_state hc hr, hup] at hd
  exact .of_state hc hr ⟨hd.tx, hd.rx, hd.hop, hd.present⟩ fun _ _ _ => rfl

theorem verifyStep_tested {ok : Bool} {pc pc' : VerifyPc} (hm : s.Matches)
    (hpc : s.verifyWork.running = some pc) (hs : s.verifyStep ok pc = some (s', es))
    (hpc' : s'.verifyWork.running = some pc') (ht : pc'.tested = true) : up s.state = true := by
  have htest := hm.tested pc hpc
  cases pc <;> grind [verifyStep, verifyTo, VerifyPc.tested, up]

theorem startWork_matches {w : Worker} (hm : s.Matches) (hs : s.startWork w = some s') :
    s'.Matches := by
  unfold startWork at hs
  split at hs
  · rename_i hidle
    rw [Bool.and_eq_true, Bool.not_eq_true'] at hidle
    cases hs
    cases w with
    | login | ctrlReply => exact hm.congr (.refl _) rfl rfl hm.tested
    | connect =>
      have hc : s.connectWork.running = none := by simpa [running] using hidle.2
      exact hm.congr (.refl _) (by rw [hc]; rfl) rfl hm.tested
    | restart =>
      have hr : s.restartWork.running = none := by simpa [running] using hidle.2
      exact hm.congr (.refl _) rfl (by rw [hr]; rfl) hm.tested
    | verify =>
      refine hm.congr (.refl _) rfl rfl fun pc hpc ht => ?_
      cases hpc
      contradiction
  · contradiction

theorem step_matches (hx : s.Exclusive) (hm : s.Matches) (hs : s.step cfg a = some (s', es)) :
    s'.Matches := by
  have ho := step_others hs
  cases a with
  | connect env =>
    obtain ⟨pc, hpc, he⟩ := step_connect.mp hs
    exact connectStep_matches hpc hx hm he
  | restart =>
    obtain ⟨pc, hpc, he⟩ := step_restart.mp hs
    exact restartStep_matches hpc hx hm he
  | verify ok =>
    obtain ⟨pc, hpc, he⟩ := step_verify.mp hs
    by_cases hready : pc = .setReady
    · subst hready
      cases he
      exact setReady_matches hpc hx hm
    · have hsame := (step_change hs).sameHardware (by simp [Act.moves]) (by simp [Act.moves])
        (.inl (by simp [hpc, hready]))
      refine hm.congr hsame ?_ ?_ fun pc' => verifyStep_tested hm hpc he
      · rw [ho.connect (by simp [Act.moves])]
      · rw [ho.restart (by simp [Act.moves])]
  | start w => exact startWork_matches hm (step_start.mp hs).1
  | packet | wake | control | login | ctrlReply =>
    have hsame := (step_change hs).sameHardware (by simp [Act.moves]) (by simp [Act.moves])
      (.inr (by simp [Act.moves]))
    refine hm.congr hsame ?_ ?_ ?_
    · rw [ho.connect (by simp [Act.moves])]
    · rw [ho.restart (by simp [Act.moves])]
    · rw [ho.verify (by simp [Act.moves])]
      exact hm.tested

end Steps

theorem protoInit_matches (ring : Nat) (hop : Int32) : (protoInit ring hop).Matches := by
  refine .of_down rfl rfl rfl ⟨rfl, rfl, rfl, fun _ => rfl⟩ fun pc hpc => ?_
  contradiction

def Quiet (s : Node) : Prop := ∀ w, w ≠ .login → s.running w = false ∧ s.pending w = false

instance (s : Node) : Decidable s.Quiet :=
  decidable_of_iff (∀ w ∈ [Worker.connect, .restart, .verify, .ctrlReply],
    s.running w = false ∧ s.pending w = false)
    ⟨fun h w hw => h w (by cases w <;> simp_all), fun h w hw => h w (by rintro rfl; simp at hw)⟩

end Node

theorem hardware_matches_state {cfg : Config} {ring : Nat} {hop : Int32} {s : Node}
    {h : List Event}
    (hr : Reaches (step cfg) (fun s _ _ => s.Exclusive) (protoInit ring hop) s h)
    (hq : s.Quiet) :
    (s.state = .connected ∨ s.state = .ready ↔
      s.txStarted = true ∧ s.rxStarted = true ∧ s.inHopidValid = true) ∧
    (s.state = .handshake →
      s.txStarted = false ∧ s.rxStarted = false ∧ s.inHopidValid = false) := by
  have hm : s.Matches := by
    refine hr.invariant (fun s _ => s.Matches) (protoInit_matches ring hop) ?_
    intro s h a s' es _ hm hx hs
    exact step_matches hx hm hs
  have hc : s.connectWork.running = none := by simpa [running] using (hq .connect (by simp)).1
  have hrs : s.restartWork.running = none := by simpa [running] using (hq .restart (by simp)).1
  obtain ⟨htx, hrx, hhop, -⟩ := hm.drives
  rw [hardware_state (by simp [hc]) (by simp [hrs])] at htx hrx hhop
  rw [htx, hrx, hhop]
  cases s.state <;> simp [up]

def demoReady : List Act :=
  demoLogin 9 64 ++ List.replicate 3 (Act.connect (demoEnv 9)) ++ [Act.start .verify] ++
    List.replicate 5 (Act.verify true) ++ [Act.control true dmaPong] ++
    List.replicate 5 (Act.verify true)

theorem demoReady_run : (run (step (demoCfg 3)) (fun s _ _ => decide s.Exclusive)
    (protoInit 64 8) [] demoReady).isSome = true := by decide +kernel

def demoRestart : List Act :=
  [Act.packet (demoPacket msgLogout 0 0 0) true, .wake, .start .restart] ++
    List.replicate 14 Act.restart

theorem demoRestart_run : (run (step (demoCfg 3)) (fun s _ _ => decide s.Exclusive)
    (protoInit 64 8) [] (demoReady ++ demoRestart)).isSome = true := by decide +kernel

theorem hardware_matches_state_demo :
    (∃ s h, Reaches (step (demoCfg 3)) (fun s _ _ => s.Exclusive) (protoInit 64 8) s h ∧
      s.Quiet ∧ s.state = .ready ∧
      s.txStarted = true ∧ s.rxStarted = true ∧ s.inHopidValid = true) ∧
    ∃ s h, Reaches (step (demoCfg 3)) (fun s _ _ => s.Exclusive) (protoInit 64 8) s h ∧
      s.Quiet ∧ .ready ∈ h ∧ s.state = .handshake ∧
      s.txStarted = false ∧ s.rxStarted = false ∧ s.inHopidValid = false := by
  constructor
  · have hr := Reaches.of_final (fun (s : Node) _ _ => s.Exclusive)
      (fun _ _ _ h => of_decide_eq_true h) demoReady_run
    have hq : (final _ _ _ _ demoReady_run).1.Quiet := by decide +kernel
    have hst : (final _ _ _ _ demoReady_run).1.state = .ready := by decide +kernel
    exact ⟨_, _, hr, hq, hst, (hardware_matches_state hr hq).1.mp (.inr hst)⟩
  · have hr := Reaches.of_final (fun (s : Node) _ _ => s.Exclusive)
      (fun _ _ _ h => of_decide_eq_true h) demoRestart_run
    have hq : (final _ _ _ _ demoRestart_run).1.Quiet := by decide +kernel
    have hst : (final _ _ _ _ demoRestart_run).1.state = .handshake := by decide +kernel
    exact ⟨_, _, hr, hq, by decide +kernel, hst, (hardware_matches_state hr hq).2 hst⟩

/-- The restart work has cancelled the verify work when the connect work queues it again; the
verify work then finishes after the rings are stopped. -/
def demoRequeued : List Act :=
  demoLogin 9 64 ++ List.replicate 2 (Act.connect (demoEnv 9)) ++
    [Act.packet (demoPacket msgLogout 0 0 0) true, .wake, .start .restart] ++
    List.replicate 5 Act.restart ++ [Act.connect (demoEnv 9)] ++ List.replicate 3 Act.restart ++
    [Act.start .verify] ++ List.replicate 5 (Act.verify true) ++ [Act.control true dmaPong] ++
    List.replicate 4 (Act.verify true) ++ List.replicate 6 Act.restart ++ [Act.verify true]

theorem demoRequeued_run : (run (step (demoCfg 3)) (fun _ _ _ => true) (protoInit 64 8) []
    demoRequeued).isSome = true := by decide +kernel

theorem ready_with_rings_stopped :
    ∃ s h, Reaches (step (demoCfg 3)) (fun _ _ _ => True) (protoInit 64 8) s h ∧ s.Quiet ∧
      s.state = .ready ∧ s.txStarted = false ∧ s.rxStarted = false ∧ s.inHopidValid = false := by
  have hr := Reaches.of_final (fun _ _ _ => True) (fun _ _ _ _ => trivial) demoRequeued_run
  have hq : (final _ _ _ _ demoRequeued_run).1.Quiet := by decide +kernel
  exact ⟨_, _, hr, hq, by decide +kernel, by decide +kernel, by decide +kernel, by decide +kernel⟩

end OdinLink.Proto
