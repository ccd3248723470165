import OdinLink.Proto.Changes

/-!
# A device that winds up

Work items give up at their next look at the state DISCONNECTED. If none of them is past that look,
and nothing comes in, a device does no more than finish what it has begun: the state stays as it is,
and the only work that is still queued is the login that is tried again.
-/

namespace OdinLink.Proto

open Node

def ConnectPc.announced : ConnectPc → Bool
  | .allocPools | .scheduleVerify => true
  | _ => false

/-- The verify work looks at the state before it does anything that counts, or has given up. -/
def VerifyPc.unsettled : VerifyPc → Bool
  | .begin | .post | .check _ | .outReset => true
  | _ => false

namespace Node

def Idle (s : Node) (w : Worker) : Prop := s.pending w = false ∧ s.running w = false

instance (s : Node) (w : Worker) : Decidable (s.Idle w) := inferInstanceAs (Decidable (_ ∧ _))

/-- Nobody is past the look at the state that would have told him of the removal. -/
structure Winding (s : Node) : Prop where
  handler : s.handler = none
  restart : s.Idle .restart
  connect : s.connectWork.running.any ConnectPc.announced = false
  login : s.loginWork.running ≠ some .wakeConnect
  verify : s.verifyWork.running.all VerifyPc.unsettled = true

instance (s : Node) : Decidable s.Winding :=
  decidable_of_iff (s.handler = none ∧ s.Idle .restart ∧
    s.connectWork.running.any ConnectPc.announced = false ∧
    s.loginWork.running ≠ some .wakeConnect ∧ s.verifyWork.running.all VerifyPc.unsettled = true)
    ⟨fun ⟨h1, h2, h3, h4, h5⟩ => ⟨h1, h2, h3, h4, h5⟩,
      fun ⟨h1, h2, h3, h4, h5⟩ => ⟨h1, h2, h3, h4, h5⟩⟩

end Node

/-- Nothing comes in that makes the device queue work: no packet, and no control frame but a
pong. -/
def Act.calm : Act → Bool
  | .packet _ _ => false
  | .control _ type => type = dmaPong
  | _ => true

namespace Node
variable {cfg : Config} {s s' : Node} {a : Act} {es : List Event}

theorem pending_setPending (s : Node) (w v : Worker) (b : Bool) :
    (s.setPending w b).pending v = if v = w then b else s.pending v := by
  cases w <;> cases v <;> rfl

@[simp] theorem running_setPending (s : Node) (w v : Worker) (b : Bool) :
    (s.setPending w b).running v = s.running v := by
  cases w <;> cases v <;> rfl

theorem schedule_of_idle {s : Node} (hr : s.Idle .restart) (w : Worker) :
    s.schedule w = s.setPending w true := by
  have hnone : s.restartWork.running = none := by
    simpa [running] using hr.2
  rw [schedule, hnone, if_neg (by simp)]

theorem Winding.of_others {m : Option Worker} (hw : s.Winding) (ho : Others m s s')
    (hh : s'.handler = s.handler) (hr : s'.restartWork = s.restartWork)
    (hc : m = some .connect → s'.connectWork.running.any ConnectPc.announced = false)
    (hl : m = some .login → s'.loginWork.running ≠ some .wakeConnect)
    (hv : m = some .verify → s'.verifyWork.running.all VerifyPc.unsettled = true) : s'.Winding := by
  have hidle := hw.restart
  refine ⟨hh.trans hw.handler, ?_, ?_, ?_, ?_⟩
  · rw [Idle, pending, running, hr]
    exact hidle
  · by_cases hm : m = some .connect
    · exact hc hm
    · exact ho.connect hm ▸ hw.connect
  · by_cases hm : m = some .login
    · exact hl hm
    · exact ho.login hm ▸ hw.login
  · by_cases hm : m = some .verify
    · exact hv hm
    · exact ho.verify hm ▸ hw.verify

theorem startWork_winding {w : Worker} (hw : s.Winding) (hs : s.startWork w = some s') :
    s'.Winding := by
  have hpend := hw.restart.1
  have ho := startWork_others hs
  unfold startWork at hs
  split at hs
  · rename_i hready
    cases w with
    | restart =>
      rw [hpend] at hready
      contradiction
    | _ =>
      cases hs
      refine hw.of_others ho rfl rfl ?_ ?_ ?_ <;> simp
      all_goals rfl
  · contradiction

theorem loginStep_winding {reply : Option LoginResponse} {pc : LoginPc}
    (hst : s.state = .disconnected) (hw : s.Winding) (hpc : s.loginWork.running = some pc)
    (hs : s.loginStep cfg reply pc = (s', es)) : s'.Winding := by
  have hsched := schedule_of_idle hw.restart
  have ho := loginStep_others (s := s) cfg reply pc
  rw [hs] at ho
  have hrest : s'.handler = s.handler ∧ s'.restartWork = s.restartWork ∧
      s'.loginWork.running ≠ some .wakeConnect := by
    cases pc with
    | wakeConnect => exact absurd hpc hw.login
    | await => cases reply <;> grind [loginStep, loginTo]
    | _ => grind [loginStep, loginTo, schedule, setPending]
  exact hw.of_others ho hrest.1 hrest.2.1 (by simp) (fun _ => hrest.2.2) (by simp)

theorem connectStep_winding {env : ConnectEnv} {pc : ConnectPc} (hst : s.state = .disconnected)
    (hw : s.Winding) (hpc : s.connectWork.running = some pc)
    (hs : s.connectStep cfg env pc = some (s', es)) : s'.Winding := by
  have hann := hw.connect
  rw [hpc] at hann
  have hrest : s'.handler = s.handler ∧ s'.restartWork = s.restartWork ∧
      s'.connectWork.running.any ConnectPc.announced = false := by
    cases pc with
    | begin =>
      simp only [connectStep, connectBegin, hst, Option.some.injEq] at hs
      rw [if_pos (by simp)] at hs
      cases hs
      exact ⟨rfl, rfl, rfl⟩
    | setup path gen pc =>
      -- the second section finds the state changed
      have hstale : s.staleLogin gen = true := by simp [staleLogin, hst]
      cases pc <;> grind [connectStep, setupStep, connectTo, ringsStart, ConnectPc.announced]
    | _ => grind [connectStep, connectTo, ringsStop, schedule, setPending, ConnectPc.announced]
  exact hw.of_others (connectStep_others hs) hrest.1 hrest.2.1 (fun _ => hrest.2.2) (by simp)
    (by simp)

theorem verifyStep_winding {ok : Bool} {pc : VerifyPc} (hst : s.state = .disconnected)
    (hw : s.Winding) (hpc : s.verifyWork.running = some pc)
    (hs : s.verifyStep ok pc = some (s', es)) : s'.Winding := by
  have huns := hw.verify
  rw [hpc] at huns
  have hrest : s'.handler = s.handler ∧ s'.restartWork = s.restartWork ∧
      s'.verifyWork.running.all VerifyPc.unsettled = true := by
    cases pc <;> grind [verifyStep, verifyTo, VerifyPc.unsettled]
  exact hw.of_others (verifyStep_others hs) hrest.1 hrest.2.1 (by simp) (by simp)
    fun _ => hrest.2.2

theorem Winding.not_restart (hw : s.Winding) (s' : Node) (es : List Event) :
    s.step cfg .restart ≠ some (s', es) := by
  intro hs
  obtain ⟨pc, hpc, -⟩ := step_restart.mp hs
  simpa [running, hpc] using hw.restart.2

theorem step_winding (hst : s.state = .disconnected) (hw : s.Winding) (ha : a.calm = true)
    (hs : s.step cfg a = some (s', es)) : s'.Winding := by
  cases a with
  | packet p sent => simp [Act.calm] at ha
  | wake =>
    obtain ⟨w, hhandler, -⟩ := step_wake.mp hs
    rw [hw.handler] at hhandler
    contradiction
  | control pool type =>
    have hpong : type = dmaPong := by simpa [Act.calm] using ha
    obtain ⟨-, hs⟩ := step_control.mp hs
    unfold rxControl at hs
    rw [if_pos hpong] at hs
    split at hs <;> cases hs
    · exact ⟨hw.handler, hw.restart, hw.connect, hw.login, hw.verify⟩
    · exact hw
  | start w => exact startWork_winding hw (step_start.mp hs).1
  | login reply =>
    obtain ⟨pc, hpc, hs⟩ := step_login.mp hs
    exact loginStep_winding hst hw hpc hs
  | connect env =>
    obtain ⟨pc, hpc, hs⟩ := step_connect.mp hs
    exact connectStep_winding hst hw hpc hs
  | restart => exact absurd hs (hw.not_restart _ _)
  | verify ok =>
    obtain ⟨pc, hpc, hs⟩ := step_verify.mp hs
    exact verifyStep_winding hst hw hpc hs
  | ctrlReply ok =>
    obtain ⟨pc, hpc, hs⟩ := step_ctrlReply.mp hs
    have ho := ctrlReplyStep_others (s := s) ok pc
    rw [hs] at ho
    refine hw.of_others ho ?_ ?_ (by simp) (by simp) (by simp) <;>
      cases pc <;> grind [ctrlReplyStep, ctrlReplyTo]

theorem step_disconnected (hst : s.state = .disconnected) (hw : s.Winding)
    (hs : s.step cfg a = some (s', es)) : s'.state = .disconnected := by
  have hchange := step_change hs
  by_cases hstart : ∃ w, a = .start w
  · obtain ⟨w, rfl⟩ := hstart
    rw [startWork_toDevice (step_start.mp hs).1, hst]
  generalize s'.toDevice = d at hchange ⊢
  cases hchange with
  | shrinkFailed ring hop present hc =>
    rw [hc.1] at hst
    contradiction
  | connected path gen hpc hstale ha => simp [staleLogin, hst] at hstale
  | reset ha =>
    cases a with
    | start w => exact absurd ⟨w, rfl⟩ hstart
    | restart => exact absurd hs (hw.not_restart _ _)
    | _ => simp [Act.moves] at ha
  | ready hpc ha =>
    have huns := hw.verify
    rw [hpc] at huns
    contradiction
  | _ => exact hst

theorem pending_of_step (hst : s.state = .disconnected) (hw : s.Winding) (ha : a.calm = true)
    (hs : s.step cfg a = some (s', es)) {w : Worker} (hp : s'.pending w = true) :
    s.pending w = true ∨ w = .login ∧ (s.running .connect = true ∨ s.running .login = true) := by
  cases a with
  | packet p sent => simp [Act.calm] at ha
  | wake =>
    obtain ⟨v, hhandler, -⟩ := step_wake.mp hs
    rw [hw.handler] at hhandler
    contradiction
  | control pool type =>
    have hpong : type = dmaPong := by simpa [Act.calm] using ha
    obtain ⟨-, hs⟩ := step_control.mp hs
    unfold rxControl at hs
    rw [if_pos hpong] at hs
    left
    split at hs <;> cases hs <;> cases w <;> exact hp
  | start v =>
    obtain ⟨hs, -⟩ := step_start.mp hs
    left
    unfold startWork at hs
    split at hs
    · cases v <;> cases hs <;> cases w <;> first | exact hp | contradiction
    · contradiction
  | login reply =>
    obtain ⟨pc, hpc, hs⟩ := step_login.mp hs
    have hrun : s.running .login = true := by simp [running, hpc]
    cases pc with
    | wakeConnect => exact absurd hpc hw.login
    | await => cases reply <;> cases w <;> grind [loginStep, loginTo, pending]
    | _ => cases w <;> grind [loginStep, loginTo, schedule, setPending, pending]
  | connect env =>
    obtain ⟨pc, hpc, hs⟩ := step_connect.mp hs
    have hrun : s.running .connect = true := by simp [running, hpc]
    have hann := hw.connect
    rw [hpc] at hann
    cases pc with
    | begin =>
      simp only [connectStep, connectBegin, hst, Option.some.injEq] at hs
      rw [if_pos (by simp)] at hs
      cases hs
      left
      cases w <;> exact hp
    | setup path gen pc =>
      left
      cases pc <;> cases w <;> grind [connectStep, setupStep, connectTo, ringsStart, pending]
    | _ =>
      cases w <;> grind [connectStep, connectTo, ringsStop, schedule, setPending, pending,
        ConnectPc.announced]
  | restart => exact absurd hs (hw.not_restart _ _)
  | verify ok =>
    obtain ⟨pc, hpc, hs⟩ := step_verify.mp hs
    left
    cases pc <;> cases w <;> grind [verifyStep, verifyTo, pending]
  | ctrlReply ok =>
    obtain ⟨pc, hpc, hs⟩ := step_ctrlReply.mp hs
    left
    cases pc <;> cases w <;> grind [ctrlReplyStep, ctrlReplyTo, pending]

theorem Winding.setPending (hw : s.Winding) (w : Worker) : (s.setPending w false).Winding := by
  have hidle := hw.restart
  have ho := setPending_others (m := none) s w false
  refine ⟨?_, ⟨?_, ?_⟩, ?_, ?_, ?_⟩
  · cases w <;> exact hw.handler
  · rw [pending_setPending]
    split
    · rfl
    · exact hidle.1
  · rw [running_setPending]
    exact hidle.2
  · rw [ho.connect (by simp)]
    exact hw.connect
  · rw [ho.login (by simp)]
    exact hw.login
  · rw [ho.verify (by simp)]
    exact hw.verify

def RingsOk (s : Node) : Prop := s.rxStarted = true → s.ringsPresent = true

theorem step_ringsOk (hi : s.RingsOk) (hs : s.step cfg a = some (s', es)) : s'.RingsOk := by
  have hchange := step_change hs
  have hdev (t : Node) : t.RingsOk ↔
      (t.toDevice.rxStarted = true → t.toDevice.ringsPresent = true) := Iff.rfl
  rw [hdev] at hi ⊢
  generalize hd : s'.toDevice = d at hchange ⊢
  cases hchange with
  | shrunk => exact fun _ => rfl
  | shrinkFailed ring hop present hc hring hpres ha =>
    intro hrx
    exact (hpres (.inr hrx)).trans (hi hrx)
  | ringsStarted ha path gen hpc =>
    intro _
    cases a with
    | connect env =>
      obtain ⟨pc, hpc', hs⟩ := step_connect.mp hs
      obtain rfl : pc = .setup path gen .startRings := Option.some.inj (hpc'.symm.trans hpc)
      simp only [connectStep, setupStep] at hs
      split at hs
      · assumption
      · contradiction
    | start w =>
      have hsame := startWork_toDevice (step_start.mp hs).1
      rw [hd] at hsame
      have htrue : s.toDevice.rxStarted = true := by rw [← hsame]
      exact hi htrue
    | _ => simp [Act.moves] at ha
  | ringsStopped ha =>
    intro hrx
    exact hi (Bool.and_eq_true_iff.mp hrx).1
  | _ => exact hi

theorem step_rxStopped (hc : s.connectWork.running = none) (hrx : s.rxStarted = false)
    (hs : s.step cfg a = some (s', es)) : s'.rxStarted = false := by
  have hchange := step_change hs
  generalize s'.toDevice = d at hchange ⊢
  cases hchange with
  | ringsStarted ha path gen hpc =>
    rw [hc] at hpc
    contradiction
  | ringsStopped ha => simp [hrx]
  | _ => exact hrx

theorem step_of_idle (hidle : ∀ w, s.Idle w) (hh : s.handler = none) (hrx : s.rxStarted = false)
    (hp : ∀ q sent, a ≠ .packet q sent) : s.step cfg a = none := by
  have hrun (w : Worker) := (hidle w).2
  cases a with
  | packet q sent => exact absurd rfl (hp q sent)
  | wake => simp only [step, hh]
  | control pool type => rw [step, hrx, if_neg Bool.false_ne_true]
  | start w => simp [step, startWork, (hidle w).1]
  | login reply =>
    have hnone : s.loginWork.running = none := by simpa [running] using hrun .login
    rw [step, hnone, Option.map_none]
  | connect env =>
    have hnone : s.connectWork.running = none := by simpa [running] using hrun .connect
    rw [step, hnone, Option.bind_none]
  | restart =>
    have hnone : s.restartWork.running = none := by simpa [running] using hrun .restart
    rw [step, hnone, Option.bind_none]
  | verify ok =>
    have hnone : s.verifyWork.running = none := by simpa [running] using hrun .verify
    rw [step, hnone, Option.bind_none]
  | ctrlReply ok =>
    have hnone : s.ctrlReplyWork.running = none := by simpa [running] using hrun .ctrlReply
    rw [step, hnone, Option.map_none]

structure WindsUp (s s' : Node) : Prop where
  state : s'.state = .disconnected
  winding : s'.Winding
  pending : ∀ w, s'.pending w = true → s.pending w = true ∨
    w = .login ∧ (s.running .connect = true ∨ s.running .login = true)
  running : ∀ w, s'.running w = true → s.running w = true ∨ s.pending w = true
  rings : s.connectWork.running = none → s.rxStarted = false → s'.rxStarted = false

theorem step_windsUp (hst : s.state = .disconnected) (hw : s.Winding) (ha : a.calm = true)
    (hs : s.step cfg a = some (s', es)) : WindsUp s s' where
  state := step_disconnected hst hw hs
  winding := step_winding hst hw ha hs
  pending _ hp := pending_of_step hst hw ha hs hp
  running _ hrun := (step_running hs hrun).imp_right And.right
  rings hc hrx := step_rxStopped hc hrx hs

theorem WindsUp.setPending (h : WindsUp s s') (w : Worker) :
    WindsUp s (s'.setPending w false) where
  state := by rw [setPending_toDevice]; exact h.state
  winding := h.winding.setPending w
  pending v hp := by
    rw [pending_setPending] at hp
    split at hp
    · contradiction
    · exact h.pending v hp
  running v hrun := by
    rw [running_setPending] at hrun
    exact h.running v hrun
  rings hc hrx := by rw [setPending_toDevice]; exact h.rings hc hrx

theorem verifyTo_windsUp (hst : s.state = .disconnected) (hw : s.Winding) :
    WindsUp s (s.verifyTo none) where
  state := hst
  winding := ⟨hw.handler, hw.restart, hw.connect, hw.login, rfl⟩
  pending w hp := by
    left
    cases w <;> exact hp
  running w hrun := by
    left
    cases w with
    | verify => simp [running, verifyTo] at hrun
    | _ => exact hrun
  rings _ hrx := hrx

theorem WindsUp.idle (h : WindsUp s s') {w : Worker} (hi : s.Idle w)
    (hlogin : w = .login → s.Idle .connect) : s'.Idle w := by
  constructor
  · by_contra hp
    rcases h.pending w (Bool.not_eq_false _ ▸ hp) with hp | ⟨rfl, hrun | hrun⟩
    · rw [hi.1] at hp
      contradiction
    · rw [(hlogin rfl).2] at hrun
      contradiction
    · rw [hi.2] at hrun
      contradiction
  · by_contra hrun
    rcases h.running w (Bool.not_eq_false _ ▸ hrun) with hrun | hp
    · rw [hi.2] at hrun
      contradiction
    · rw [hi.1] at hp
      contradiction

end Node

end OdinLink.Proto
