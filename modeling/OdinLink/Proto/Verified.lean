import OdinLink.Proto.FailClosed

/-!
# Evidence for READY

The verify work declares a connection READY once a PONG has come in or a PING was answered. What
it looks at are two flags that outlive the connection, so they count as evidence only if nothing
of an earlier connection is left when the rings are started.
-/

namespace OdinLink.Proto

open History Node

def Event.isStart : Event → Bool
  | .ringsStarted => true
  | _ => false

theorem isStart_of_quiet (e : Event) (hq : e.quiet = true) : e.isStart = false := by
  cases e <;> first | rfl | contradiction

theorem Event.eq_of_isStart {e : Event} (he : e.isStart = true) : e = .ringsStarted := by
  cases e with
  | ringsStarted => rfl
  | _ => contradiction

def PingAnswered (v : List Event) : Prop :=
  ∃ u w, v = u ++ .pingAnswered :: w ∧ .controlReceived dmaPing ∈ u

def DmaVerified (v : List Event) : Prop :=
  .controlReceived dmaPong ∈ v ∨ PingAnswered v

theorem PingAnswered.append {v : List Event} (hv : PingAnswered v) (w : List Event) :
    PingAnswered (v ++ w) := by
  obtain ⟨u, u', rfl, hu⟩ := hv
  exact ⟨u, u' ++ w, by simp, hu⟩

theorem DmaVerified.append {v : List Event} (hv : DmaVerified v) (w : List Event) :
    DmaVerified (v ++ w) :=
  hv.imp (List.mem_append_left w) fun hp => hp.append w

namespace Node

def startsRings (s : Node) (a : Act) : Bool :=
  a.moves = some .connect &&
    match s.connectWork.running with
    | some (.setup _ _ .startRings) => true
    | _ => false

/-- When the rings are started, no PING counts as answered, and neither the verify work nor a
reply of an earlier connection is on its way. -/
def FreshStart (s : Node) (a : Act) : Prop :=
  s.startsRings a = true →
    s.peerPingAnswered = false ∧ s.verifyWork.running = none ∧ s.flushed .ctrlReply = true

instance (s : Node) (a : Act) : Decidable (s.FreshStart a) := inferInstanceAs (Decidable (_ → _))

section Steps
variable {cfg : Config} {s s' : Node} {a : Act} {es : List Event}

theorem fresh_of_started (hs : s.step cfg a = some (s', es)) (hf : s.FreshStart a)
    (hany : es.any Event.isStart = true) :
    s'.peerPingAnswered = false ∧ s'.verifyWork.running = none ∧
      s'.ctrlReplyWork.running = none ∧ s'.pending .ctrlReply = false := by
  have hc := step_change hs
  have ho := step_others hs
  have hpend := step_pending (.inr rfl) hs
  generalize s'.toDevice = d at hc
  cases hc with
  | ringsStarted ha path gen hpc =>
    obtain ⟨hping, hv, hfl⟩ := hf (by simp [startsRings, ha, hpc])
    simp only [flushed, running, Bool.and_eq_true, Bool.not_eq_true', Option.isSome_eq_false_iff,
      Option.isNone_iff_eq_none] at hfl
    refine ⟨?_, ?_, ?_, ?_⟩
    · exact hping
    · rw [ho.verify (by simp [ha]), hv]
    · rw [ho.ctrlReply (by simp [ha]), hfl.2]
    · by_contra hp
      simp [hfl.1] at hpend
      simp [hpend] at hp
  | quiet hq | hopReleased _ hq =>
    rw [any_of_quiet isStart_of_quiet hq] at hany
    contradiction
  | _ => simp [Event.isStart] at hany

theorem step_replying {pc : CtrlReplyPc} (hs : s.step cfg a = some (s', es))
    (hpc : s'.ctrlReplyWork.running = some pc) :
    s.ctrlReplyWork.running = some pc ∨
    pc = .read ∧ s.pending .ctrlReply = true ∨
    pc = .reply ∧ s.ctrlReplyWork.running = some .read ∧ s.verifyRxType = dmaPing ∨
    pc = .record ∧ s.ctrlReplyWork.running = some .reply ∧ es = [.pingAnswered] := by
  by_cases ha : a.moves = some .ctrlReply
  · cases a with
    | start w =>
      cases ha
      have he := (step_start.mp hs).1
      grind [startWork]
    | ctrlReply ok =>
      obtain ⟨pc₀, hpc₀, he⟩ := step_ctrlReply.mp hs
      cases pc₀ <;> grind [ctrlReplyStep, ctrlReplyTo]
    | _ => cases ha
  · rw [(step_others hs).ctrlReply ha] at hpc
    exact .inl hpc

theorem step_rxType (hs : s.step cfg a = some (s', es)) :
    es = [.controlReceived s'.verifyRxType] ∨
      s'.verifyRxType = s.verifyRxType ∧ ∀ type, type ≠ dmaPong → .controlReceived type ∉ es := by
  have hc := step_change hs
  generalize s'.toDevice = d at hc
  cases hc with
  | quiet hq | hopReleased _ hq => exact .inr ⟨rfl, fun type _ => not_mem_of_quiet hq rfl⟩
  | _ => simp_all

theorem step_answered (hs : s.step cfg a = some (s', es)) (hp : s'.peerPingAnswered = true) :
    s.peerPingAnswered = true ∨ s.ctrlReplyWork.running = some .record := by
  have hc := step_change hs
  generalize s'.toDevice = d at hc hp
  cases hc <;> simp_all

theorem step_pong (hs : s.step cfg a = some (s', es)) (hp : s'.pongReceived = true) :
    s.pongReceived = true ∨ .controlReceived dmaPong ∈ es ∨
      s.ctrlReplyWork.running = some .record := by
  have hc := step_change hs
  generalize s'.toDevice = d at hc hp
  cases hc <;> simp_all

end Steps

def pinged (s : Node) : Prop :=
  (s.pending .ctrlReply = true ∨ s.ctrlReplyWork.running = some .read) ∧
      s.verifyRxType = dmaPing ∨
    s.ctrlReplyWork.running = some .reply

def answered (s : Node) : Prop :=
  s.peerPingAnswered = true ∨ s.ctrlReplyWork.running = some .record

def verifying (s : Node) : Prop :=
  ∃ pc, s.verifyWork.running = some pc ∧
    ((pc = .flushReply ∨ pc = .resetRings ∨ pc = .setReady) ∨
      pc ≠ .begin ∧ s.pongReceived = true)

end Node

section Runs
variable {cfg : Config} {ring : Nat} {hop : Int32} {s s' : Node} {h es : List Event} {a : Act}

theorem ping_of_pinged (hr : Reaches (step cfg) (fun s _ a => s.FreshStart a)
    (protoInit ring hop) s h) (hp : s.pinged) :
    .controlReceived dmaPing ∈ since Event.isStart h := by
  refine hr.collected pinged (fun v => .controlReceived dmaPing ∈ v) Event.isStart
    (fun u w hu => List.mem_append_left w hu) ?_ ?_ hp
  · simp [pinged, protoInit, pending, Work.idle]
  intro s h a s' es _ hf hs hp
  cases hany : es.any Event.isStart with
  | true =>
    obtain ⟨-, -, hrun, hpend⟩ := fresh_of_started hs hf hany
    simp [pinged, hrun, hpend] at hp
  | false =>
    rw [since_append_of_none _ h hany]
    simp only [and_true]
    rcases hp with ⟨hw, ht⟩ | hrun
    -- the work reads the type of the latest frame, not of the one that queued it
    · rcases step_rxType hs with hty | ⟨hty, hno⟩
      · right
        rw [hty, ht]
        simp
      · rw [hty] at ht
        left
        left
        rcases hw with hpend | hrun
        · rcases step_pending (.inr rfl) hs hpend with hp | ⟨hv, -⟩ | ⟨-, type, hne, he⟩
          · exact ⟨.inl hp, ht⟩
          · contradiction
          · exact absurd (he ▸ List.mem_singleton_self _) (hno type hne)
        · rcases step_replying hs hrun with hrun | ⟨-, hp⟩ | ⟨hpc, -⟩ | ⟨hpc, -⟩
          · exact ⟨.inr hrun, ht⟩
          · exact ⟨.inl hp, ht⟩
          · contradiction
          · contradiction
    · left
      rcases step_replying hs hrun with hrun | ⟨hpc, -⟩ | ⟨-, hrun, ht⟩ | ⟨hpc, -⟩
      · exact .inr hrun
      · contradiction
      · exact .inl ⟨.inr hrun, ht⟩
      · contradiction

theorem pingAnswered_of_answered (hr : Reaches (step cfg) (fun s _ a => s.FreshStart a)
    (protoInit ring hop) s h) (hp : s.answered) : PingAnswered (since Event.isStart h) := by
  refine hr.collected answered PingAnswered Event.isStart (fun u w hu => hu.append w) ?_ ?_ hp
  · simp [answered, protoInit, Work.idle]
  intro s h a s' es hr hf hs hp
  cases hany : es.any Event.isStart with
  | true =>
    obtain ⟨hping, -, hrun, -⟩ := fresh_of_started hs hf hany
    simp [answered, hping, hrun] at hp
  | false =>
    rw [since_append_of_none _ h hany]
    simp only [and_true]
    rcases hp with hp | hrun
    · exact .inl (step_answered hs hp)
    · rcases step_replying hs hrun with hrun | ⟨hpc, -⟩ | ⟨hpc, -⟩ | ⟨-, hrun, rfl⟩
      · exact .inl (.inr hrun)
      · contradiction
      · contradiction
      · exact .inr ⟨_, [], rfl, ping_of_pinged hr (.inr hrun)⟩

theorem step_verifying (hs : s.step cfg a = some (s', es)) (hv : s'.verifying) :
    s.verifying ∨ s.answered ∨ .controlReceived dmaPong ∈ es := by
  obtain ⟨pc, hpc, hpass⟩ := hv
  by_cases ha : a.moves = some .verify
  · cases a with
    | start w =>
      cases ha
      have he := (step_start.mp hs).1
      grind [startWork]
    | verify ok =>
      obtain ⟨pc₀, hpc₀, he⟩ := step_verify.mp hs
      simp only [verifying, answered, hpc₀, Option.some.injEq, exists_eq_left']
      cases pc₀ <;> grind [verifyStep, verifyTo, verifyNext]
    | _ => cases ha
  · rw [(step_others hs).verify ha] at hpc
    rcases hpass with hpass | ⟨hne, hpong⟩
    · exact .inl ⟨pc, hpc, .inl hpass⟩
    · rcases step_pong hs hpong with hpong | hmem | hrun
      · exact .inl ⟨pc, hpc, .inr ⟨hne, hpong⟩⟩
      · exact .inr (.inr hmem)
      · exact .inr (.inl (.inr hrun))

theorem dmaVerified_of_verifying (hr : Reaches (step cfg) (fun s _ a => s.FreshStart a)
    (protoInit ring hop) s h) (hv : s.verifying) : DmaVerified (since Event.isStart h) := by
  refine hr.collected verifying DmaVerified Event.isStart (fun u w hu => hu.append w) ?_ ?_ hv
  · simp [verifying, protoInit, Work.idle]
  intro s h a s' es hr hf hs hv
  cases hany : es.any Event.isStart with
  | true =>
    obtain ⟨-, hrun, -⟩ := fresh_of_started hs hf hany
    simp [verifying, hrun] at hv
  | false =>
    rw [since_append_of_none _ h hany]
    simp only [and_true]
    refine (step_verifying hs hv).imp_right ?_
    rintro (hp | hmem)
    · exact .inr ((pingAnswered_of_answered hr hp).append es)
    · exact .inl (List.mem_append_right _ hmem)

theorem ready_verified (hr : Reaches (step cfg) (fun s _ a => s.FreshStart a)
    (protoInit ring hop) s h) (hs : s.step cfg a = some (s', es)) (hne : s.state ≠ .ready)
    (hst : s'.state = .ready) :
    ∃ u v, h = u ++ .ringsStarted :: v ∧ .ringsStarted ∉ v ∧ DmaVerified v := by
  -- only the verify work announces READY, and a connection has queued it
  have hpc := (step_ready hs hst).resolve_left hne
  have hlive : s.live := by simp [live, running, hpc]
  have hmem := started_of_connected hr (connected_of_live hr hlive)
  have hany : h.any Event.isStart = true := List.any_eq_true.mpr ⟨_, hmem, rfl⟩
  obtain ⟨u, e, he, hsplit, hlast⟩ := exists_split Event.isStart hany
  cases Event.eq_of_isStart he
  refine ⟨u, _, hsplit, fun hmem => ?_, dmaVerified_of_verifying hr ⟨_, hpc, by simp⟩⟩
  exact List.any_eq_false.mp hlast _ hmem rfl

end Runs

def demoConnected : List Act := demoLogin 9 64 ++ List.replicate 3 (.connect (demoEnv 9))

def demoPong : List Act :=
  [Act.start .verify] ++ List.replicate 5 (Act.verify true) ++ [Act.control true dmaPong] ++
    List.replicate 4 (Act.verify true)

theorem demoPong_run : (run (step (demoCfg 3)) (fun s _ a => decide (s.FreshStart a))
    (protoInit 64 8) [] (demoConnected ++ demoPong)).isSome = true := by decide +kernel

theorem demoPong_step : ((final _ _ _ _ demoPong_run).1.step (demoCfg 3)
    (.verify true)).isSome = true := by decide +kernel

theorem ready_verified_demo :
    ∃ s h a s' es, Reaches (step (demoCfg 3)) (fun s _ a => s.FreshStart a) (protoInit 64 8) s h ∧
      s.step (demoCfg 3) a = some (s', es) ∧ s.state ≠ .ready ∧ s'.state = .ready ∧
      ∃ u v, h = u ++ .ringsStarted :: v ∧ .ringsStarted ∉ v ∧ DmaVerified v := by
  have hr := Reaches.of_final (fun (s : Node) _ a => s.FreshStart a)
    (fun _ _ _ h => of_decide_eq_true h) demoPong_run
  have hs := (Option.some_get demoPong_step).symm
  have hne : (final _ _ _ _ demoPong_run).1.state ≠ .ready := by decide +kernel
  have hst : (Option.get _ demoPong_step).1.state = .ready := by decide +kernel
  exact ⟨_, _, _, _, _, hr, hs, hne, hst, ready_verified hr hs hne hst⟩

/-- A first connection answers a PING and is READY; the peer logs out and in again, and the second
connection hears nothing. -/
def demoSilent : List Act :=
  demoConnected ++ [Act.control true dmaPing, .start .ctrlReply] ++
    List.replicate 3 (Act.ctrlReply true) ++ [Act.start .verify] ++
    List.replicate 7 (Act.verify true) ++
    [Act.packet (demoPacket msgLogout 0 0 0) true, .wake, .start .restart] ++
    List.replicate 14 Act.restart ++ demoConnected ++ [Act.start .verify] ++
    List.replicate 6 (Act.verify true)

theorem demoSilent_run : (run (step (demoCfg 3)) (fun _ _ _ => true) (protoInit 64 8) []
    demoSilent).isSome = true := by decide +kernel

theorem demoSilent_step : ((final _ _ _ _ demoSilent_run).1.step (demoCfg 3)
    (.verify true)).isSome = true := by decide +kernel

theorem ready_on_old_ping :
    ∃ s h a s' es, Reaches (step (demoCfg 3)) (fun _ _ _ => True) (protoInit 64 8) s h ∧
      s.step (demoCfg 3) a = some (s', es) ∧ s.state ≠ .ready ∧ s'.state = .ready ∧
      ∃ u v, h = u ++ .ringsStarted :: v ∧ .ringsStarted ∉ v ∧ ¬ DmaVerified v := by
  have hr := Reaches.of_final (fun _ _ _ => True) (fun _ _ _ _ => trivial) demoSilent_run
  have hs := (Option.some_get demoSilent_step).symm
  have hsplit : (final _ _ _ _ demoSilent_run).2 =
      (final _ _ _ _ demoSilent_run).2.take 21 ++ .ringsStarted :: [.pathsEnabled 9, .connected] := by
    decide +kernel
  refine ⟨_, _, _, _, _, hr, hs, by decide +kernel, by decide +kernel, _, _, hsplit, by simp, ?_⟩
  rintro (hpong | ⟨u, w, hping, -⟩)
  · simp at hpong
  · have hmem : Event.pingAnswered ∈ [Event.pathsEnabled 9, Event.connected] := by simp [hping]
    simp at hmem

end OdinLink.Proto
