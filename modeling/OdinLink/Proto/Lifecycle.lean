import OdinLink.Proto.Changes
import OdinLink.Lib.History

/-!
# From snapshot to verification

A connection passes through the same stations every time: the connect work takes its snapshot,
starts the rings, reaches CONNECTED and queues the verify work.
-/

namespace OdinLink.Proto

open History

namespace Node

section Pending
variable {cfg : Config} {s s' : Node} {es : List Event}

theorem setPending_pending {w : Worker} {b : Bool} (v : Worker)
    (hp : (s.setPending w b).pending v = true) : s.pending v = true ∨ w = v ∧ b = true := by
  cases w <;> cases v <;> simp_all [setPending, pending]

theorem schedule_pending {w : Worker} (v : Worker) (hp : (s.schedule w).pending v = true) :
    s.pending v = true ∨ w = v := by
  unfold schedule at hp
  split at hp
  · exact .inl hp
  · exact (setPending_pending v hp).imp_right And.left

theorem handlePacket_pending (cfg : Config) (p : Packet) (sent : Bool) (v : Worker) :
    (s.handlePacket cfg p sent).2.1.pending v = s.pending v := by
  unfold handlePacket handleLogin handleLogout acceptLogin
  cases v <;> grind [pending]

theorem ringsResize_pending (n : Nat) (env : ConnectEnv) (v : Worker) :
    (s.ringsResize n env).2.pending v = s.pending v := by
  unfold ringsResize ringsAlloc ringsFree
  cases v <;> grind [pending]

theorem step_pending {a : Act} {v : Worker} (hv : v = .verify ∨ v = .ctrlReply)
    (hs : s.step cfg a = some (s', es)) (hp : s'.pending v = true) :
    s.pending v = true ∨ v = .verify ∧ s.connectWork.running = some .scheduleVerify ∨
      v = .ctrlReply ∧ ∃ type, type ≠ dmaPong ∧ es = [.controlReceived type] := by
  -- queueing another item leaves `v` as it was
  have hsched (t : Node) (w : Worker) (hw : w ≠ v) (h : (t.schedule w).pending v = true) :
      t.pending v = true := (schedule_pending v h).resolve_right hw
  cases a with
  | packet p sent =>
    have he := handlePacket_pending (s := s) cfg p sent v
    rw [(step_packet.mp hs).2, hp] at he
    exact .inl he.symm
  | wake =>
    obtain ⟨w, -, rfl, rfl⟩ := step_wake.mp hs
    have hw : w.worker ≠ v := by rcases hv with rfl | rfl <;> cases w <;> simp [Wake.worker]
    have ht := hsched {s with handler := none} w.worker hw hp
    left
    rcases hv with rfl | rfl <;> exact ht
  | control pool type =>
    have he := (step_control.mp hs).2
    unfold rxControl at he
    rcases hv with rfl | rfl <;> grind [pending]
  | start w =>
    have he := (step_start.mp hs).1
    left
    rcases hv with rfl | rfl <;> cases w <;> grind [startWork, pending]
  | login reply =>
    obtain ⟨pc, -, he⟩ := step_login.mp hs
    left
    rcases hv with rfl | rfl <;> cases pc <;> cases reply <;> grind [loginStep, loginTo, pending]
  | connect env =>
    obtain ⟨pc, hpc, he⟩ := step_connect.mp hs
    have hresize (n : Nat) (e : ConnectEnv) := ringsResize_pending (s := s) n e v
    cases pc with
    | scheduleVerify =>
      rcases hv with rfl | rfl
      · exact .inr (.inl ⟨rfl, hpc⟩)
      · left
        grind [connectStep, connectTo, pending]
    | setup path gen pc =>
      left
      rcases hv with rfl | rfl <;> cases pc <;>
        grind [connectStep, setupStep, connectTo, ringsStart, pending]
    | begin =>
      left
      rcases hv with rfl | rfl <;> grind [connectStep, connectBegin, connectTo, pending]
    | _ =>
      left
      rcases hv with rfl | rfl <;> grind [connectStep, connectTo, ringsStop, pending]
  | restart =>
    obtain ⟨pc, -, he⟩ := step_restart.mp hs
    left
    cases pc with
    | cancel w =>
      cases he
      have hset : (s.setPending w false).pending v = true := by rcases hv with rfl | rfl <;> exact hp
      exact (setPending_pending v hset).resolve_right (by simp)
    | _ => rcases hv with rfl | rfl <;> grind [restartStep, restartTo, ringsStop, pending]
  | verify ok =>
    obtain ⟨pc, -, he⟩ := step_verify.mp hs
    left
    rcases hv with rfl | rfl <;> cases pc <;> grind [verifyStep, verifyTo, pending]
  | ctrlReply ok =>
    obtain ⟨pc, -, he⟩ := step_ctrlReply.mp hs
    left
    rcases hv with rfl | rfl <;> cases pc <;> grind [ctrlReplyStep, ctrlReplyTo, pending]

end Pending

/-! ## The connect work -/

inductive SetupMove (path : Int32) : SetupPc → List Event → SetupPc → Prop where
  | releaseOld {es : List Event} (hq : es.all Event.quiet = true) :
      SetupMove path .releaseOld es .allocHop
  | allocHop (granted : Int32) :
      SetupMove path .allocHop [.hopAllocated path granted] .startRings
  | startRings : SetupMove path .startRings [.ringsStarted] .primeRx
  | primeRx : SetupMove path .primeRx [] (.enablePaths 0)
  | retry (attempt : Nat) : SetupMove path (.enablePaths attempt) [] (.enablePaths (attempt + 1))
  | enablePaths (attempt : Nat) :
      SetupMove path (.enablePaths attempt) [.pathsEnabled path] .finish

section Connect
variable {cfg : Config} {s s' : Node} {es : List Event} {a : Act}

theorem setupStep_running {env : ConnectEnv} {path path' : Int32} {gen gen' : UInt32}
    {pc pc' : SetupPc} (he : s.setupStep env path gen pc = some (s', es))
    (hpc : s'.connectWork.running = some (.setup path' gen' pc')) :
    path' = path ∧ gen' = gen ∧ SetupMove path pc es pc' := by
  cases pc with
  | releaseOld =>
    simp only [setupStep] at he
    split at he
    · cases he
      cases hpc
      refine ⟨rfl, rfl, .releaseOld ?_⟩
      cases s.txStarted <;> rfl
    · cases he
      cases hpc
      exact ⟨rfl, rfl, .releaseOld rfl⟩
  | allocHop =>
    simp only [setupStep] at he
    split at he
    · cases he
      cases hpc
    · cases he
      cases hpc
      exact ⟨rfl, rfl, .allocHop env.hop⟩
  | startRings =>
    simp only [setupStep] at he
    split at he
    · cases he
      cases hpc
      exact ⟨rfl, rfl, .startRings⟩
    · contradiction
  | primeRx =>
    simp only [setupStep] at he
    split at he
    · cases he
      cases hpc
      exact ⟨rfl, rfl, .primeRx⟩
    · cases he
      cases hpc
  | enablePaths attempt =>
    simp only [setupStep] at he
    split at he
    · cases he
      cases hpc
      exact ⟨rfl, rfl, .enablePaths attempt⟩
    · split at he
      · cases he
        cases hpc
        exact ⟨rfl, rfl, .retry attempt⟩
      · cases he
        cases hpc
  | finish =>
    simp only [setupStep] at he
    split at he <;> cases he <;> cases hpc

theorem step_setup {path : Int32} {gen : UInt32} {pc : SetupPc}
    (hs : s.step cfg a = some (s', es))
    (hpc : s'.connectWork.running = some (.setup path gen pc)) :
    a.moves ≠ some .connect ∧ s.connectWork.running = some (.setup path gen pc) ∨
    (∃ pc₀, s.connectWork.running = some (.setup path gen pc₀) ∧ SetupMove path pc₀ es pc) ∨
    s.connectWork.running = some .begin ∧ pc = .releaseOld ∧ es = [.snapshot path gen] ∧
      path = s.remoteTxHopid ∧ gen = s.loginGeneration ∧ s.state = .handshake := by
  by_cases ha : a.moves = some .connect
  · cases a with
    | start w =>
      cases ha
      have he := (step_start.mp hs).1
      unfold startWork at he
      split at he
      · cases he
        cases hpc
      · contradiction
    | connect env =>
      obtain ⟨pc₀, hpc₀, he⟩ := step_connect.mp hs
      cases pc₀ with
      | setup path₀ gen₀ pc₀ =>
        obtain ⟨rfl, rfl, hmove⟩ := setupStep_running he hpc
        exact .inr (.inl ⟨pc₀, hpc₀, hmove⟩)
      | begin =>
        simp only [connectStep, Option.some.injEq] at he
        unfold connectBegin at he
        right
        right
        grind [connectTo]
      | _ =>
        cases he
        cases hpc
    | _ => cases ha
  · exact .inl ⟨ha, ((step_others hs).connect ha) ▸ hpc⟩

end Connect

/-! ## Stations -/

def live (s : Node) : Prop :=
  s.state = .connected ∨ s.state = .ready ∨ s.pending .verify = true ∨ s.running .verify = true ∨
    s.connectWork.running = some .allocPools ∨ s.connectWork.running = some .scheduleVerify

section Stations
variable {cfg : Config} {ok : Node → List Event → Act → Prop} {ring : Nat} {hop : Int32}
  {s s' : Node} {h es : List Event} {a : Act}

theorem step_connected (hs : s.step cfg a = some (s', es)) (hst : s'.state = .connected) :
    s.state = .connected ∨ .connected ∈ es := by
  have hc := step_change hs
  generalize s'.toDevice = d at hc hst
  cases hc <;> simp_all

theorem step_ready (hs : s.step cfg a = some (s', es)) (hst : s'.state = .ready) :
    s.state = .ready ∨ s.verifyWork.running = some .setReady := by
  have hc := step_change hs
  generalize s'.toDevice = d at hc hst
  cases hc <;> simp_all

theorem finish_of_connected (hs : s.step cfg a = some (s', es)) (he : .connected ∈ es) :
    ∃ path gen, s.connectWork.running = some (.setup path gen .finish) ∧
      s.staleLogin gen = false ∧
      s'.toDevice = {s.toDevice with connecting := false, state := .connected} := by
  have hc := step_change hs
  generalize s'.toDevice = d at hc
  cases hc with
  | connected path gen hpc hst => exact ⟨path, gen, hpc, hst, rfl⟩
  | quiet hq | hopReleased _ hq => exact absurd he (not_mem_of_quiet hq rfl)
  | _ => simp at he

theorem step_tail (hs : s.step cfg a = some (s', es))
    (hpc : s'.connectWork.running = some .allocPools ∨
      s'.connectWork.running = some .scheduleVerify) :
    s.connectWork.running = some .allocPools ∨ s.connectWork.running = some .scheduleVerify ∨
      .connected ∈ es := by
  by_cases ha : a.moves = some .connect
  · cases a with
    | start w =>
      cases ha
      have he := (step_start.mp hs).1
      grind [startWork]
    | connect env =>
      obtain ⟨pc₀, hpc₀, he⟩ := step_connect.mp hs
      cases pc₀ with
      | setup path gen pc => cases pc <;> grind [connectStep, setupStep, connectTo]
      | begin => grind [connectStep, connectBegin, connectTo]
      | _ => grind [connectStep, connectTo]
    | _ => cases ha
  · rw [(step_others hs).connect ha] at hpc
    exact hpc.imp_right .inl

theorem connected_of_live (hr : Reaches (step cfg) ok (protoInit ring hop) s h) (hl : s.live) :
    .connected ∈ h := by
  obtain ⟨e, he, rfl⟩ := hr.occurred live (· = Event.connected) (by
      simp [live, protoInit, pending, running, Work.idle]) (by
    intro s h a s' es _ _ hs hl
    suffices hstep : s.live ∨ .connected ∈ es from
      hstep.imp_right fun he => ⟨_, he, rfl⟩
    -- each sign goes back to an earlier one, down to the event
    rcases hl with hst | hst | hp | hrun | htail
    · exact (step_connected hs hst).imp_left .inl
    · rcases step_ready hs hst with hst | hpc
      · exact .inl (.inr (.inl hst))
      · left
        simp [live, running, hpc]
    · rcases step_pending (.inl rfl) hs hp with hp | ⟨-, hpc⟩ | ⟨hv, -⟩
      · exact .inl (.inr (.inr (.inl hp)))
      · left
        simp [live, hpc]
      · contradiction
    · rcases step_running hs hrun with hrun | ⟨-, hp⟩
      · exact .inl (.inr (.inr (.inr (.inl hrun))))
      · exact .inl (.inr (.inr (.inl hp)))
    · rcases step_tail hs htail with hpc | hpc | he
      · left
        simp [live, hpc]
      · left
        simp [live, hpc]
      · exact .inr he) hl
  exact he

def ringsUp (s : Node) : Prop :=
  ∃ path gen pc, s.connectWork.running = some (.setup path gen pc) ∧
    pc ≠ .releaseOld ∧ pc ≠ .allocHop ∧ pc ≠ .startRings

theorem started_of_ringsUp (hr : Reaches (step cfg) ok (protoInit ring hop) s h)
    (hu : s.ringsUp) : .ringsStarted ∈ h := by
  obtain ⟨e, he, rfl⟩ := hr.occurred ringsUp (· = Event.ringsStarted) (by
      simp [ringsUp, protoInit, Work.idle]) (by
    rintro s h a s' es _ _ hs ⟨path, gen, pc, hpc, hne⟩
    rcases step_setup hs hpc with ⟨-, hpc⟩ | ⟨pc₀, hpc₀, hmove⟩ | ⟨-, rfl, -⟩
    · exact .inl ⟨path, gen, pc, hpc, hne⟩
    · cases hmove with
      | startRings => exact .inr ⟨_, List.mem_singleton_self _, rfl⟩
      | releaseOld | allocHop => simp at hne
      | primeRx | retry | enablePaths =>
        left
        exact ⟨path, gen, _, hpc₀, by simp⟩
    · simp at hne) hu
  exact he

theorem started_of_connected (hr : Reaches (step cfg) ok (protoInit ring hop) s h)
    (hc : .connected ∈ h) : .ringsStarted ∈ h := by
  revert hc
  refine hr.invariant (fun _ h => Event.connected ∈ h → Event.ringsStarted ∈ h) (by simp) ?_
  intro s h a s' es hr ih _ hs hc
  apply List.mem_append_left
  rcases List.mem_append.mp hc with hc | hc
  · exact ih hc
  · obtain ⟨path, gen, hpc, -⟩ := finish_of_connected hs hc
    exact started_of_ringsUp hr ⟨path, gen, .finish, hpc, by simp⟩

end Stations

end Node

end OdinLink.Proto
