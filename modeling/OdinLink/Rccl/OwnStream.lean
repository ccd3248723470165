import OdinLink.Rccl.Ownership

/-!
# The streams the workers use

`closeSend` closes the stream before the worker has stopped, so that a worker waiting in a stream
call gets out of it. A worker that still has something to transfer then goes on with the id of the
closed stream, and after that with 0.
-/

namespace OdinLink

open Threads History

namespace RcclComm

/-- No request is left, and the worker is not about to make a call: it waits for a request, or in a
call that the close is to end. -/
def drained (c : RcclComm) : Bool :=
  c.queue.isEmpty && match c.worker with
    | .ready _ => false
    | _ => true

def closing (c : RcclComm) : Bool := decide (c.closer = .closed ∨ c.closer = .joining)

end RcclComm

def closesDrained : Strand → PluginInput → Bool
  | .comm c, .close => decide (c.closer ≠ .stopping) || c.drained
  | .comm c, .worker ret => !c.closing || !ret.ok
  | _, _ => true

def drainedRun (s : Sys PluginMem Strand) (a : Move PluginCall PluginInput) : Bool :=
  acceptsOnce s a && match a with
    | .run i x => s.pcs[i]?.all (closesDrained · x)
    | _ => true

def Strand.Quiet : Strand → Prop
  | .comm c => c.closing = true → c.drained = true
  | _ => True

section Steps
variable {m m' : PluginMem} {es : List PluginEvent} {p p' : Strand} {x : PluginInput}

theorem commWorkerOp_quiet {c c' : RcclComm} {ret : CallRet} (hc : (Strand.comm c).Quiet)
    (hok : closesDrained (.comm c) (.worker ret) = true)
    (hop : commWorkerOp c ret = some (c', es)) : (Strand.comm c').Quiet := by
  intro hclosing
  have hcloser := (commWorkerOp_keeps hop).2.2.2.1
  rw [RcclComm.closing, hcloser] at hclosing
  have hdrained := hc hclosing
  have hfailed : ret.ok = false := by
    simpa [closesDrained, show c.closing = true from hclosing] using hok
  rw [RcclComm.drained, Bool.and_eq_true, List.isEmpty_iff] at hdrained
  obtain ⟨hqueue, hworker⟩ := hdrained
  rw [commWorkerOp] at hop
  split at hop
  · rw [hqueue] at hop
    simp only at hop
    split at hop
    · cases hop
      simp [RcclComm.drained]
    · contradiction
  · rename_i hready
    rw [hready] at hworker
    contradiction
  · rename_i y _
    cases hop
    simp [RcclComm.drained, hqueue, y.next_of_failed hfailed]
  · contradiction

theorem commCloseOp_quiet {c : RcclComm} (hc : (Strand.comm c).Quiet)
    (hok : closesDrained (.comm c) .close = true) (hop : commCloseOp m c = some (m', p', es)) :
    p'.Quiet := by
  rw [commCloseOp] at hop
  split at hop
  · cases hop
    intro hclosing
    simp [RcclComm.closing] at hclosing
  · rename_i hcloser
    have hdrained : c.drained = true := by simpa [closesDrained, hcloser] using hok
    split at hop <;> cases hop <;> exact fun _ => hdrained
  · rename_i hcloser
    cases hop
    intro _
    exact hc (by simp [RcclComm.closing, hcloser])
  · split at hop
    · cases hop
      split <;> trivial
    · contradiction

theorem pluginOp_quiet (hp : p.Quiet) (hok : closesDrained p x = true)
    (hop : pluginOp m p x = some (m', p', es)) : p'.Quiet := by
  rw [pluginOp.eq_def] at hop
  split at hop
  · rw [openStream.eq_def] at hop
    split at hop
    · cases hop
      trivial
    · split at hop <;> cases hop <;> trivial
  · cases hop
    split
    · intro hclosing
      contradiction
    · trivial
  · cases hop
    trivial
  · cases hop
    trivial
  · split at hop
    · rename_i hcloser
      cases hop
      intro hclosing
      simp [RcclComm.closing, hcloser] at hclosing
    · contradiction
  · obtain ⟨⟨c', fs⟩, hworker, heq⟩ := Option.map_eq_some_iff.mp hop
    cases heq
    exact commWorkerOp_quiet hp hok hworker
  · exact commCloseOp_quiet hp hok hop
  · contradiction

end Steps

section Runs
variable {s : Sys PluginMem Strand} {h : List PluginEvent}
  (hr : Reaches pluginProg.step (fun s _ a => drainedRun s a = true) ⟨.init, []⟩ s h)
include hr

theorem drained_quiet : ∀ p ∈ s.pcs, p.Quiet := by
  refine known (fun _ p => p.Quiet) ?_ ?_ hr
  · intro s h x m o es _ _ hx
    refine ⟨fun p hp => ?_, fun _ _ hq => hq⟩
    cases p with
    | comm c => exact absurd hp ((pluginStart_effect hx).2.1 c)
    | _ => trivial
  · intro s h i x p m p' es _ hok hp hx hquiet
    refine ⟨pluginOp_quiet hquiet ?_ hx, fun _ _ _ _ hq => hq⟩
    have hall := (Bool.and_eq_true_iff.mp hok).2
    simpa only [hp, Option.all_some] using hall

theorem drained_ownership : (∀ j, account s.mem j = tally (share · j) s.pcs) ∧
    (∀ p ∈ s.pcs, p.Knows s.mem) ∧ PluginInv s.mem h :=
  ownership (hr.mono fun _ _ _ hok => (Bool.and_eq_true_iff.mp hok).1)

theorem ready_has_stream {c : RcclComm} {y : Xfer} (hc : .comm c ∈ s.pcs)
    (hready : c.worker = .ready y) :
    s.mem.gHandle = some c.handle ∧ c.stream ∈ s.mem.streams ∧ c.streamId = c.stream.id := by
  obtain ⟨hsum, hknows, -⟩ := drained_ownership hr
  obtain ⟨hhandle, -, hid⟩ := hknows _ hc
  have hopen : c.closing = false := by
    by_contra hclosing
    have hdrained := drained_quiet hr _ hc (by simpa using hclosing)
    rw [RcclComm.drained, hready, Bool.and_false] at hdrained
    contradiction
  cases hcloser : c.closer with
  | none | stopping =>
    rw [hcloser, if_neg (by simp)] at hid
    exact ⟨hhandle, mem_streams hsum hc (by simp [share, Strand.holds, hcloser]), hid⟩
  | closed | joining => simp [RcclComm.closing, hcloser] at hopen

/-- If a communicator is closed only when it is drained, every stream call of a worker names, on the
handle that is open, the id of its own stream, which was opened and has not been closed. -/
theorem worker_uses_own_stream {handle id : Nat} {st : RcclStream} {u v : List PluginEvent}
    (hsplit : h = u ++ .issued handle id st :: v) :
    ∃ held, Held.nothing.afterAll u = some held ∧ held.device = some handle ∧
      st ∈ held.streams ∧ st.id = id ∧ ∀ st' ∈ held.streams, st'.id = id → st' = st := by
  refine hr.before (.issued handle id st) (fun u => ∃ held, Held.nothing.afterAll u = some held ∧
    held.device = some handle ∧ st ∈ held.streams ∧ st.id = id ∧
      ∀ st' ∈ held.streams, st'.id = id → st' = st) ?_ u v hsplit
  intro s h a s' es hr _ hstep u v hes
  have hmem : .issued handle id st ∈ es := by rw [hes]; simp
  cases a with
  | start x =>
    obtain ⟨m, o, hx, -⟩ := step_start.mp hstep
    exact absurd hmem ((pluginStart_effect hx).2.2 _ _ _)
  | run i x =>
    obtain ⟨p, m, p', hp, hx, -⟩ := step_run.mp hstep
    obtain ⟨c, y, rfl, hready, rfl, rfl, rfl, hone⟩ := (pluginOp_effect hx).2 _ _ _ hmem
    obtain ⟨hhandle, hst, hid⟩ := ready_has_stream hr (List.mem_of_getElem? hp) hready
    have hi := (drained_ownership hr).2.2
    rw [eq_nil_of_only hone hes, List.append_nil]
    refine ⟨_, hi.held, hhandle, hst, hid.symm, fun st' hst' hid' => ?_⟩
    exact List.inj_on_of_nodup_map hi.ids hst' hst (hid'.trans hid)

end Runs

def closeDrained : List (Move PluginCall PluginInput) := List.flatten
  [[.start (.connect true .ready), .run 0 (.streamOpen true []), .run 0 (.threadCreate true),
      .run 0 (.post ⟨true, 1⟩)],
    List.replicate 5 (.run 0 (.worker ⟨true, 0, 0⟩)), [.run 0 .close, .run 0 .close,
      .start (.listen true .ready), .run 1 (.streamOpen true [])]]

theorem closeDrained_runs : (run pluginProg.step (fun s _ a => drainedRun s a) ⟨.init, []⟩ []
    closeDrained).isSome = true := by
  decide +kernel

theorem worker_uses_own_stream_closeDrained : ∃ s u v, Reaches pluginProg.step
    (fun s _ a => drainedRun s a = true) ⟨.init, []⟩ s (u ++ .issued 0 20 ⟨20, 0⟩ :: v) ∧
      .streamOpened 0 ⟨20, 1⟩ ∈ v ∧
      ∃ held, Held.nothing.afterAll u = some held ∧ held.device = some 0 ∧
        ⟨20, 0⟩ ∈ held.streams ∧ (⟨20, 0⟩ : RcclStream).id = 20 ∧
        ∀ st' ∈ held.streams, st'.id = 20 → st' = ⟨20, 0⟩ := by
  have hr : Reaches pluginProg.step (fun s _ a => drainedRun s a = true) ⟨.init, []⟩ _ _ :=
    .of_final _ (fun _ _ _ hc => hc) closeDrained_runs
  have hsplit : (final pluginProg.step (fun s _ a => drainedRun s a) ⟨.init, []⟩ closeDrained
      closeDrained_runs).2 = [.opened 0, .used 0, .streamOpened 0 ⟨20, 0⟩] ++
        .issued 0 20 ⟨20, 0⟩ :: [.issued 0 20 ⟨20, 0⟩, .streamClosed 0 20 ⟨20, 0⟩,
          .streamOpened 0 ⟨20, 1⟩] := by
    decide +kernel
  exact ⟨_, _, _, hsplit ▸ hr, by decide, worker_uses_own_stream hr hsplit⟩

def closeQueued : List (Move PluginCall PluginInput) :=
  [.start (.connect true .ready), .run 0 (.streamOpen true []), .run 0 (.threadCreate true),
    .run 0 (.post ⟨true, 1⟩), .run 0 .close, .run 0 .close, .start (.connect true .ready),
    .run 1 (.streamOpen true []), .run 0 (.worker ⟨true, 0, 0⟩), .run 0 (.worker ⟨true, 0, 0⟩)]

theorem closeQueued_runs : (run pluginProg.step (fun s _ a => acceptsOnce s a) ⟨.init, []⟩ []
    closeQueued).isSome = true := by
  decide +kernel

theorem worker_uses_reused_id : ∃ s u, Reaches pluginProg.step
    (fun s _ a => acceptsOnce s a = true) ⟨.init, []⟩ s (u ++ [.issued 0 20 ⟨20, 0⟩]) ∧
      .streamClosed 0 20 ⟨20, 0⟩ ∈ u ∧
      Held.nothing.afterAll u = some ⟨some 0, [⟨20, 1⟩]⟩ := by
  have hr : Reaches pluginProg.step (fun s _ a => acceptsOnce s a = true) ⟨.init, []⟩ _ _ :=
    .of_final _ (fun _ _ _ hc => hc) closeQueued_runs
  have hsplit : (final pluginProg.step (fun s _ a => acceptsOnce s a) ⟨.init, []⟩ closeQueued
      closeQueued_runs).2 = [.opened 0, .used 0, .streamOpened 0 ⟨20, 0⟩,
        .streamClosed 0 20 ⟨20, 0⟩, .streamOpened 0 ⟨20, 1⟩] ++ [.issued 0 20 ⟨20, 0⟩] := by
    decide +kernel
  exact ⟨_, _, hsplit ▸ hr, by decide, by decide⟩

end OdinLink
