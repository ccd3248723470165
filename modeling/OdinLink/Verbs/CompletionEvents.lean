import OdinLink.Verbs.CompletionQueue

/-!
# Completion events

An armed completion queue signals its event with the next completion and is disarmed by it. A poll
that empties the ring reads the event away, after it has given the lock back.
-/

namespace OdinLink

open Threads History

structure EventCq where
  cq : Cq
  armed : Bool
  eventfd : Nat

inductive EventStart where
  | reqNotify
  | post (wc : Wc)
  | poll (numEntries : Int)
  | readEvent

inductive PollPc where
  | drain
  | returned
  deriving DecidableEq, Repr

inductive CqEvent where
  | armed
  | posted (wc : Wc)
  | polled (wcs : List Wc)
  | read
  deriving DecidableEq, Repr

/-- What is done under the lock is one operation; the consumer that reads the event waits for it. -/
def eventProg : Prog EventCq PollPc EventStart Unit CqEvent where
  start m
    | .reqNotify => some ({m with armed := true}, none, [.armed])
    | .post wc =>
      match m.cq.post wc with
      | none => some (m, none, [])
      | some cq =>
        some (⟨cq, false, if m.armed then m.eventfd + 1 else m.eventfd⟩, none, [.posted wc])
    | .poll n =>
      let r := m.cq.poll n.toNat
      some ({m with cq := r.2}, if 0 < r.1.length ∧ r.2.head = r.2.tail then some .drain else none,
        [.polled r.1])
    | .readEvent => if 0 < m.eventfd then some ({m with eventfd := 0}, none, [.read]) else none
  op m
    | .drain, _ => some ({m with eventfd := 0}, .returned, [])
    | .returned, _ => none

/-- A poll that reads the eventfd finds no event there. -/
def SparesEvent (s : Sys EventCq PollPc) : Move EventStart Unit → Prop
  | .run _ _ => s.mem.eventfd = 0
  | _ => True

instance (s : Sys EventCq PollPc) (a : Move EventStart Unit) : Decidable (SparesEvent s a) := by
  cases a <;> unfold SparesEvent <;> infer_instance

def freshCq (cqe : Int) : Sys EventCq PollPc := ⟨⟨Cq.create cqe, false, 0⟩, []⟩

def EventCq.Signals (m : EventCq) (h : List CqEvent) : Prop :=
  ∀ u v, h = u ++ .armed :: v → .read ∉ v →
    0 < m.eventfd ∨ m.armed = true ∧ ∀ wc, .posted wc ∉ v

section Step
variable {m m' : EventCq} {h : List CqEvent}

theorem EventCq.Signals.append (hm : m.Signals h) {e : CqEvent}
    (hevent : 0 < m.eventfd → e ≠ .read → 0 < m'.eventfd)
    (harmed : e = .armed → m'.armed = true)
    (hnext : m.armed = true → e ≠ .read →
      0 < m'.eventfd ∨ m'.armed = true ∧ ∀ wc, e ≠ .posted wc) : m'.Signals (h ++ [e]) := by
  intro u v hsplit hread
  rcases append_singleton_split hsplit with ⟨-, he, rfl⟩ | ⟨w, hw, rfl⟩
  · exact .inr ⟨harmed he, fun wc => List.not_mem_nil⟩
  · have hne : e ≠ .read := fun he => hread (by simp [he])
    rcases hm u w hw fun hmem => hread (List.mem_append_left _ hmem) with hpos | ⟨harm, hnone⟩
    · exact .inl (hevent hpos hne)
    · refine (hnext harm hne).imp_right fun hstill => ⟨hstill.1, fun wc hmem => ?_⟩
      rcases List.mem_append.mp hmem with hmem | hmem
      · exact hnone wc hmem
      · exact hstill.2 wc (List.mem_singleton.mp hmem).symm

theorem EventCq.Signals.start {x : EventStart} {o : Option PollPc} {es : List CqEvent}
    (hm : m.Signals h) (hstart : eventProg.start m x = some (m', o, es)) : m'.Signals (h ++ es) := by
  cases x with
  | reqNotify =>
    cases hstart
    exact hm.append (fun hpos _ => hpos) (fun _ => rfl) fun _ _ => .inr ⟨rfl, by simp⟩
  | post wc =>
    simp only [eventProg] at hstart
    split at hstart <;> cases hstart
    · rwa [List.append_nil]
    · refine hm.append (fun hpos _ => ?_) (by simp) fun harm _ => .inl ?_
      · dsimp only
        split <;> omega
      · simp [harm]
  | poll n =>
    cases hstart
    exact hm.append (fun hpos _ => hpos) (by simp) fun harm _ => .inr ⟨harm, by simp⟩
  | readEvent =>
    simp only [eventProg] at hstart
    split at hstart <;> cases hstart
    exact hm.append (fun _ he => absurd rfl he) (by simp) fun _ he => absurd rfl he

end Step

theorem signals_of_reaches {cqe : Int} {s : Sys EventCq PollPc} {h : List CqEvent}
    (hr : Reaches eventProg.step (fun s _ a => SparesEvent s a) (freshCq cqe) s h) :
    s.mem.Signals h := by
  refine hr.invariant (fun s h => s.mem.Signals h) (by simp [EventCq.Signals]) ?_
  intro s h a s' es _ hs hok hstep
  cases a with
  | start x =>
    obtain ⟨m, o, hstart, rfl⟩ := step_start.mp hstep
    exact hs.start hstart
  | run i x =>
    obtain ⟨p, m, p', -, hop, rfl⟩ := step_run.mp hstep
    cases p with
    | returned => cases hop
    | drain =>
      cases hop
      -- the counter was 0 before, so nothing has changed
      have hsame : {s.mem with eventfd := 0} = s.mem := by rw [← show s.mem.eventfd = 0 from hok]
      rwa [List.append_nil, hsame]

/-- While no poll takes an event, the event of a completion that was posted after an arming is there,
whether the completion was polled or not, until the consumer reads it. -/
theorem event_of_posted_completion {cqe : Int} {s : Sys EventCq PollPc} {h u v : List CqEvent}
    {wc : Wc} (hr : Reaches eventProg.step (fun s _ a => SparesEvent s a) (freshCq cqe) s h)
    (hsplit : h = u ++ .armed :: v) (hposted : .posted wc ∈ v) (hread : .read ∉ v) :
    0 < s.mem.eventfd := by
  rcases signals_of_reaches hr u v hsplit hread with hpos | ⟨-, hnone⟩
  · exact hpos
  · exact absurd hposted (hnone wc)

def anyWc : Wc := ⟨0, .success, .send, 0, 0⟩

/-- The consumer polls the queue to empty, arms it and polls again. The poll after the next completion
has taken it and has not come to the event. -/
def armedPolls : List (Move EventStart Unit) :=
  [.start (.post anyWc), .start (.poll 16), .run 0 (), .start .reqNotify, .start (.poll 16),
    .start (.post anyWc), .start (.poll 16)]

theorem armedPolls_runs : (run eventProg.step (fun s _ a => decide (SparesEvent s a))
    (freshCq 1) [] armedPolls).isSome = true := by
  decide +kernel

theorem event_of_first_completion : ∃ s h,
    Reaches eventProg.step (fun s _ a => SparesEvent s a) (freshCq 1) s h ∧
      h = [.posted anyWc, .polled [anyWc], .armed, .polled [], .posted anyWc, .polled [anyWc]] ∧
      0 < s.mem.eventfd := by
  have hr := Reaches.of_final (fun s _ a => SparesEvent s a)
    (fun _ _ _ hc => of_decide_eq_true hc) armedPolls_runs
  have hlog : (final _ _ _ _ armedPolls_runs).2 = [.posted anyWc, .polled [anyWc]] ++
      .armed :: [.polled [], .posted anyWc, .polled [anyWc]] := by decide +kernel
  have hposted : CqEvent.posted anyWc ∈ [.polled [], .posted anyWc, .polled [anyWc]] := by simp
  exact ⟨_, _, hr, hlog, event_of_posted_completion hr hlog hposted (by simp)⟩

/-- A consumer arms the queue and polls it to empty. The poll has taken the event of the completion
it returned, and the next one finds the queue disarmed: it waits in the ring without an event. -/
theorem poll_swallows_event : ∃ s h, Reaches eventProg.step (fun _ _ _ => True) (freshCq 1) s h ∧
    h = [.armed, .posted anyWc, .polled [anyWc], .posted anyWc] ∧ s.mem.cq.contents = [anyWc] ∧
      s.mem.eventfd = 0 :=
  ⟨_, _, .of_free [.start .reqNotify, .start (.post anyWc), .start (.poll 16), .run 0 (),
    .start (.post anyWc)] (by decide +kernel), by decide +kernel⟩

end OdinLink
