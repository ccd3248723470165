import OdinLink.Lib.History

/-!
# Cancelling a test

The test worker takes a queued test, hands it to the worker of its device and waits for the result.
`odl_daemon_test_cancel` looks at the state of the test and then writes it, at any time: nobody has
a lock.
-/

namespace OdinLink.DaemonTest

open History

/-- `ODL_DTEST_QUEUED` and so on. -/
inductive State where
  | queued | running | completed | failed | cancelled
  deriving DecidableEq, Repr

def State.final : State → Bool
  | .queued | .running => false
  | .completed | .failed | .cancelled => true

/-- Where the two workers stand; one of them waits while the other runs. -/
inductive Pc where
  | queued | begun | handed
  | look (i : Nat) | start (i : Nat) | sub (i : Nat)
  | last (ok : Bool) | done (success : Bool) | fail | report (success : Bool) | reported
  deriving DecidableEq, Repr

inductive Event where
  | started (i : Nat) | cancelled | reported (success : Bool)
  deriving DecidableEq, Repr

/-- `cancels` calls have found the test queued or running, and will write CANCELLED. -/
structure Test where
  state : State
  pc : Pc
  cancels : Nat

inductive Act where
  | work (ok : Bool) | cancelLook | cancelStore

/-- The length of `all_tests`. -/
def ntests : Nat := 5

namespace Test

def init : Test := ⟨.queued, .queued, 0⟩

variable (t : Test) (all : Bool)

/-- One step of `test_worker` and `do_client_test`; `all` tells a test of type `all`. -/
def work (ok : Bool) : Option (Test × List Event) :=
  match t.pc with
  | .queued => some ({t with state := .running, pc := .begun}, [])
  -- whether the device has a worker
  | .begun => some ({t with pc := if ok then .handed else .done false}, [])
  -- whether the worker takes the test, greets the peer and captures the output
  | .handed =>
    some ({t with pc := if !ok then .done false else if all then .look 0 else .start 0}, [])
  | .look i => some ({t with pc := if t.state = .cancelled then .last true else .start i}, [])
  | .start i => some ({t with pc := .sub i}, [.started i])
  | .sub i =>
    some ({t with pc := if !ok then .last false
                        else if all && i + 1 < ntests then .look (i + 1) else .last true}, [])
  | .last ret => some ({t with pc := .done (ret && t.state ≠ .cancelled)}, [])
  | .done true => some ({t with state := .completed, pc := .report true}, [])
  | .done false => some ({t with pc := if t.state = .cancelled then .report false else .fail}, [])
  | .fail => some ({t with state := .failed, pc := .report false}, [])
  | .report success => some ({t with pc := .reported}, [.reported success])
  | .reported => none

def step : Act → Option (Test × List Event)
  | .work ok => t.work all ok
  | .cancelLook => some (if t.state.final then t else {t with cancels := t.cancels + 1}, [])
  | .cancelStore =>
    if t.cancels = 0 then none
    else some ({t with state := .cancelled, cancels := t.cancels - 1}, [.cancelled])

end Test

/-- The workers look at the state again before they start a sub-test or settle the result. -/
def Pc.heeds (all : Bool) : Pc → Bool
  | .begun | .handed | .look _ => all
  | .sub _ | .last _ => true
  | .done success => !success
  | _ => false

/-- A cancel is written where the workers still heed it, or changes nothing. -/
def Test.timely (t : Test) (all : Bool) : Act → Bool
  | .cancelStore => t.state = .cancelled || t.pc.heeds all
  | _ => true

abbrev ReachesTimely (all : Bool) : Test → List Event → Prop :=
  Reaches (Test.step · all) (fun t _ a => t.timely all a = true) .init

def Pc.Fits (all : Bool) : Pc → State → Prop
  | .queued, st => st = .queued
  | .start _, st | .fail, st => st = .running
  | .begun, st | .handed, st | .look _, st => st = .running ∨ all = true ∧ st = .cancelled
  | .sub _, st | .last _, st => st = .running ∨ st = .cancelled
  | .done success, st => st = .running ∨ success = false ∧ st = .cancelled
  | .report success, st => if success then st = .completed else st = .failed ∨ st = .cancelled
  | .reported, st => st.final = true

structure Inv (all : Bool) (t : Test) (h : List Event) : Prop where
  fits : t.pc.Fits all t.state
  cancelled : .cancelled ∈ h → t.state = .cancelled
  success : .reported true ∈ h → t.pc = .reported ∧ t.state = .completed

section Steps
variable {all : Bool} {t t' : Test} {h es : List Event} {a : Act}

theorem Pc.Fits.cancelled {pc : Pc} {st : State} (hfits : pc.Fits all st)
    (hheeds : st = .cancelled ∨ pc.heeds all = true) :
    pc.Fits all .cancelled ∧ (st.final = true → .cancelled = st) ∧ st ≠ .completed := by
  cases pc <;> cases st <;> simp_all [Pc.Fits, Pc.heeds, State.final]

theorem Inv.of_move (hi : Inv all t h) (hpc : t.pc ≠ .reported) (hfits : t'.pc.Fits all t'.state)
    (hkeep : t.state = .cancelled → t'.state = .cancelled) (hes : .cancelled ∉ es)
    (hsuccess : .reported true ∈ es → t'.pc = .reported ∧ t'.state = .completed) :
    Inv all t' (h ++ es) where
  fits := hfits
  cancelled hmem := hkeep (hi.cancelled ((List.mem_append.mp hmem).resolve_right hes))
  success hmem := (List.mem_append.mp hmem).elim (fun hm => absurd (hi.success hm).1 hpc) hsuccess

theorem Inv.work {ok : Bool} (hi : Inv all t h) (hs : t.work all ok = some (t', es)) :
    Inv all t' (h ++ es) ∧ (t.state.final = true → t'.state = t.state) := by
  have hfits := hi.fits
  unfold Test.work at hs
  split at hs <;> cases hs <;> rename_i hpc <;> rw [hpc] at hfits
  -- where the state is written it is neither final nor CANCELLED
  all_goals
    refine ⟨hi.of_move (by simp [hpc]) ?_ ?_ (by simp) ?_, ?_⟩ <;> grind [Pc.Fits, State.final]

theorem Inv.step (hi : Inv all t h) (ht : t.timely all a = true)
    (hs : t.step all a = some (t', es)) :
    Inv all t' (h ++ es) ∧ (t.state.final = true → t'.state = t.state) := by
  cases a with
  | work ok => exact hi.work hs
  | cancelLook =>
    cases hs
    rw [List.append_nil]
    split
    · exact ⟨hi, fun _ => rfl⟩
    · exact ⟨⟨hi.fits, hi.cancelled, hi.success⟩, fun _ => rfl⟩
  | cancelStore =>
    rw [Test.step] at hs
    split at hs
    · contradiction
    · cases hs
      obtain ⟨hfits, hfinal, hnot⟩ := hi.fits.cancelled (by simpa [Test.timely] using ht)
      refine ⟨⟨hfits, fun _ => rfl, fun hmem => ?_⟩, hfinal⟩
      have hbefore : .reported true ∈ h := by simpa using hmem
      exact absurd (hi.success hbefore).2 hnot

theorem Inv.of_reaches (hr : ReachesTimely all t h) : Inv all t h := by
  induction hr with
  | start => exact ⟨rfl, by simp, by simp⟩
  | next _ ht hs ih => exact (ih.step ht hs).1

theorem pc_of_started {i : Nat} {u v : List Event}
    (hs : t.step all a = some (t', u ++ .started i :: v)) : t.pc = .start i ∧ u = [] := by
  cases a with
  | work ok =>
    rw [Test.step, Test.work] at hs
    split at hs <;> simp_all [List.cons_eq_append_iff]
  | cancelLook => simp [Test.step] at hs
  | cancelStore =>
    rw [Test.step] at hs
    split at hs <;> simp [List.cons_eq_append_iff] at hs

/-- If a cancel is written only where the workers still heed it, a test that was cancelled ends as
cancelled and without success, starts no sub-test any more, and a final state stays. -/
theorem cancel_is_final (hr : ReachesTimely all t h) :
    (.cancelled ∈ h → t.state = .cancelled ∧ .reported true ∉ h) ∧
    (∀ i u v, h = u ++ .started i :: v → .cancelled ∉ u) ∧
    ∀ a t' es, t.timely all a = true → t.step all a = some (t', es) → t.state.final = true →
      t'.state = t.state := by
  have hi := Inv.of_reaches hr
  refine ⟨fun hmem => ⟨hi.cancelled hmem, fun hsuccess => ?_⟩, fun i => ?_, ?_⟩
  · have hst := hi.cancelled hmem
    rw [(hi.success hsuccess).2] at hst
    contradiction
  · refine hr.before (.started i) (.cancelled ∉ ·) ?_
    intro t h a t' es hr _ hs u v hes
    subst hes
    obtain ⟨hpc, rfl⟩ := pc_of_started hs
    have hi := Inv.of_reaches hr
    have hrunning : t.state = .running := by simpa [Pc.Fits, hpc] using hi.fits
    rw [List.append_nil]
    intro hmem
    rw [hi.cancelled hmem] at hrunning
    contradiction
  · exact fun a t' es ht hs => (hi.step ht hs).2

end Steps

def cancelledAmid : List Act :=
  List.replicate 5 (.work true) ++
    [.cancelLook, .cancelLook, .cancelStore, .work true, .cancelStore] ++
    List.replicate 4 (.work true)

theorem cancel_is_final_cancelledAmid : ∃ t h, ReachesTimely true t h ∧ t.pc = .reported ∧
    t.state = .cancelled := by
  have hr : ReachesTimely true _ _ := .of_acts cancelledAmid (by decide +kernel)
  exact ⟨_, _, hr, by decide +kernel, ((cancel_is_final hr).1 (by decide +kernel)).1⟩

def cancelledEarly : List Act := [.cancelLook, .cancelStore] ++ List.replicate 8 (.work true)

/-- The test is cancelled while it is queued, and the worker overwrites CANCELLED with RUNNING. -/
theorem cancelled_test_completes : ∃ t, Reaches (Test.step · false) (fun _ _ _ => True) .init t
    [.cancelled, .started 0, .reported true] ∧ t.state = .completed :=
  ⟨_, .of_free cancelledEarly (by decide +kernel), by decide +kernel⟩

section Order
variable {all : Bool} {t t' : Test} {h es : List Event} {a : Act} {n : Nat}

def Event.started? : Event → Option Nat
  | .started i => some i
  | _ => none

def subTests (all : Bool) : Nat := if all then ntests else 1

/-- What the place of the workers tells about the `n` sub-tests that were started. -/
def Pc.Ran (all : Bool) (n : Nat) (st : State) : Pc → Prop
  | .queued | .begun | .handed => n = 0
  | .look i | .start i => n = i ∧ i < subTests all
  | .sub i => n = i + 1 ∧ i < subTests all
  | .last ok => n ≤ subTests all ∧ (ok = true → n = subTests all ∨ st = .cancelled)
  | .done success | .report success => n ≤ subTests all ∧ (success = true → n = subTests all)
  | .fail | .reported => n ≤ subTests all

structure InOrder (all : Bool) (t : Test) (h : List Event) (n : Nat) : Prop where
  ran : t.pc.Ran all n t.state
  order : h.filterMap Event.started? = List.range n
  success : .reported true ∈ h → n = subTests all
  once : h.countP (· matches .reported _) = if t.pc = .reported then 1 else 0

theorem InOrder.step (hi : InOrder all t h n) (hs : t.step all a = some (t', es)) :
    ∃ n', InOrder all t' (h ++ es) n' := by
  obtain ⟨hran, horder, hsuccess, honce⟩ := hi
  cases a with
  | work ok =>
    rw [Test.step, Test.work] at hs
    split at hs <;> cases hs <;> rename_i hpc <;> rw [hpc] at hran honce
    -- the step that starts the next sub-test
    case h_5 i => exact ⟨n + 1, by constructor <;> grind [Pc.Ran, Event.started?, List.range_succ]⟩
    all_goals exact ⟨n, by constructor <;> grind [Pc.Ran, Event.started?, subTests, ntests]⟩
  | cancelLook =>
    cases hs
    exact ⟨n, by split <;> constructor <;> simp_all⟩
  | cancelStore =>
    rw [Test.step] at hs
    split at hs
    · contradiction
    · cases hs
      refine ⟨n, ?_, by simp_all [Event.started?], by simp_all, by simp_all⟩
      cases hpc : t.pc <;> simp_all [Pc.Ran]

/-- Whatever is cancelled and when: the sub-tests are started in the order of `all_tests`, each
once, there is one report at most, and success is reported only after all of them. -/
theorem success_after_all_subtests
    (hr : Reaches (Test.step · all) (fun _ _ _ => True) .init t h) :
    (∃ n ≤ subTests all, h.filterMap Event.started? = List.range n) ∧
    h.countP (· matches .reported _) ≤ 1 ∧
    (.reported true ∈ h → h.filterMap Event.started? = List.range (subTests all)) := by
  have hi : ∃ n, InOrder all t h n := by
    induction hr with
    | start => exact ⟨0, rfl, rfl, by simp, rfl⟩
    | next _ _ hs ih =>
      obtain ⟨n, hi⟩ := ih
      exact hi.step hs
  obtain ⟨n, hran, horder, hsuccess, honce⟩ := hi
  refine ⟨⟨n, ?_, horder⟩, ?_, fun h => hsuccess h ▸ horder⟩
  · cases hpc : t.pc <;> simp [hpc, Pc.Ran] at hran <;> omega
  · rw [honce]
    split <;> omega

theorem success_after_all_subtests_early : ∃ t h,
    Reaches (Test.step · true) (fun _ _ _ => True) .init t h ∧ Event.cancelled ∈ h ∧
      Event.reported true ∈ h ∧ h.filterMap Event.started? = [0, 1, 2, 3, 4] := by
  have hr : Reaches (Test.step · true) (fun _ _ _ => True) .init _ _ :=
    .of_free ([.cancelLook, .cancelStore] ++ List.replicate 21 (.work true)) (by decide +kernel)
  refine ⟨_, _, hr, by decide +kernel, by decide +kernel, ?_⟩
  exact (success_after_all_subtests hr).2.2 (by decide +kernel)

end Order

end OdinLink.DaemonTest
