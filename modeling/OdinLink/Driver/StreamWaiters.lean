import OdinLink.Lib.Threads
import OdinLink.Lib.WaitQueues

/-!
# Waiting on a stream that is closed

A close marks the stream dying, takes it out of the hash and wakes both queues. The readers test the
mark, so none of them stays; `wait_tx` does not, and sleeps on while a message is in flight.
-/

namespace OdinLink.Waiters

open Threads History WaitQueues

inductive WaitQueue where
  | rx
  | tx
  deriving DecidableEq, Repr

inductive Wait where
  | recv
  | waitRx (timed : Bool)
  | waitTx (timed : Bool)
  deriving DecidableEq, Repr

namespace Wait

def queue : Wait → WaitQueue
  | recv | waitRx _ => .rx
  | waitTx _ => .tx

def timed : Wait → Bool
  | recv => false
  | waitRx timed | waitTx timed => timed

end Wait

/-- One stream; `locked` is the stream lock held over all of `odl_tb5_streams_destroy_all`. `tasks`
counts the threads, and `rxWoken` and `txWoken` record the wake-ups of a close. -/
structure Mem where
  dying : Bool
  hashed : Bool
  locked : Bool
  rxComplete : Int
  txInFlight : Int
  queues : Queues WaitQueue
  tasks : Nat
  rxWoken : Bool
  txWoken : Bool

def Mem.init : Mem := ⟨false, true, false, 0, 0, .empty, 0, false, false⟩

def Wait.holds (m : Mem) (k : Wait) : Bool :=
  match k.queue with
  | .rx => decide (0 < m.rxComplete) || m.dying
  | .tx => m.txInFlight == 0

inductive Stage where
  | setDying
  | unhash
  | unlink
  | wakeRx
  | wakeTx
  | freeId
  | put
  deriving DecidableEq, Repr

/-- Where a thread stands. `parked` tells the tests of `wait_event_interruptible` after the thread
`t` has joined the queue from the first one. -/
inductive Pc where
  | test (k : Wait) (t : Nat) (parked : Bool)
  | testDying (k : Wait) (t : Nat) (parked : Bool)
  | prepare (k : Wait) (t : Nat)
  | sleep (k : Wait) (t : Nat)
  | leave (k : Wait) (t : Nat)
  | closed
  | drained
  | dequeue
  | dec
  | sendInc
  | txWake
  | rxInc
  | rxWake
  | destroy (all : Bool) (stage : Stage)
  | returned
  deriving DecidableEq, Repr

namespace Pc

def afterTest (k : Wait) (t : Nat) (parked : Bool) : Pc := if parked then sleep k t else prepare k t

def waitsFor : Pc → Option Wait
  | test k _ _ | testDying k _ _ | prepare k _ | sleep k _ => some k
  | _ => none

def task : Pc → Option Nat
  | test _ t _ | testDying _ t _ | prepare _ t | sleep _ t | leave _ t => some t
  | _ => none

def onQueue : Pc → Option (Wait × Nat)
  | test k t true | testDying k t true | sleep k t => some (k, t)
  | _ => none

def sleepsRx : Pc → Option Nat
  | sleep k t => if k.queue = .rx then some t else none
  | _ => none

def pastDying : Pc → Bool
  | destroy _ stage => stage != .setDying
  | _ => false

def pastRxWake : Pc → Bool
  | destroy _ stage => stage == .wakeTx || stage == .freeId || stage == .put
  | _ => false

end Pc

inductive Answer where
  | go
  | stop
  | expire
  deriving DecidableEq, Repr

def op (m : Mem) : Pc → Answer → Option (Mem × Pc × List Unit)
  -- wait_event_interruptible
  | .test k t parked, _ =>
    match k.queue with
    | .rx => some (m, if 0 < m.rxComplete then .leave k t else .testDying k t parked, [])
    | .tx => some (m, if m.txInFlight = 0 then .leave k t else .afterTest k t parked, [])
  | .testDying k t parked, _ =>
    some (m, if m.dying then .leave k t else .afterTest k t parked, [])
  | .prepare k t, .stop => some ({m with queues := m.queues.leave k.queue t}, .returned, [])
  | .prepare k t, _ => some ({m with queues := m.queues.park k.queue t}, .test k t true, [])
  | .sleep k t, .go => if m.queues.asleep t then none else some (m, .prepare k t, [])
  | .sleep k t, .stop => some ({m with queues := m.queues.leave k.queue t}, .returned, [])
  | .sleep k t, .expire =>
    if k.timed then some ({m with queues := m.queues.leave k.queue t}, .returned, []) else none
  | .leave k t, _ =>
    some ({m with queues := m.queues.leave k.queue t}, if k = .recv then .closed else .returned, [])
  -- the rest of odl_tb5_stream_recv
  | .closed, _ => some (m, if m.dying then .drained else .dequeue, [])
  | .drained, _ => some (m, if m.rxComplete ≤ 0 then .returned else .dequeue, [])
  | .dequeue, .go => some (m, .dec, [])
  | .dequeue, _ => some (m, .returned, [])
  | .dec, _ => some ({m with rxComplete := m.rxComplete - 1}, .returned, [])
  -- a send, the end of a message, and a message received
  | .sendInc, _ => some ({m with txInFlight := m.txInFlight + 1}, .returned, [])
  | .txWake, _ => some ({m with queues := m.queues.wakeUp .tx}, .returned, [])
  | .rxInc, _ => some ({m with rxComplete := m.rxComplete + 1}, .rxWake, [])
  | .rxWake, _ => some ({m with queues := m.queues.wakeUp .rx}, .returned, [])
  -- odl_tb5_stream_destroy, and the body of the loop of odl_tb5_streams_destroy_all
  | .destroy all .setDying, _ => some ({m with dying := true}, .destroy all .unhash, [])
  | .destroy all .unhash, _ =>
    if !all && m.locked then none else some ({m with hashed := false}, .destroy all .unlink, [])
  | .destroy all .unlink, _ => some (m, .destroy all .wakeRx, [])
  | .destroy all .wakeRx, _ =>
    some ({m with queues := m.queues.wakeUp .rx, rxWoken := true}, .destroy all .wakeTx, [])
  | .destroy all .wakeTx, _ =>
    some ({m with queues := m.queues.wakeUp .tx, txWoken := true}, .destroy all .freeId, [])
  | .destroy all .freeId, _ => some (m, .destroy all .put, [])
  | .destroy all .put, _ => some ({m with locked := m.locked && !all}, .returned, [])
  | .returned, _ => none

inductive Start where
  | wait (k : Wait)
  | send
  | sent
  | receive
  | close
  | closeAll
  deriving DecidableEq, Repr

def start (m : Mem) (x : Start) : Option (Mem × Option Pc × List Unit) :=
  let m' := {m with tasks := m.tasks + 1}
  match x with
  | .wait k => if m.hashed then some (m', some (.test k m.tasks false), []) else none
  | .send => if m.hashed then some (m', some .sendInc, []) else none
  | .sent =>
    if 0 < m.txInFlight then some ({m' with txInFlight := m.txInFlight - 1}, some .txWake, [])
    else none
  | .receive => if m.hashed then some (m', some .rxInc, []) else none
  | .close => some (m', some (.destroy false .setDying), [])
  | .closeAll =>
    if m.locked then none
    else if m.hashed then some ({m' with locked := true}, some (.destroy true .setDying), [])
    else some (m', some .returned, [])

def prog : Prog Mem Pc Start Answer Unit := ⟨start, op⟩

abbrev State := Sys Mem Pc

def initial : State := ⟨.init, []⟩

variable {k : Wait} {t : Nat} {s : State} {m m' : Mem} {p p' : Pc} {es : List Unit}

structure Effect (m : Mem) (p : Pc) (m' : Mem) (p' : Pc) : Prop where
  tasks : m'.tasks = m.tasks
  task : p'.task = none ∨ p'.task = p.task
  dying : m.dying = true → m'.dying = true
  pastDying : p'.pastDying = false ∨ p.pastDying = true ∨ m'.dying = true
  rxWoken : m.rxWoken = true → m'.rxWoken = true
  pastRxWake : p'.pastRxWake = false ∨ p.pastRxWake = true ∨ m'.rxWoken = true
  wakesRx : m'.rxWoken = true →
    m.rxWoken = true ∨ p.pastDying = true ∧ m'.queues = m.queues.wakeUp .rx
  wakesTx : m'.txWoken = true → m.txWoken = true ∨ p.pastRxWake = true
  found : ∀ v u, p.task ≠ some u → m.queues.Found v u → m'.queues.Found v u
  asleep : ∀ u, p.task ≠ some u → m'.queues.asleep u = true → m.queues.asleep u = true
  onQueue : p'.onQueue = none ∨ p'.onQueue = p.onQueue ∧ m'.queues = m.queues ∨
    ∃ k t, p'.onQueue = some (k, t) ∧ m'.queues = m.queues.park k.queue t
  sleepsRx : p'.sleepsRx = none ∨ m.dying = false

section Effects
variable {m : Mem} {p p' : Pc}

theorem Effect.of_same {m' : Mem} (htask : p'.task = none ∨ p'.task = p.task := by exact .inl rfl)
    (hqueue : p'.onQueue = none ∨ p'.onQueue = p.onQueue := by exact .inl rfl)
    (hdying : p'.pastDying = false ∨ p.pastDying = true := by exact .inl rfl)
    (hwake : p'.pastRxWake = false ∨ p.pastRxWake = true := by exact .inl rfl)
    (hsleep : p'.sleepsRx = none ∨ m.dying = false := by exact .inl rfl)
    (hm : m'.queues = m.queues ∧ m'.tasks = m.tasks ∧ m'.dying = m.dying ∧ m'.rxWoken = m.rxWoken ∧
      m'.txWoken = m.txWoken := by exact ⟨rfl, rfl, rfl, rfl, rfl⟩) : Effect m p m' p' := by
  obtain ⟨hqueues, htasks, hd, hrx, htx⟩ := hm
  refine ⟨htasks, htask, fun h => hd.trans h, hdying.imp_right .inl, fun h => hrx.trans h,
    hwake.imp_right .inl, fun h => .inl (hrx.symm.trans h), fun h => .inl (htx.symm.trans h),
    ?_, ?_, hqueue.imp_right fun h => .inl ⟨h, hqueues⟩, hsleep⟩
  · intro v u _ hf
    rw [hqueues]
    exact hf
  · intro u _ hu
    rw [← hqueues]
    exact hu

theorem Effect.leave (k : Wait) (hp : p.task = some t) (htask : p'.task = none)
    (hdying : p'.pastDying = false) (hwake : p'.pastRxWake = false) (hqueue : p'.onQueue = none)
    (hsleep : p'.sleepsRx = none) :
    Effect m p {m with queues := m.queues.leave k.queue t} p' := by
  have hne {u : Nat} (hu : p.task ≠ some u) : u ≠ t := by
    rintro rfl
    exact hu hp
  exact ⟨rfl, .inl htask, id, .inl hdying, id, .inl hwake, .inl, .inl,
    fun v u hu hf => hf.leave_of_ne (hne hu),
    fun u hu h => (Queues.asleep_leave_of_ne (hne hu)).symm.trans h, .inl hqueue, .inl hsleep⟩

theorem Effect.wakeUp (w : WaitQueue) : Effect m p {m with queues := m.queues.wakeUp w} .returned :=
  ⟨rfl, .inl rfl, id, .inl rfl, id, .inl rfl, .inl, .inl, fun _ _ _ hf => hf.wakeUp w,
    fun _ _ h => (Queues.asleep_of_wakeUp h).1, .inl rfl, .inl rfl⟩

theorem Effect.test {parked : Bool} (hp : p = .test k t parked ∨ p = .testDying k t parked)
    (hp' : p' = .leave k t ∨ p' = .testDying k t parked ∨
      p' = .afterTest k t parked ∧ (k.queue = .tx ∨ m.dying = false)) : Effect m p m p' := by
  have htask : some t = p.task := by
    rcases hp with rfl | rfl <;> rfl
  have hqueue : parked = true → some (k, t) = p.onQueue := by
    rintro rfl
    rcases hp with rfl | rfl <;> rfl
  rcases hp' with rfl | rfl | ⟨rfl, hsleep⟩
  · exact .of_same (.inr htask)
  · refine .of_same (.inr htask) ?_
    cases parked with
    | false => exact .inl rfl
    | true => exact .inr (hqueue rfl)
  · cases parked with
    | false =>
      exact .of_same (.inr htask)
    | true =>
      refine .of_same (.inr htask) (.inr (hqueue rfl)) (.inl rfl) (.inl rfl)
        (hsleep.imp_left fun htx => ?_)
      simp [Pc.afterTest, Pc.sleepsRx, htx]

theorem Effect.park (k : Wait) (t : Nat) :
    Effect m (.prepare k t) {m with queues := m.queues.park k.queue t} (.test k t true) := by
  have hne {u : Nat} (hu : (Pc.prepare k t).task ≠ some u) : u ≠ t := by
    rintro rfl
    exact hu rfl
  exact ⟨rfl, .inr rfl, id, .inl rfl, id, .inl rfl, .inl, .inl,
    fun v u hu hf => hf.park_of_ne (hne hu),
    fun u hu h => (Queues.asleep_park_of_ne (hne hu)).symm.trans h, .inr (.inr ⟨k, t, rfl, rfl⟩),
    .inl rfl⟩

end Effects

theorem destroy_effect {p' : Pc} {all : Bool} {stage : Stage} {x : Answer}
    (h : op m (.destroy all stage) x = some (m', p', es)) :
    Effect m (.destroy all stage) m' p' := by
  cases stage with
  | setDying =>
    obtain ⟨rfl, rfl, -⟩ := h
    exact ⟨rfl, .inl rfl, fun _ => rfl, .inr (.inr rfl), id, .inl rfl, .inl, .inl,
      fun _ _ _ hf => hf, fun _ _ hu => hu, .inl rfl, .inl rfl⟩
  | unhash =>
    simp only [op] at h
    split at h
    · contradiction
    · obtain ⟨rfl, rfl, -⟩ := h
      exact .of_same (.inl rfl) (.inl rfl) (.inr rfl)
  | unlink =>
    obtain ⟨rfl, rfl, -⟩ := h
    exact .of_same (.inl rfl) (.inl rfl) (.inr rfl)
  | wakeRx =>
    obtain ⟨rfl, rfl, -⟩ := h
    exact ⟨rfl, .inl rfl, id, .inr (.inl rfl), fun _ => rfl, .inr (.inr rfl),
      fun _ => .inr ⟨rfl, rfl⟩, .inl, fun _ _ _ hf => hf.wakeUp _,
      fun _ _ hu => (Queues.asleep_of_wakeUp hu).1, .inl rfl, .inl rfl⟩
  | wakeTx =>
    obtain ⟨rfl, rfl, -⟩ := h
    exact ⟨rfl, .inl rfl, id, .inr (.inl rfl), id, .inr (.inl rfl), .inl, fun _ => .inr rfl,
      fun _ _ _ hf => hf.wakeUp _, fun _ _ hu => (Queues.asleep_of_wakeUp hu).1, .inl rfl, .inl rfl⟩
  | freeId =>
    obtain ⟨rfl, rfl, -⟩ := h
    exact .of_same (.inl rfl) (.inl rfl) (.inr rfl) (.inr rfl)
  | put =>
    obtain ⟨rfl, rfl, -⟩ := h
    exact .of_same

theorem Effect.counter
    (hp' : p' = .returned ∨ p' = .dequeue ∨ p' = .drained ∨ p' = .dec ∨ p' = .rxWake)
    (hm : m'.queues = m.queues ∧ m'.tasks = m.tasks ∧ m'.dying = m.dying ∧ m'.rxWoken = m.rxWoken ∧
      m'.txWoken = m.txWoken := by exact ⟨rfl, rfl, rfl, rfl, rfl⟩) : Effect m p m' p' := by
  rcases hp' with rfl | rfl | rfl | rfl | rfl
  all_goals exact .of_same (.inl rfl) (.inl rfl) (.inl rfl) (.inl rfl) (.inl rfl) hm

theorem op_effect {x : Answer} (h : op m p x = some (m', p', es)) : Effect m p m' p' := by
  cases p with
  | test k t parked =>
    simp only [op] at h
    split at h
    · obtain ⟨rfl, rfl, -⟩ := h
      refine .test (.inl rfl) ?_
      split
      · exact .inl rfl
      · exact .inr (.inl rfl)
    · next htx =>
      obtain ⟨rfl, rfl, -⟩ := h
      refine .test (.inl rfl) ?_
      split
      · exact .inl rfl
      · exact .inr (.inr ⟨rfl, .inl htx⟩)
  | testDying k t parked =>
    obtain ⟨rfl, rfl, -⟩ := h
    refine .test (.inr rfl) ?_
    split
    · exact .inl rfl
    · next hd => exact .inr (.inr ⟨rfl, .inr (Bool.eq_false_iff.mpr hd)⟩)
  | prepare k t =>
    cases x with
    | stop =>
      obtain ⟨rfl, rfl, -⟩ := h
      exact .leave k rfl rfl rfl rfl rfl rfl
    | go | expire =>
      obtain ⟨rfl, rfl, -⟩ := h
      exact .park k t
  | sleep k t =>
    cases x with
    | go =>
      simp only [op] at h
      split at h
      · contradiction
      · obtain ⟨rfl, rfl, -⟩ := h
        exact .of_same (.inr rfl)
    | stop =>
      obtain ⟨rfl, rfl, -⟩ := h
      exact .leave k rfl rfl rfl rfl rfl rfl
    | expire =>
      simp only [op] at h
      split at h
      · obtain ⟨rfl, rfl, -⟩ := h
        exact .leave k rfl rfl rfl rfl rfl rfl
      · contradiction
  | leave k t =>
    obtain ⟨rfl, rfl, -⟩ := h
    split <;> exact .leave k rfl rfl rfl rfl rfl rfl
  | destroy all stage => exact destroy_effect h
  | txWake =>
    obtain ⟨rfl, rfl, -⟩ := h
    exact .wakeUp .tx
  | rxWake =>
    obtain ⟨rfl, rfl, -⟩ := h
    exact .wakeUp .rx
  | closed | drained =>
    obtain ⟨rfl, rfl, -⟩ := h
    refine .counter ?_
    split <;> simp
  | dequeue =>
    cases x <;> obtain ⟨rfl, rfl, -⟩ := h <;> exact .counter (by simp)
  | dec | sendInc | rxInc =>
    obtain ⟨rfl, rfl, -⟩ := h
    exact .counter (by simp)
  | returned => exact absurd h (by simp [op])

structure Fresh (n : Nat) (p : Pc) : Prop where
  task : p.task = none ∨ p.task = some n
  pastDying : p.pastDying = false
  pastRxWake : p.pastRxWake = false
  onQueue : p.onQueue = none
  sleepsRx : p.sleepsRx = none

theorem start_effect {x : Start} {o : Option Pc} (h : start m x = some (m', o, es)) :
    (m'.tasks = m.tasks + 1 ∧ m'.dying = m.dying ∧ m'.queues = m.queues ∧
        m'.rxWoken = m.rxWoken ∧ m'.txWoken = m.txWoken) ∧
      ∃ p, o = some p ∧ Fresh m.tasks p := by
  cases x with
  | wait k =>
    simp only [start] at h
    split at h
    · obtain ⟨rfl, rfl, -⟩ := h
      exact ⟨⟨rfl, rfl, rfl, rfl, rfl⟩, _, rfl, .inr rfl, rfl, rfl, rfl, rfl⟩
    · contradiction
  | send | receive | sent =>
    simp only [start] at h
    split at h
    · obtain ⟨rfl, rfl, -⟩ := h
      exact ⟨⟨rfl, rfl, rfl, rfl, rfl⟩, _, rfl, .inl rfl, rfl, rfl, rfl, rfl⟩
    · contradiction
  | close =>
    obtain ⟨rfl, rfl, -⟩ := h
    exact ⟨⟨rfl, rfl, rfl, rfl, rfl⟩, _, rfl, .inl rfl, rfl, rfl, rfl, rfl⟩
  | closeAll =>
    simp only [start] at h
    split at h
    · contradiction
    · split at h
      all_goals
        obtain ⟨rfl, rfl, -⟩ := h
        exact ⟨⟨rfl, rfl, rfl, rfl, rfl⟩, _, rfl, .inl rfl, rfl, rfl, rfl, rfl⟩

structure Inv (s : State) : Prop where
  tasks : s.mem.tasks = s.pcs.length
  own : ∀ i (p : Pc) t, s.pcs[i]? = some p → p.task = some t → t = i
  pastDying : ∀ p ∈ s.pcs, p.pastDying = true → s.mem.dying = true
  pastRxWake : ∀ p ∈ s.pcs, p.pastRxWake = true → s.mem.rxWoken = true
  rxWoken : s.mem.rxWoken = true → s.mem.dying = true
  txWoken : s.mem.txWoken = true → s.mem.rxWoken = true
  found : ∀ p ∈ s.pcs, ∀ k t, p.onQueue = some (k, t) → s.mem.queues.Found k.queue t
  awake : s.mem.rxWoken = true →
    ∀ p ∈ s.pcs, ∀ t, p.sleepsRx = some t → s.mem.queues.asleep t = false

theorem onQueue_of_sleepsRx {p : Pc} (h : p.sleepsRx = some t) :
    p.task = some t ∧ ∃ k : Wait, p.onQueue = some (k, t) ∧ k.queue = .rx := by
  cases p with
  | sleep k u =>
    simp only [Pc.sleepsRx] at h
    split at h
    · next hk =>
      cases h
      exact ⟨rfl, k, rfl, hk⟩
    · contradiction
  | _ => contradiction

theorem task_of_onQueue {p : Pc} (h : p.onQueue = some (k, t)) :
    p.task = some t := by
  cases p with
  | test k' u parked | testDying k' u parked =>
    cases parked with
    | false => contradiction
    | true =>
      cases h
      rfl
  | sleep k' u =>
    cases h
    rfl
  | _ => contradiction

theorem Inv.started (hI : Inv s) {x : Start} {m' : Mem} {o : Option Pc}
    (h : start s.mem x = some (m', o, es)) : Inv ⟨m', s.pcs ++ o.toList⟩ := by
  obtain ⟨⟨htasks, hdying, hqueues, hrx, htx⟩, p, rfl, hp⟩ := start_effect h
  refine ⟨?_, ?_, ?_, ?_, ?_, ?_, ?_, ?_⟩
  · simp [htasks, hI.tasks]
  · intro i q t hq ht
    rcases Nat.lt_or_ge i s.pcs.length with hi | hi
    · rw [List.getElem?_append_left hi] at hq
      exact hI.own i q t hq ht
    · rw [List.getElem?_append_right hi] at hq
      obtain ⟨hi0, rfl⟩ : i - s.pcs.length = 0 ∧ p = q := by
        rcases Nat.eq_zero_or_pos (i - s.pcs.length) with h0 | h0
        · rw [h0] at hq
          exact ⟨h0, Option.some.inj hq⟩
        · rw [Option.toList_some, List.getElem?_eq_none (l := [p]) h0] at hq
          contradiction
      have hnew : t = s.mem.tasks := by
        rcases hp.task with hnone | hsome
        · exact absurd (ht.symm.trans hnone) (Option.some_ne_none t)
        · exact Option.some.inj (ht.symm.trans hsome)
      rw [hnew, hI.tasks]
      omega
  · rw [hdying]
    exact forall_mem_started hI.pastDying fun h => absurd (h.symm.trans hp.pastDying) (by decide)
  · rw [hrx]
    exact forall_mem_started hI.pastRxWake fun h => absurd (h.symm.trans hp.pastRxWake) (by decide)
  · rw [hrx, hdying]
    exact hI.rxWoken
  · rw [hrx, htx]
    exact hI.txWoken
  · rw [hqueues]
    exact forall_mem_started hI.found fun _ _ h =>
      absurd (h.symm.trans hp.onQueue) (Option.some_ne_none _)
  · rw [hrx, hqueues]
    exact fun hwoken => forall_mem_started (hI.awake hwoken) fun _ h =>
      absurd (h.symm.trans hp.sleepsRx) (Option.some_ne_none _)

theorem Inv.run (hI : Inv s) {i : Nat} {m' : Mem}
    (hp : s.pcs[i]? = some p) (he : Effect s.mem p m' p') : Inv ⟨m', s.pcs.set i p'⟩ := by
  have hin : p ∈ s.pcs := List.mem_of_getElem? hp
  -- another thread has another number
  have hother {j : Nat} {q : Pc} {t : Nat} (hj : j ≠ i) (hq : s.pcs[j]? = some q)
      (ht : q.task = some t) : p.task ≠ some t := by
    intro hpt
    exact hj ((hI.own j q t hq ht).symm.trans (hI.own i p t hp hpt))
  have hdying : p.pastDying = true → m'.dying = true := fun h => he.dying (hI.pastDying p hin h)
  have hwoken : p.pastRxWake = true → m'.rxWoken = true :=
    fun h => he.rxWoken (hI.pastRxWake p hin h)
  have hfound : ∀ q ∈ s.pcs.set i p', ∀ k t, q.onQueue = some (k, t) →
      m'.queues.Found k.queue t := by
    intro q hq k t hon
    rcases mem_set_cases hq with rfl | ⟨j, hj, hq⟩
    · rcases he.onQueue with hnone | ⟨hsame, hqueues⟩ | ⟨k', t', hpark, hqueues⟩
      · exact absurd (hon.symm.trans hnone) (Option.some_ne_none _)
      · rw [hqueues]
        exact hI.found p hin k t (hsame.symm.trans hon)
      · obtain ⟨rfl, rfl⟩ := Prod.mk.inj (Option.some.inj (hpark.symm.trans hon))
        rw [hqueues]
        exact Queues.found_park _ _ _
    · exact he.found _ t (hother hj hq (task_of_onQueue hon))
        (hI.found q (List.mem_of_getElem? hq) k t hon)
  refine ⟨?_, ?_, ?_, ?_, ?_, ?_, hfound, ?_⟩
  · simp [he.tasks, hI.tasks]
  · intro j q t hq ht
    by_cases hj : j = i
    · subst hj
      obtain ⟨hlt, -⟩ := List.getElem?_eq_some_iff.mp hp
      rw [List.getElem?_set_self hlt] at hq
      cases hq
      rcases he.task with hnone | hsame
      · exact absurd (ht.symm.trans hnone) (Option.some_ne_none t)
      · exact hI.own j p t hp (hsame.symm.trans ht)
    · rw [List.getElem?_set_ne (Ne.symm hj)] at hq
      exact hI.own j q t hq ht
  · intro q hq hpast
    rcases mem_set_cases hq with rfl | ⟨j, hj, hq⟩
    · rcases he.pastDying with hfalse | hold | hnew
      · exact absurd (hpast.symm.trans hfalse) (by decide)
      · exact hdying hold
      · exact hnew
    · exact he.dying (hI.pastDying q (List.mem_of_getElem? hq) hpast)
  · intro q hq hpast
    rcases mem_set_cases hq with rfl | ⟨j, hj, hq⟩
    · rcases he.pastRxWake with hfalse | hold | hnew
      · exact absurd (hpast.symm.trans hfalse) (by decide)
      · exact hwoken hold
      · exact hnew
    · exact he.rxWoken (hI.pastRxWake q (List.mem_of_getElem? hq) hpast)
  · intro hrx
    rcases he.wakesRx hrx with hold | ⟨hpast, -⟩
    · exact he.dying (hI.rxWoken hold)
    · exact hdying hpast
  · intro htx
    rcases he.wakesTx htx with hold | hpast
    · exact he.rxWoken (hI.txWoken hold)
    · exact hwoken hpast
  · intro hrx q hq t hsleep
    obtain ⟨htask, k, hon, hk⟩ := onQueue_of_sleepsRx hsleep
    rcases mem_set_cases hq with rfl | ⟨j, hj, hq⟩
    · -- a reader that goes to sleep has found the stream not dying
      rcases he.sleepsRx with hnone | halive
      · exact absurd (hsleep.symm.trans hnone) (Option.some_ne_none t)
      · have hdead : s.mem.dying = true := by
          rcases he.wakesRx hrx with hold | ⟨hpast, -⟩
          · exact hI.rxWoken hold
          · exact hI.pastDying p hin hpast
        exact absurd (hdead.symm.trans halive) (by decide)
    · have hq' := List.mem_of_getElem? hq
      rcases he.wakesRx hrx with hold | ⟨-, hqueues⟩
      · have hawake := hI.awake hold q hq' t hsleep
        rw [← Bool.not_eq_true] at hawake ⊢
        exact fun hasleep => hawake (he.asleep t (hother hj hq htask) hasleep)
      · have hf := hI.found q hq' k t hon
        rw [hk] at hf
        rw [hqueues]
        exact hf.awake

theorem inv_of_reaches {h : List Unit}
    (hr : Reaches prog.step (fun _ _ _ => True) initial s h) : Inv s := by
  refine hr.invariant (fun s _ => Inv s) ⟨rfl, ?_, ?_, ?_, ?_, ?_, ?_, ?_⟩ ?_
  · intro i p t hp
    exact absurd hp (by simp [initial])
  · simp [initial]
  · simp [initial]
  · exact fun h => absurd h Bool.false_ne_true
  · exact fun h => absurd h Bool.false_ne_true
  · simp [initial]
  · simp [initial]
  · intro s h mv s' es _ hI _ hs
    cases mv with
    | start x =>
      obtain ⟨m, o, hx, rfl⟩ := step_start.mp hs
      exact hI.started hx
    | run i x =>
      obtain ⟨p, m, p', hp, hx, rfl⟩ := step_run.mp hs
      exact hI.run hp (op_effect hx)

theorem holds_of_rx {m : Mem} (hd : m.dying = true) (hk : k.queue = .rx) :
    k.holds m = true := by
  rw [Wait.holds, hk, hd, Bool.or_true]

theorem holds_of_tx {m : Mem} (hk : k.queue = .tx) :
    k.holds m = true ↔ m.txInFlight = 0 := by
  rw [Wait.holds, hk, beq_iff_eq]

/-- Once a close has issued its wake-ups, every thread that waits has a true condition exactly when
no thread waits for the end of a message that is in flight; and no reader sleeps. -/
theorem close_releases_iff {s : State} {h : List Unit}
    (hr : Reaches prog.step (fun _ _ _ => True) initial s h) (hwoken : s.mem.txWoken = true) :
    ((∀ p ∈ s.pcs, ∀ k, p.waitsFor = some k → k.holds s.mem = true) ↔
      ∀ p ∈ s.pcs, ∀ timed, p.waitsFor = some (.waitTx timed) → s.mem.txInFlight = 0) ∧
    ∀ p ∈ s.pcs, ∀ k t, p = .sleep k t → k.queue = .rx → s.mem.queues.asleep t = false := by
  have hI := inv_of_reaches hr
  have hrx := hI.txWoken hwoken
  refine ⟨⟨?_, ?_⟩, ?_⟩
  · intro hall p hp timed hw
    exact (holds_of_tx rfl).mp (hall p hp _ hw)
  · intro htx p hp k hw
    cases k with
    | recv | waitRx timed => exact holds_of_rx (hI.rxWoken hrx) rfl
    | waitTx timed => exact (holds_of_tx rfl).mpr (htx p hp timed hw)
  · rintro p hp k t rfl hk
    exact hI.awake hrx _ hp t (by rw [Pc.sleepsRx, if_pos hk])

def readerReleased : List (Move Start Answer) :=
  [.start (.wait .recv), .run 0 .go, .run 0 .go, .run 0 .go, .run 0 .go, .run 0 .go,
    .start .close, .run 1 .go, .run 1 .go, .run 1 .go, .run 1 .go, .run 1 .go]

theorem readerReleased_runs :
    (run prog.step (fun _ _ _ => true) initial [] readerReleased).isSome = true := by
  decide +kernel

theorem close_releases_reader :
    ∃ s h, Reaches prog.step (fun _ _ _ => True) initial s h ∧ s.mem.txWoken = true ∧
      s.pcs = [.sleep .recv 0, .destroy false .freeId] ∧
      (∀ p ∈ s.pcs, ∀ k, p.waitsFor = some k → k.holds s.mem = true) ∧
      s.mem.queues.asleep 0 = false := by
  have hr := Reaches.of_final (fun _ _ _ => True) (fun _ _ _ _ => trivial) readerReleased_runs
  have hwoken : (final prog.step (fun _ _ _ => true) initial readerReleased
      readerReleased_runs).1.mem.txWoken = true := by decide +kernel
  have hpcs : (final prog.step (fun _ _ _ => true) initial readerReleased
      readerReleased_runs).1.pcs = [.sleep .recv 0, .destroy false .freeId] := by decide +kernel
  obtain ⟨hiff, hawake⟩ := close_releases_iff hr hwoken
  refine ⟨_, _, hr, hwoken, hpcs, hiff.mpr ?_, ?_⟩
  · rw [hpcs]
    simp [Pc.waitsFor]
  · exact hawake (.sleep .recv 0) (by rw [hpcs]; simp) .recv 0 rfl rfl

/-- A message is in flight, a thread waits for its end without a timeout, and the stream is closed;
the thread is woken, finds the message still in flight and sleeps again. -/
def senderForgotten : List (Move Start Answer) :=
  [.start .send, .run 0 .go,
    .start (.wait (.waitTx false)), .run 1 .go, .run 1 .go, .run 1 .go,
    .start .close, .run 2 .go, .run 2 .go, .run 2 .go, .run 2 .go, .run 2 .go, .run 2 .go,
    .run 2 .go, .run 1 .go, .run 1 .go, .run 1 .go]

theorem closed_stream_keeps_sender :
    ∃ s h, Reaches prog.step (fun _ _ _ => True) initial s h ∧ s.mem.txWoken = true ∧
      s.pcs = [.returned, .sleep (.waitTx false) 1, .returned] ∧
      (Wait.waitTx false).holds s.mem = false ∧ s.mem.queues.asleep 1 = true :=
  ⟨_, _, .of_free senderForgotten (by decide +kernel), by decide +kernel,
    by decide +kernel, by decide +kernel, by decide +kernel⟩

end OdinLink.Waiters

