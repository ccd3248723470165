import OdinLink.Driver.RawMachine

/-!
# Descriptors and mappings in the hands of the hardware

While a ring has one request at a time, its counters tell how many frames the hardware still has.
-/

namespace OdinLink.Raw

open Threads History

def planLength : Except RawError (List FrameDesc) → Nat
  | .error _ => 0
  | .ok fs => fs.length

namespace Ring

structure Counts (ring : Ring) (pending : Nat) : Prop where
  nonneg : 0 ≤ ring.completed
  covered : ring.inflight.length + ring.completed ≤ ring.submitted + pending
  small : ring.submitted + pending < 2147483648

structure Idle (ring : Ring) : Prop where
  counts : ring.Counts 0
  posted : ring.framesPosted = true ∨ ring.inflight = []
  own : ∀ f ∈ ring.inflight, f.mapping = none

structure Posting (ring : Ring) (mapping : Option (RingId × Nat)) (i left : Nat) : Prop where
  counts : ring.Counts i
  used : ∀ f ∈ ring.inflight, f.idx < i ∧ f.mapping = mapping
  room : ring.submitted + i + left < 2147483648

structure Empty (ring : Ring) : Prop where
  counts : ring.Counts 0
  none : ring.inflight = []

theorem Empty.idle {ring : Ring} (h : ring.Empty) : ring.Idle :=
  ⟨h.counts, .inr h.none, by simp [h.none]⟩

theorem Empty.posting {ring : Ring} (h : ring.Empty) (mapping : Option (RingId × Nat)) {left : Nat}
    (hroom : ring.submitted + left < 2147483648) : ring.Posting mapping 0 left :=
  ⟨h.counts, by simp [h.none], by omega⟩

theorem Counts.drained {ring : Ring} (h : ring.Counts 0)
    (hle : ring.submitted ≤ ring.completed) : ring.inflight = [] := by
  have hcov := h.covered
  apply List.eq_nil_of_length_eq_zero
  omega

end Ring

def Fits (ring : Ring) : Pc → Prop
  | .check plan | .readSubmitted plan =>
    ring.Idle ∧ ring.submitted + planLength plan < 2147483648
  | .drain plan sub =>
    ring.Idle ∧ sub = ring.submitted ∧ ring.submitted + planLength plan < 2147483648
  | .clearPosted plan | .clearCompleted plan => ring.Empty ∧ planLength plan < 2147483648
  | .clearSubmitted plan => ring.inflight = [] ∧ ring.completed = 0 ∧ planLength plan < 2147483648
  | .write r m i todo =>
    (m = none → r = .tx) ∧ ring.Posting (m.map fun k => (r, k)) i todo.length
  | .post r m i todo =>
    (m = none → r = .tx) ∧ ring.Posting (m.map fun k => (r, k)) i (todo.length + 1)
  | .add r m i => (m = none → r = .tx) ∧ ring.Posting (m.map fun k => (r, k)) i 0
  | .setPosted => ring.Counts 0 ∧ ∀ f ∈ ring.inflight, f.mapping = none
  | .wait r m => ring.Counts 0 ∧ ∀ f ∈ ring.inflight, f.mapping = some (r, m)
  | .test r m completed =>
    (ring.Counts 0 ∧ ∀ f ∈ ring.inflight, f.mapping = some (r, m)) ∧ completed ≤ ring.completed
  | .unmap _ _ | .detach _ _ | .put _ _ => ring.Empty
  | .done => True

structure Owned (s : State) : Prop where
  ring : ∀ r, Exclusive (Pc.uses r) (Fits (s.mem.ring r)) (s.mem.ring r).Idle s.pcs
  mapped : ∀ r, ∀ f ∈ (s.mem.ring r).inflight, ∀ m, f.mapping = some m → m.1 = r

/-- After its first frame no submission is refused, for lack of descriptors or by the ring. A signal
does not end the wait of a dma-buf request while frames are outstanding. -/
def CarefulOp (mem : Mem) : Pc → Answer → Prop
  | .write _ (some _) i (_ :: _), _ => mem.ringSize ≤ i → i = 0
  | .post _ _ i _, .stop => i = 0
  | .wait r _, .stop => (mem.ring r).inflight = []
  | _, _ => True

/-- A request begins when its ring has no other one, and a dma-buf request when the hardware has no
frame of the ring; the counters do not overflow. -/
def Careful (s : State) (_ : List Unit) : Move Start Answer → Prop
  | .start (.send buf offset len ctrl) =>
    (∀ p ∈ s.pcs, p.uses .tx = false) ∧
      (s.mem.ring .tx).submitted + planLength (bufFrames buf offset len ctrl) < 2147483648
  | .start (.dmabuf r b offset len) =>
    (∀ p ∈ s.pcs, p.uses r = false) ∧ (s.mem.ring r).inflight = [] ∧
      (s.mem.ring r).submitted + planLength (b.frames offset len) < 2147483648
  | .start (.complete _ _ _) => True
  | .run k x =>
    match s.pcs[k]? with
    | none => True
    | some p => CarefulOp s.mem p x

instance (mem : Mem) (p : Pc) (x : Answer) : Decidable (CarefulOp mem p x) := by
  unfold CarefulOp
  split <;> infer_instance

instance (s : State) (h : List Unit) (mv : Move Start Answer) : Decidable (Careful s h mv) := by
  unfold Careful
  split
  · infer_instance
  · infer_instance
  · infer_instance
  · split <;> infer_instance

@[simp] theorem Mem.set_self (m : Mem) (r : RingId) (ring : Ring) : (m.set r ring).ring r = ring :=
  Function.update_self ..

theorem Mem.set_other (m : Mem) {r r' : RingId} (h : r' ≠ r) (ring : Ring) :
    (m.set r ring).ring r' = m.ring r' :=
  Function.update_of_ne h ..

structure Follows (mem : Mem) (r : RingId) (mem' : Mem) (p' : Pc) : Prop where
  other : ∀ r', r' ≠ r → mem'.ring r' = mem.ring r'
  size : mem'.ringSize = mem.ringSize
  ring : p'.ring = some r ∨ p'.ring = none
  fits : p'.ring = some r → Fits (mem'.ring r) p'
  idle : p'.ring = none → (mem'.ring r).Idle
  mapped : ∀ f ∈ (mem'.ring r).inflight, ∀ m, f.mapping = some m → m.1 = r

section Step
variable {mem : Mem} {r : RingId}
variable {p' : Pc} {m : Option Nat} {i : Nat}

theorem Follows.stay (hm : ∀ f ∈ (mem.ring r).inflight, ∀ m, f.mapping = some m → m.1 = r)
    (hring : p'.ring = some r) (hfits : Fits (mem.ring r) p') : Follows mem r mem p' where
  other _ _ := rfl
  size := rfl
  ring := .inl hring
  fits _ := hfits
  idle h := by rw [hring] at h; cases h
  mapped := hm

theorem Follows.leave (hm : ∀ f ∈ (mem.ring r).inflight, ∀ m, f.mapping = some m → m.1 = r)
    (hidle : (mem.ring r).Idle) : Follows mem r mem .done where
  other _ _ := rfl
  size := rfl
  ring := .inr rfl
  fits h := by cases h
  idle _ := hidle
  mapped := hm

theorem Follows.change {ring : Ring} (hm : ∀ f ∈ ring.inflight, ∀ m, f.mapping = some m → m.1 = r)
    (hring : p'.ring = some r) (hfits : Fits ring p') : Follows mem r (mem.set r ring) p' where
  other r' h := mem.set_other h ring
  size := rfl
  ring := .inl hring
  fits _ := by rw [Mem.set_self]; exact hfits
  idle h := by rw [hring] at h; cases h
  mapped := by rw [Mem.set_self]; exact hm

theorem Follows.after {ring : Ring}
    (h : Follows (mem.set r ring) r (mem.set r ring) p') : Follows mem r (mem.set r ring) p' :=
  {h with other := fun _ hr => mem.set_other hr ring}

variable (hm : ∀ f ∈ (mem.ring r).inflight, ∀ m, f.mapping = some m → m.1 = r)
include hm

theorem begin_follows (hr : r = .tx) (h : (mem.ring r).Empty)
    {plan : Except RawError (List FrameDesc)}
    (hroom : (mem.ring r).submitted + planLength plan < 2147483648) :
    Follows mem r mem (.begin plan) := by
  subst hr
  cases plan with
  | error e => exact .leave hm h.idle
  | ok fs => exact .stay hm rfl ⟨fun _ => rfl, h.posting none hroom⟩

theorem write_follows {todo : List FrameDesc}
    (hr : m = none → r = .tx) (h : (mem.ring r).Posting (m.map fun k => (r, k)) i todo.length)
    (hcareful : ∀ f fs, todo = f :: fs → m.isSome = true → mem.ringSize ≤ i → i = 0) :
    Follows mem r (mem.writeFrame r m i todo).1 (mem.writeFrame r m i todo).2 := by
  unfold Mem.writeFrame
  split
  · exact .stay hm rfl ⟨hr, h⟩
  · rename_i f fs
    split
    · -- a ring without descriptors: nothing has been posted
      rename_i hfull
      rw [Bool.and_eq_true, decide_eq_true_iff] at hfull
      obtain ⟨k, rfl⟩ := Option.isSome_iff_exists.mp hfull.1
      have h0 := hcareful f fs rfl rfl hfull.2
      subst h0
      refine .stay hm rfl ⟨h.counts, ?_⟩
      apply List.eq_nil_iff_forall_not_mem.mpr
      intro g hg
      exact absurd (h.used g hg).1 (Nat.not_lt_zero _)
    · exact .change hm rfl
        ⟨hr, ⟨h.counts.nonneg, h.counts.covered, h.counts.small⟩, h.used, h.room⟩

omit hm in
theorem post_follows {todo : List FrameDesc} (hr : m = none → r = .tx)
    (h : (mem.ring r).Posting (m.map fun k => (r, k)) i (todo.length + 1)) :
    Follows mem r (mem.set r {mem.ring r with
      inflight := (mem.ring r).inflight ++ [⟨i, m.map fun k => (r, k)⟩]})
      (.write r m (i + 1) todo) := by
  have hcov := h.counts.covered
  have hroom := h.room
  have hused : ∀ f ∈ (mem.ring r).inflight ++ [⟨i, m.map fun k => (r, k)⟩],
      f.idx < i + 1 ∧ f.mapping = m.map fun k => (r, k) := by
    intro f hf
    rcases List.mem_append.mp hf with hf | hf
    · have hold := h.used f hf
      exact ⟨by omega, hold.2⟩
    · rw [List.mem_singleton.mp hf]
      exact ⟨by simp, rfl⟩
  refine .change ?_ rfl ⟨hr, ⟨h.counts.nonneg, ?_, ?_⟩, hused, ?_⟩
  · intro f hf k hk
    rw [(hused f hf).2] at hk
    obtain ⟨n, -, hn⟩ := Option.map_eq_some_iff.mp hk
    rw [← hn]
  · simp only [List.length_append, List.length_singleton]
    push_cast
    omega
  · push_cast
    omega
  · push_cast
    omega

theorem refused_follows {left : Nat}
    (h : (mem.ring r).Posting (m.map fun k => (r, k)) 0 left) : Follows mem r mem (.fail r m) := by
  have hempty : (mem.ring r).Empty := by
    refine ⟨h.counts, List.eq_nil_iff_forall_not_mem.mpr ?_⟩
    intro f hf
    exact absurd (h.used f hf).1 (Nat.not_lt_zero _)
  cases m with
  | none => exact .leave hm hempty.idle
  | some k => exact .stay hm rfl hempty

theorem add_follows (hr : m = none → r = .tx)
    (h : (mem.ring r).Posting (m.map fun k => (r, k)) i 0) :
    Follows mem r
      (mem.set r {mem.ring r with submitted := atomicInt ((mem.ring r).submitted + i)})
      (.counted r m) := by
  have hcov := h.counts.covered
  have hroom := h.room
  have hnonneg := h.counts.nonneg
  have hadd : atomicInt ((mem.ring r).submitted + i) = (mem.ring r).submitted + i := by
    apply atomicInt_of_lt <;> omega
  have hcounts : Ring.Counts {mem.ring r with
      submitted := atomicInt ((mem.ring r).submitted + i)} 0 := by
    refine ⟨hnonneg, ?_, ?_⟩
    · change _ ≤ atomicInt _ + _
      rw [hadd]
      push_cast
      omega
    · change atomicInt _ + _ < _
      rw [hadd]
      push_cast
      omega
  cases m with
  | none =>
    obtain rfl := hr rfl
    exact .change hm rfl ⟨hcounts, fun f hf => (h.used f hf).2⟩
  | some k => exact .change hm rfl ⟨hcounts, fun f hf => (h.used f hf).2⟩

theorem drain_follows (hr : r = .tx) {plan : Except RawError (List FrameDesc)} {sub : Int}
    (h : Fits (mem.ring r) (.drain plan sub)) (x : Answer) {mem' : Mem} {es : List Unit}
    (hop : op mem (.drain plan sub) x = some (mem', p', es)) : Follows mem r mem' p' := by
  subst hr
  obtain ⟨hidle, rfl, hroom⟩ := h
  have hcounts := hidle.counts
  have hlen : planLength plan < 2147483648 := by
    have hcov := hcounts.covered
    have hnonneg := hcounts.nonneg
    omega
  cases x with
  | go =>
    simp only [op] at hop
    split at hop
    · rename_i hle
      cases hop
      exact .stay hm rfl ⟨⟨hcounts, hcounts.drained hle⟩, hlen⟩
    · cases hop
  | stop =>
    cases hop
    refine .change (by simp) rfl ⟨⟨⟨hcounts.nonneg, ?_, hcounts.small⟩, rfl⟩, hlen⟩
    have hcov := hcounts.covered
    simp only [List.length_nil]
    omega

theorem op_follows {p : Pc} (hr : p.ring = some r) (h : Fits (mem.ring r) p) {x : Answer}
    (hcareful : CarefulOp mem p x) {mem' : Mem} {es : List Unit}
    (hop : op mem p x = some (mem', p', es)) : Follows mem r mem' p' := by
  cases p with
  | check plan =>
    cases hr
    obtain ⟨hidle, hroom⟩ := h
    cases hop
    split
    · exact .stay hm rfl ⟨hidle, hroom⟩
    · rename_i hposted
      have hnone := hidle.posted.resolve_left hposted
      exact begin_follows hm rfl ⟨hidle.counts, hnone⟩ hroom
  | readSubmitted plan =>
    cases hr
    cases hop
    exact .stay hm rfl ⟨h.1, rfl, h.2⟩
  | drain plan sub =>
    cases hr
    exact drain_follows hm rfl h x hop
  | clearPosted plan =>
    cases hr
    cases hop
    obtain ⟨⟨hcounts, hnone⟩, hlen⟩ := h
    exact .change hm rfl ⟨⟨⟨hcounts.nonneg, hcounts.covered, hcounts.small⟩, hnone⟩, hlen⟩
  | clearCompleted plan =>
    cases hr
    cases hop
    exact .change hm rfl ⟨h.1.none, rfl, h.2⟩
  | clearSubmitted plan =>
    cases hr
    cases hop
    obtain ⟨hnone, hzero, hlen⟩ := h
    apply Follows.after
    apply begin_follows _ rfl
    · rw [Mem.set_self]
      exact ⟨⟨hzero.ge, by simp [hnone, hzero], by simp⟩, hnone⟩
    · rw [Mem.set_self]
      change (0 : Int) + _ < _
      omega
    · rw [Mem.set_self]
      exact hm
  | write r' m i todo =>
    cases hr
    cases hop
    refine write_follows hm h.1 h.2 ?_
    rintro f fs rfl hm hfull
    obtain ⟨k, rfl⟩ := Option.isSome_iff_exists.mp hm
    exact hcareful hfull
  | post r' m i todo =>
    cases hr
    cases x with
    | go =>
      cases hop
      exact post_follows h.1 h.2
    | stop =>
      cases hop
      obtain rfl : i = 0 := hcareful
      exact refused_follows hm h.2
  | add r' m i =>
    cases hr
    cases hop
    exact add_follows hm h.1 h.2
  | setPosted =>
    cases hr
    cases hop
    obtain ⟨hcounts, hown⟩ := h
    apply Follows.after
    apply Follows.leave
    · rw [Mem.set_self]
      exact hm
    · rw [Mem.set_self]
      exact ⟨⟨hcounts.nonneg, hcounts.covered, hcounts.small⟩, .inl rfl, hown⟩
  | wait r' m =>
    cases hr
    cases x with
    | go =>
      cases hop
      exact .stay hm rfl ⟨h, le_rfl⟩
    | stop =>
      cases hop
      exact .stay hm rfl ⟨h.1, hcareful⟩
  | test r' m completed =>
    cases hr
    cases hop
    split
    · rename_i hle
      exact .stay hm rfl ⟨h.1.1, h.1.1.drained (le_trans hle h.2)⟩
    · exact .stay hm rfl h.1
  | unmap r' m | detach r' m =>
    cases hr
    cases hop
    exact .stay hm rfl h
  | put r' m =>
    cases hr
    cases hop
    exact .leave hm h.idle
  | done => cases hop

end Step

section Completion
variable {ring : Ring} {k : Nat} (hk : k < ring.inflight.length) (counted : Bool)

def Ring.completes (ring : Ring) (k : Nat) (counted : Bool) : Ring :=
  {ring with
    inflight := ring.inflight.eraseIdx k,
    completed := if counted then atomicInt (ring.completed + 1) else ring.completed}

theorem complete_eq_some {mem mem' : Mem} {r : RingId} {k : Nat} {counted : Bool}
    (h : complete mem r k counted = some mem') :
    k < (mem.ring r).inflight.length ∧ mem' = mem.set r ((mem.ring r).completes k counted) := by
  simp only [complete] at h
  split at h
  · cases h
  · split at h
    · rename_i hk
      exact ⟨hk, (Option.some.inj h).symm⟩
    · cases h

theorem mem_completes {ring : Ring} {k : Nat} {counted : Bool} {f : Flight}
    (hf : f ∈ (ring.completes k counted).inflight) : f ∈ ring.inflight :=
  List.mem_of_mem_eraseIdx hf

include hk

theorem Ring.Counts.completes {pending : Nat} (h : ring.Counts pending) :
    (ring.completes k counted).Counts pending ∧
      ring.completed ≤ (ring.completes k counted).completed := by
  have hnonneg := h.nonneg
  have hcov := h.covered
  have hsmall := h.small
  have hlen : ((ring.inflight.eraseIdx k).length : Int) = ring.inflight.length - 1 := by
    rw [List.length_eraseIdx_of_lt hk]
    omega
  have hadd : atomicInt (ring.completed + 1) = ring.completed + 1 := by
    apply atomicInt_of_lt <;> omega
  cases counted with
  | true =>
    refine ⟨⟨?_, ?_, hsmall⟩, ?_⟩ <;> simp only [Ring.completes, if_true, hadd] <;> omega
  | false =>
    refine ⟨⟨?_, ?_, hsmall⟩, ?_⟩ <;>
      simp only [Ring.completes, Bool.false_eq_true, if_false] <;> omega

theorem Ring.Idle.completes (h : ring.Idle) : (ring.completes k counted).Idle where
  counts := (h.counts.completes hk counted).1
  posted := by
    refine h.posted.imp id fun hnone => ?_
    rw [hnone] at hk
    cases hk
  own f hf := h.own f (mem_completes hf)

theorem Ring.Posting.completes {mapping : Option (RingId × Nat)} {i left : Nat}
    (h : ring.Posting mapping i left) : (ring.completes k counted).Posting mapping i left where
  counts := (h.counts.completes hk counted).1
  used f hf := h.used f (mem_completes hf)
  room := h.room

theorem completes_fits {p : Pc} (h : Fits ring p) : Fits (ring.completes k counted) p := by
  have hne : ring.inflight ≠ [] := List.ne_nil_of_length_pos (by omega)
  cases p with
  | check plan | readSubmitted plan | drain plan sub => exact ⟨h.1.completes hk counted, h.2⟩
  | clearPosted plan | clearCompleted plan => exact absurd h.1.none hne
  | clearSubmitted plan => exact absurd h.1 hne
  | write r m i | post r m i | add r m i => exact ⟨h.1, h.2.completes hk counted⟩
  | setPosted | wait => exact ⟨(h.1.completes hk counted).1, fun f hf => h.2 f (mem_completes hf)⟩
  | test r m completed =>
    obtain ⟨hcounts, hle⟩ := h.1.1.completes hk counted
    exact ⟨⟨hcounts, fun f hf => h.1.2 f (mem_completes hf)⟩, le_trans h.2 hle⟩
  | unmap | detach | put => exact absurd h.none hne
  | done => trivial

end Completion

variable {r : RingId} {s : State}

theorem uses_eq_true {p : Pc} : p.uses r = true ↔ p.ring = some r := by
  simp [Pc.uses]

theorem uses_eq_false {p : Pc} : p.uses r = false ↔ p.ring ≠ some r := by
  simp [Pc.uses]

theorem owned_initial (ringSize : Nat) : Owned (initial ringSize) := by
  have hidle : Ring.initial.Idle :=
    ⟨⟨le_rfl, by simp [Ring.initial], by simp [Ring.initial]⟩, .inr rfl, by simp [Ring.initial]⟩
  refine ⟨fun r => .inr ⟨?_, hidle⟩, fun r f hf => ?_⟩
  · intro q hq
    cases hq
  · cases hf

theorem Owned.starts (h : Owned s) (p : Pc) (hp : p.ring = some r)
    (hnone : ∀ q ∈ s.pcs, q.uses r = false)
    (hfits : (s.mem.ring r).Idle → Fits (s.mem.ring r) p) {maps : Nat} :
    Owned ⟨{s.mem with maps := maps}, s.pcs ++ [p]⟩ := by
  refine ⟨fun r' => ?_, h.mapped⟩
  by_cases hr : r' = r
  · subst hr
    have hidle := (h.ring r').idle_of_none hnone
    exact .start hnone (fun _ => hfits hidle) (fun _ => hidle)
  · apply (h.ring r').start_other
    intro q hq
    rw [List.mem_singleton.mp hq, uses_eq_false, hp]
    exact fun he => hr (Option.some.inj he).symm

theorem Owned.completed (h : Owned s) {k : Nat} {counted : Bool}
    {mem' : Mem} (hc : complete s.mem r k counted = some mem') : Owned ⟨mem', s.pcs⟩ := by
  obtain ⟨hk, rfl⟩ := complete_eq_some hc
  refine ⟨fun r' => ?_, fun r' f hf => ?_⟩
  · by_cases hr : r' = r
    · subst hr
      simp only [Mem.set_self]
      exact (h.ring r').mono (fun p _ _ hp => completes_fits hk counted hp)
        (fun hidle => hidle.completes hk counted)
    · simp only [s.mem.set_other hr]
      exact h.ring r'
  · by_cases hr : r' = r
    · subst hr
      rw [Mem.set_self] at hf
      exact h.mapped r' f (mem_completes hf)
    · rw [s.mem.set_other hr] at hf
      exact h.mapped r' f hf

theorem Owned.runs (h : Owned s) {k : Nat} {p p' : Pc} {mem' : Mem}
    (hk : s.pcs[k]? = some p) (hp : p.ring = some r) (hf : Follows s.mem r mem' p') :
    Owned ⟨mem', s.pcs.set k p'⟩ := by
  have hp' {r' : RingId} (hr : r' ≠ r) : p'.uses r' = false := by
    rw [uses_eq_false]
    rcases hf.ring with he | he <;> rw [he] <;> simp [Ne.symm hr]
  refine ⟨fun r' => ?_, fun r' f hf' => ?_⟩
  · by_cases hr : r' = r
    · subst hr
      refine (h.ring r').run hk (uses_eq_true.mpr hp) ?_ ?_
      · intro hu
        exact hf.fits (uses_eq_true.mp hu)
      · intro hu
        exact hf.idle (hf.ring.resolve_left (uses_eq_false.mp hu))
    · simp only [hf.other r' hr]
      apply (h.ring r').run_other hk _ (hp' hr)
      rw [uses_eq_false, hp]
      exact fun he => hr (Option.some.inj he).symm
  · by_cases hr : r' = r
    · subst hr
      exact hf.mapped f hf'
    · rw [hf.other r' hr] at hf'
      exact h.mapped r' f hf'

theorem Owned.step {s s' : State} {mv : Move Start Answer} {h : List Unit} {es : List Unit}
    (ho : Owned s) (hcareful : Careful s h mv) (hs : prog.step s mv = some (s', es)) :
    Owned s' := by
  cases mv with
  | start x =>
    obtain ⟨m, o, hstart, rfl⟩ := step_start.mp hs
    cases x with
    | send buf offset len ctrl =>
      cases hstart
      exact ho.starts (.check (bufFrames buf offset len ctrl)) rfl hcareful.1 fun hidle =>
        ⟨hidle, hcareful.2⟩
    | dmabuf r b offset len =>
      obtain ⟨hnone, hempty, hroom⟩ := hcareful
      cases hstart
      cases hplan : b.frames offset len with
      | error e =>
        have hexit (hidle : (s.mem.ring r).Idle) : (s.mem.ring r).Empty := ⟨hidle.counts, hempty⟩
        simp only [unusable]
        split
        · exact ho.starts (.put r s.mem.maps) rfl hnone hexit
        · split
          · exact ho.starts (.put r s.mem.maps) rfl hnone hexit
          · exact ho.starts (.detach r s.mem.maps) rfl hnone hexit
      | ok fs =>
        rw [hplan] at hroom
        refine ho.starts (.write r (some s.mem.maps) 0 fs) rfl hnone fun hidle => ⟨by simp, ?_⟩
        exact Ring.Empty.posting ⟨hidle.counts, hempty⟩ _ hroom
    | complete r k counted =>
      obtain ⟨mem', hc, hmem⟩ := Option.map_eq_some_iff.mp hstart
      cases hmem
      simpa using ho.completed hc
  | run k x =>
    obtain ⟨p, m, p', hk, hop, rfl⟩ := step_run.mp hs
    have hcareful' : CarefulOp s.mem p x := by
      simpa only [Careful, hk] using hcareful
    cases hr : p.ring with
    | none =>
      cases p with
      | done => exact absurd hop (by simp [prog, op])
      | _ => cases hr
    | some r =>
      have hfits : Fits (s.mem.ring r) p :=
        (ho.ring r).fits_of_mem (List.mem_of_getElem? hk) (uses_eq_true.mpr hr)
      exact ho.runs hk hr (op_follows (ho.mapped r) hr hfits hcareful' hop)

theorem Owned.safe (h : Owned s) : Safe s := by
  refine ⟨fun p hp m hm r f hf hfm => ?_, fun p hp r i hi f hf => ?_⟩
  · have hempty (r' : RingId) (k : Nat) (hring : p.ring = some r')
        (hfits : Fits (s.mem.ring r') p → (s.mem.ring r').Empty) (hrel : m = (r', k)) : False := by
      have he := hfits ((h.ring r').fits_of_mem hp (uses_eq_true.mpr hring))
      have hr : r' = r := by
        rw [← h.mapped r f hf m hfm, hrel]
      rw [← hr, he.none] at hf
      cases hf
    cases p with
    | unmap r' k | detach r' k | put r' k => exact hempty r' k rfl id (Option.some.inj hm).symm
    | _ => cases hm
  · cases p with
    | write r' m j todo =>
      cases todo with
      | nil => cases hi
      | cons g gs =>
        simp only [Pc.writes] at hi
        split at hi
        · cases hi
        · cases hi
          have hfits := (h.ring r).fits_of_mem hp (uses_eq_true.mpr rfl)
          exact Nat.ne_of_lt (hfits.2.used f hf).1
    | _ => cases hi

/-- In every run in which the callers and the surroundings are careful, no dma-buf is unmapped or
released under a frame that the hardware has, and no descriptor is rewritten that it has. -/
theorem no_dma_into_released_memory (ringSize : Nat) {s : State} {h : List Unit}
    (hr : Reaches prog.step Careful (initial ringSize) s h) : Safe s := by
  have ho : Owned s := by
    refine hr.invariant (fun s _ => Owned s) (owned_initial ringSize) ?_
    intro s h mv s' es _ ho hcareful hs
    exact ho.step hcareful hs
  exact ho.safe

section Runs

def twoPages : DmaBufObj := ⟨8192, [⟨0x8000, 8192⟩], true, true⟩

def oneByOne : List (Move Start Answer) :=
  [.start (.send ⟨0x1000, 4096⟩ 0 16 false), .run 0 .go, .run 0 .go, .run 0 .go, .run 0 .go,
    .run 0 .go, .run 0 .go, .start (.complete .tx 0 true), .start (.dmabuf .tx twoPages 0 8192),
    .run 1 .go, .run 1 .go, .run 1 .go, .run 1 .go, .run 1 .go, .start (.complete .tx 0 true),
    .run 1 .go, .start (.complete .tx 0 true), .run 1 .go, .run 1 .go]

theorem oneByOne_runs : (run prog.step (fun s h mv => decide (Careful s h mv)) (initial 64) []
    oneByOne).isSome = true := by decide +kernel

theorem no_dma_into_released_memory_demo :
    ∃ s h, Reaches prog.step Careful (initial 64) s h ∧ s.pcs = [.done, .unmap .tx 0] ∧ Safe s := by
  have hr := Reaches.of_final Careful (fun _ _ _ h => of_decide_eq_true h) oneByOne_runs
  exact ⟨_, _, hr, by decide +kernel, no_dma_into_released_memory 64 hr⟩

def interrupted : List (Move Start Answer) :=
  [.start (.dmabuf .rx twoPages 0 8192), .run 0 .go, .run 0 .go, .run 0 .go, .run 0 .go, .run 0 .go,
    .run 0 .go, .run 0 .stop]

theorem interrupted_runs : (run prog.step (fun _ _ _ => true) (initial 64) []
    interrupted).isSome = true := by decide +kernel

def brokenOff : List (Move Start Answer) :=
  [.start (.dmabuf .tx twoPages 0 8192), .run 0 .go, .run 0 .go, .run 0 .go, .run 0 .stop]

theorem brokenOff_runs : (run prog.step (fun _ _ _ => true) (initial 64) []
    brokenOff).isSome = true := by decide +kernel

def sendThenDmabuf : List (Move Start Answer) :=
  [.start (.send ⟨0x1000, 4096⟩ 0 16 false), .run 0 .go, .run 0 .go, .run 0 .go, .run 0 .go,
    .run 0 .go, .run 0 .go, .start (.dmabuf .tx twoPages 0 8192)]

theorem sendThenDmabuf_runs : (run prog.step (fun _ _ _ => true) (initial 64) []
    sendThenDmabuf).isSome = true := by decide +kernel

/-- A dma-buf is about to be unmapped, after a signal or after a refusal, while the hardware has a
frame in it; a descriptor of a SEND that has returned is about to be rewritten while the hardware
has it. -/
theorem frames_left_with_the_hardware :
    (∃ s h, Reaches prog.step (fun _ _ _ => True) (initial 64) s h ∧
        s.pcs = [.unmap .rx 0] ∧
        (s.mem.ring .rx).inflight = [⟨0, some (.rx, 0)⟩, ⟨1, some (.rx, 0)⟩] ∧ ¬ Safe s) ∧
      (∃ s h, Reaches prog.step (fun _ _ _ => True) (initial 64) s h ∧
        s.pcs = [.unmap .tx 0] ∧ (s.mem.ring .tx).inflight = [⟨0, some (.tx, 0)⟩] ∧ ¬ Safe s) ∧
      ∃ s h, Reaches prog.step (fun _ _ _ => True) (initial 64) s h ∧
        (∃ todo, s.pcs = [.done, .write .tx (some 0) 0 todo]) ∧
        (s.mem.ring .tx).inflight = [⟨0, none⟩] ∧ ¬ Safe s := by
  refine ⟨⟨_, _, .of_final _ (fun _ _ _ _ => trivial) interrupted_runs, ?_⟩,
    ⟨_, _, .of_final _ (fun _ _ _ _ => trivial) brokenOff_runs, ?_⟩,
    ⟨_, _, .of_final _ (fun _ _ _ _ => trivial) sendThenDmabuf_runs, ?_⟩⟩
  · have hpcs : (final _ _ _ _ interrupted_runs).1.pcs = [.unmap .rx 0] := by decide +kernel
    have hfly : ((final _ _ _ _ interrupted_runs).1.mem.ring .rx).inflight =
        [⟨0, some (.rx, 0)⟩, ⟨1, some (.rx, 0)⟩] := by decide +kernel
    refine ⟨hpcs, hfly, fun hsafe => ?_⟩
    exact hsafe.released (.unmap .rx 0) (by rw [hpcs]; simp) _ rfl .rx ⟨0, some (.rx, 0)⟩
      (by rw [hfly]; simp) rfl
  · have hpcs : (final _ _ _ _ brokenOff_runs).1.pcs = [.unmap .tx 0] := by decide +kernel
    have hfly : ((final _ _ _ _ brokenOff_runs).1.mem.ring .tx).inflight =
        [⟨0, some (.tx, 0)⟩] := by decide +kernel
    refine ⟨hpcs, hfly, fun hsafe => ?_⟩
    exact hsafe.released (.unmap .tx 0) (by rw [hpcs]; simp) _ rfl .tx ⟨0, some (.tx, 0)⟩
      (by rw [hfly]; simp) rfl
  · let todo : List FrameDesc := [⟨0x8000, 4096, 1, 2⟩, ⟨0x9000, 4096, 1, 2⟩]
    have hpcs : (final _ _ _ _ sendThenDmabuf_runs).1.pcs =
        [.done, .write .tx (some 0) 0 todo] := by decide +kernel
    have hfly : ((final _ _ _ _ sendThenDmabuf_runs).1.mem.ring .tx).inflight = [⟨0, none⟩] := by
      decide +kernel
    have hsize : (final _ _ _ _ sendThenDmabuf_runs).1.mem.ringSize = 64 := by decide +kernel
    refine ⟨⟨todo, hpcs⟩, hfly, fun hsafe => ?_⟩
    refine hsafe.written (.write .tx (some 0) 0 todo) (by rw [hpcs]; simp) .tx 0 ?_ ⟨0, none⟩
      (by rw [hfly]; simp) rfl
    rw [hsize]
    rfl

end Runs

end OdinLink.Raw
