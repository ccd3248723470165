import OdinLink.Driver.DescriptorOwners

/-!
# What the TX counters tell

`submitted` and `completed` of the TX ring are also read by POLL_COMPLETION and WAIT_TX, and the
latter takes `completed` away. While the requests on the ring come one at a time, every submission
posts all of its frames or none and nobody takes a count away, the counters say exactly whether a
frame is outstanding.
-/

namespace OdinLink.Raw

open Threads History

structure Completion where
  txCompleted : Int
  rxCompleted : Int
  txSubmitted : Int
  rxSubmitted : Int
  deriving DecidableEq, Repr

inductive CallPc where
  | request (p : Pc)
  | waitTx
  | exchange
  | readTxCompleted
  | readRxCompleted (txCompleted : Int)
  | readTxSubmitted (txCompleted rxCompleted : Int)
  | readRxSubmitted (txCompleted rxCompleted txSubmitted : Int)
  | copyOut (c : Completion)
  | returned
  deriving DecidableEq

inductive Call where
  | raw (x : Start)
  | waitTx
  | pollCompletion

inductive TxEvent where
  | posted
  | completed
  | reported (c : Completion)
  deriving DecidableEq, Repr

def Pc.posts : Pc → Answer → List TxEvent
  | .post .tx _ _ _, .go => [.posted]
  | _, _ => []

def callOp (mem : Mem) : CallPc → Answer → Option (Mem × CallPc × List TxEvent)
  | .request p, x => (op mem p x).map fun r => (r.1, .request r.2.1, p.posts x)
  | .waitTx, .go => if 0 < (mem.ring .tx).completed then some (mem, .exchange, []) else none
  | .waitTx, .stop => some (mem, .returned, [])
  | .exchange, _ =>
    some (mem.set .tx {mem.ring .tx with completed := 0},
      .readRxCompleted (mem.ring .tx).completed, [])
  | .readTxCompleted, _ => some (mem, .readRxCompleted (mem.ring .tx).completed, [])
  | .readRxCompleted txc, _ => some (mem, .readTxSubmitted txc (mem.ring .rx).completed, [])
  | .readTxSubmitted txc rxc, _ =>
    some (mem, .readRxSubmitted txc rxc (mem.ring .tx).submitted, [])
  | .readRxSubmitted txc rxc txs, _ =>
    some (mem, .copyOut ⟨txc, rxc, txs, (mem.ring .rx).submitted⟩, [])
  | .copyOut c, .go => some (mem, .returned, [.reported c])
  | .copyOut _, .stop => some (mem, .returned, [])
  | .returned, _ => none

def Start.completes : Start → List TxEvent
  | .complete .tx _ _ => [.completed]
  | _ => []

def callStart (mem : Mem) : Call → Option (Mem × Option CallPc × List TxEvent)
  | .raw x => (start mem x).map fun r => (r.1, r.2.1.map .request, x.completes)
  | .waitTx => some (mem, some .waitTx, [])
  | .pollCompletion => some (mem, some .readTxCompleted, [])

def callProg : Prog Mem CallPc Call Answer TxEvent := ⟨callStart, callOp⟩

abbrev CallState := Sys Mem CallPc

def callInitial (ringSize : Nat) : CallState := ⟨(initial ringSize).mem, []⟩

/-- The condition that submissions wait for tells whether every frame posted so far is completed. -/
def Tells (ring : Ring) (h : List TxEvent) : Prop :=
  ring.submitted ≤ ring.completed ↔ h.count .posted = h.count .completed

instance (ring : Ring) (h : List TxEvent) : Decidable (Tells ring h) :=
  inferInstanceAs (Decidable (_ ↔ _))

namespace Pc

def uncounted : Pc → Nat
  | write _ _ i _ | post _ _ i _ | add _ _ i => i
  | _ => 0

/-- A request on the TX ring stands between its first frame and the count of its frames, or between
the two assignments that clear the counters. -/
def midway : Pc → Bool
  | clearSubmitted _ => true
  | p => p.uses .tx && decide (0 < p.uncounted)

def waits : Pc → Bool
  | drain _ _ => true
  | wait r _ | test r _ _ => r == .tx
  | _ => false

end Pc

namespace CallPc

def uses : CallPc → Bool
  | request p => p.uses .tx
  | _ => false

def midway : CallPc → Bool
  | request p => p.midway
  | _ => false

def waits : CallPc → Bool
  | request p => p.waits
  | _ => false

end CallPc

/-- No submission is refused after its first frame, for lack of descriptors or by the ring; the
drain of SEND ends early only if there is nothing to drain; `submitted` does not overflow. -/
def CountedOp (mem : Mem) : Pc → Answer → Prop
  | .write .tx (some _) i (_ :: _), _ => mem.ringSize ≤ i → i = 0
  | .post .tx _ i _, .go => (mem.ring .tx).submitted + i + 1 < 2147483648
  | .post .tx _ i _, .stop => i = 0
  | .drain _ _, .stop => (mem.ring .tx).inflight = []
  | _, _ => True

/-- Besides `CountedOp`: requests on the TX ring come one at a time, no frame completes while one of
them stands between its first frame and its count, and WAIT_TX does not take completions away. -/
def Counted (s : CallState) (_ : List TxEvent) : Move Call Answer → Prop
  | .start (.raw (.send _ _ _ _)) => ∀ p ∈ s.pcs, p.uses = false
  | .start (.raw (.dmabuf .tx _ _ _)) => ∀ p ∈ s.pcs, p.uses = false
  | .start (.raw (.complete .tx _ _)) => ∀ p ∈ s.pcs, p.midway = false
  | .start _ => True
  | .run k x =>
    match s.pcs[k]? with
    | some (.request p) => CountedOp s.mem p x
    | some .exchange => (s.mem.ring .tx).completed = 0
    | _ => True

instance (mem : Mem) (p : Pc) (x : Answer) : Decidable (CountedOp mem p x) := by
  unfold CountedOp
  split <;> infer_instance

instance (s : CallState) (h : List TxEvent) (mv : Move Call Answer) :
    Decidable (Counted s h mv) := by
  unfold Counted
  split
  · infer_instance
  · infer_instance
  · infer_instance
  · infer_instance
  · split <;> infer_instance

structure Ring.Balanced (ring : Ring) (pending : Nat) : Prop where
  nonneg : 0 ≤ ring.completed
  le : ring.completed ≤ ring.submitted
  exact : ring.completed + ring.inflight.length = ring.submitted + pending
  small : ring.submitted + pending < 2147483648

def Level (ring : Ring) : Pc → Prop
  | .drain _ sub => ring.Balanced 0 ∧ sub = ring.submitted
  | .clearPosted _ | .clearCompleted _ => ring.Balanced 0 ∧ ring.inflight = []
  | .clearSubmitted _ => ring.inflight = [] ∧ ring.completed = 0 ∧ 0 ≤ ring.submitted
  | p => ring.Balanced p.uncounted

section Step
variable {mem mem' : Mem} {p p' : Pc} {x : Answer} {es : List Unit}
variable {ring : Ring} {m : Option Nat}

theorem Ring.Balanced.drained (h : ring.Balanced 0)
    (hle : ring.submitted ≤ ring.completed) : ring.inflight = [] := by
  have hexact := h.exact
  apply List.eq_nil_of_length_eq_zero
  omega

structure Keeps (mem mem' : Mem) (p' : Pc) (posted : Nat) : Prop where
  level : Level (mem'.ring .tx) p'
  ring : p'.ring = some .tx ∨ p' = .done
  flights : (mem'.ring .tx).inflight.length = (mem.ring .tx).inflight.length + posted

theorem Keeps.set {posted : Nat} (p' : Pc) (h : Level ring p') (hr : p'.ring = some .tx ∨ p' = .done)
    (hlen : ring.inflight.length = (mem.ring .tx).inflight.length + posted := by rfl) :
    Keeps mem (mem.set .tx ring) p' posted := by
  refine ⟨?_, hr, ?_⟩
  · rwa [Mem.set_self]
  · rwa [Mem.set_self]

theorem begin_keeps {plan : Except RawError (List FrameDesc)} (h : (mem'.ring .tx).Balanced 0)
    (hlen : (mem'.ring .tx).inflight.length = (mem.ring .tx).inflight.length) :
    Keeps mem mem' (.begin plan) 0 := by
  cases plan with
  | error e => exact ⟨h, .inr rfl, hlen⟩
  | ok fs => exact ⟨h, .inl rfl, hlen⟩

theorem fail_keeps (h : (mem.ring .tx).Balanced 0) :
    Keeps mem mem (.fail .tx m) 0 := by
  cases m with
  | none => exact ⟨h, .inr rfl, rfl⟩
  | some k => exact ⟨h, .inl rfl, rfl⟩

theorem write_keeps {i : Nat} {todo : List FrameDesc} (h : (mem.ring .tx).Balanced i)
    (hroom : ∀ f fs, todo = f :: fs → m.isSome = true → mem.ringSize ≤ i → i = 0) :
    Keeps mem (mem.writeFrame .tx m i todo).1 (mem.writeFrame .tx m i todo).2 0 := by
  unfold Mem.writeFrame
  split
  · exact ⟨h, .inl rfl, rfl⟩
  · rename_i f fs
    split
    · rename_i hfull
      rw [Bool.and_eq_true, decide_eq_true_iff] at hfull
      obtain rfl := hroom f fs rfl hfull.1 hfull.2
      exact fail_keeps h
    · exact .set (.post .tx m i fs) ⟨h.nonneg, h.le, h.exact, h.small⟩ (.inl rfl)

theorem add_keeps {i : Nat} (h : (mem.ring .tx).Balanced i) :
    Keeps mem (mem.set .tx {mem.ring .tx with
      submitted := atomicInt ((mem.ring .tx).submitted + i)}) (.counted .tx m) 0 := by
  have hexact := h.exact
  have hnonneg := h.nonneg
  have hsmall := h.small
  have hadd : atomicInt ((mem.ring .tx).submitted + i) = (mem.ring .tx).submitted + i := by
    apply atomicInt_of_lt <;> omega
  have hbal : Ring.Balanced {mem.ring .tx with
      submitted := atomicInt ((mem.ring .tx).submitted + i)} 0 := by
    refine ⟨hnonneg, ?_, ?_, ?_⟩
    · simp only [hadd]
      have hle := h.le
      omega
    · simp only [hadd]
      push_cast
      omega
    · simp only [hadd]
      push_cast
      omega
  cases m with
  | none | some k => exact .set _ hbal (.inl rfl)

theorem op_keeps (hp : p.ring = some .tx) (h : Level (mem.ring .tx) p)
    (hcounted : CountedOp mem p x) (hop : op mem p x = some (mem', p', es)) :
    Keeps mem mem' p' ((p.posts x).count .posted) := by
  cases p with
  | check plan =>
    cases hop
    split
    · exact ⟨h, .inl rfl, rfl⟩
    · exact begin_keeps h rfl
  | readSubmitted plan =>
    cases hop
    exact ⟨⟨h, rfl⟩, .inl rfl, rfl⟩
  | drain plan sub =>
    obtain ⟨hbal, rfl⟩ := h
    cases x with
    | go =>
      simp only [op] at hop
      split at hop
      · rename_i hle
        cases hop
        exact ⟨⟨hbal, hbal.drained hle⟩, .inl rfl, rfl⟩
      · cases hop
    | stop =>
      cases hop
      have hnone : (mem.ring .tx).inflight = [] := hcounted
      have hexact := hbal.exact
      rw [hnone] at hexact
      exact .set _ ⟨⟨hbal.nonneg, hbal.le, hexact, hbal.small⟩, rfl⟩ (.inl rfl) (by rw [hnone]; rfl)
  | clearPosted plan =>
    cases hop
    exact .set _ ⟨⟨h.1.nonneg, h.1.le, h.1.exact, h.1.small⟩, h.2⟩ (.inl rfl)
  | clearCompleted plan =>
    cases hop
    exact .set _ ⟨h.2, rfl, h.1.nonneg.trans h.1.le⟩ (.inl rfl)
  | clearSubmitted plan =>
    cases hop
    obtain ⟨hnone, hzero, -⟩ := h
    apply begin_keeps
    · rw [Mem.set_self]
      exact ⟨hzero.ge, hzero.le, by simp [hnone, hzero], by simp⟩
    · rw [Mem.set_self]
  | write r m i todo =>
    cases hp
    cases hop
    refine write_keeps h ?_
    rintro f fs rfl hsome hfull
    obtain ⟨k, rfl⟩ := Option.isSome_iff_exists.mp hsome
    exact hcounted hfull
  | post r m i todo =>
    cases hp
    cases x with
    | go =>
      cases hop
      have hroom : (mem.ring .tx).submitted + i + 1 < 2147483648 := hcounted
      have hbal : (mem.ring .tx).Balanced i := h
      have hexact := hbal.exact
      refine .set (.write .tx m (i + 1) todo) ⟨hbal.nonneg, hbal.le, ?_, ?_⟩ (.inl rfl)
        List.length_append
      · simp only [List.length_append, List.length_singleton, Pc.uncounted]
        push_cast
        omega
      · simp only [Pc.uncounted]
        push_cast
        omega
    | stop =>
      cases hop
      obtain rfl : i = 0 := hcounted
      exact fail_keeps h
  | add r m i =>
    cases hp
    cases hop
    exact add_keeps h
  | setPosted =>
    cases hop
    have hbal : (mem.ring .tx).Balanced 0 := h
    exact .set .done ⟨hbal.nonneg, hbal.le, hbal.exact, hbal.small⟩ (.inr rfl)
  | wait r m =>
    cases hp
    cases x <;> cases hop <;> exact ⟨h, .inl rfl, rfl⟩
  | test r m completed =>
    cases hp
    cases hop
    split <;> exact ⟨h, .inl rfl, rfl⟩
  | unmap r m | detach r m =>
    cases hp
    cases hop
    exact ⟨h, .inl rfl, rfl⟩
  | put r m =>
    cases hop
    exact ⟨h, .inr rfl, rfl⟩
  | done => cases hop

def Pc.Proper : Pc → Prop
  | .write r m _ _ | .post r m _ _ | .add r m _ => m = none → r = .tx
  | _ => True

theorem Pc.proper_of_ring (h : p.ring = some .tx ∨ p = .done) : p.Proper := by
  rcases h with h | rfl
  · cases p with
    | write r m i todo | post r m i todo | add r m i => exact fun _ => Option.some.inj h
    | _ => trivial
  · trivial

theorem Mem.set_rx (mem : Mem) (ring : Ring) : (mem.set .rx ring).ring .tx = mem.ring .tx :=
  mem.set_other (by simp) ring

theorem RingId.eq_rx {r : RingId} (h : (some r == some RingId.tx) = false) : r = .rx := by
  cases r with
  | tx => cases h
  | rx => rfl

theorem op_other (hp : p.uses .tx = false) (hproper : p.Proper)
    (hop : op mem p x = some (mem', p', es)) :
    mem'.ring .tx = mem.ring .tx ∧ p'.uses .tx = false ∧ p'.Proper ∧ p.posts x = [] := by
  have hsome {m : Option Nat} (h : m = none → RingId.rx = .tx) : ∃ k, m = some k := by
    cases m with
    | none => cases h rfl
    | some k => exact ⟨k, rfl⟩
  cases p with
  | write r m i todo =>
    obtain rfl := RingId.eq_rx hp
    obtain ⟨k, rfl⟩ := hsome hproper
    cases hop
    unfold Mem.writeFrame
    split
    · exact ⟨rfl, rfl, hproper, rfl⟩
    · split
      · exact ⟨rfl, rfl, trivial, rfl⟩
      · exact ⟨mem.set_rx _, rfl, hproper, rfl⟩
  | post r m i todo =>
    obtain rfl := RingId.eq_rx hp
    obtain ⟨k, rfl⟩ := hsome hproper
    cases x with
    | go =>
      cases hop
      exact ⟨mem.set_rx _, rfl, hproper, rfl⟩
    | stop =>
      cases hop
      exact ⟨rfl, rfl, trivial, rfl⟩
  | add r m i =>
    obtain rfl := RingId.eq_rx hp
    obtain ⟨k, rfl⟩ := hsome hproper
    cases hop
    exact ⟨mem.set_rx _, rfl, trivial, rfl⟩
  | wait r m =>
    obtain rfl := RingId.eq_rx hp
    cases x <;> cases hop <;> exact ⟨rfl, rfl, trivial, rfl⟩
  | test r m completed =>
    obtain rfl := RingId.eq_rx hp
    cases hop
    split <;> exact ⟨rfl, rfl, trivial, rfl⟩
  | unmap r m | detach r m =>
    obtain rfl := RingId.eq_rx hp
    cases hop
    exact ⟨rfl, rfl, trivial, rfl⟩
  | put r m =>
    cases hop
    exact ⟨rfl, rfl, trivial, rfl⟩
  | done => cases hop
  | _ => cases hp

theorem Ring.Balanced.completes {k : Nat} (h : ring.Balanced 0)
    (hk : k < ring.inflight.length) : (ring.completes k true).Balanced 0 := by
  have hnonneg := h.nonneg
  have hexact := h.exact
  have hsmall := h.small
  have hadd : atomicInt (ring.completed + 1) = ring.completed + 1 := by
    apply atomicInt_of_lt <;> omega
  have hlen : ((ring.inflight.eraseIdx k).length : Int) = ring.inflight.length - 1 := by
    rw [List.length_eraseIdx_of_lt hk]
    omega
  refine ⟨?_, ?_, ?_, hsmall⟩
  · simp only [Ring.completes, if_true, hadd]
    omega
  · simp only [Ring.completes, if_true, hadd]
    omega
  · simp only [Ring.completes, if_true, hadd, hlen]
    omega

theorem Pc.uncounted_eq_zero (hu : p.uses .tx = true) (hm : p.midway = false) :
    p.uncounted = 0 := by
  cases p with
  | write r m i todo | post r m i todo | add r m i =>
    simp only [Pc.midway, hu, Bool.true_and, decide_eq_false_iff_not] at hm
    exact Nat.eq_zero_of_not_pos hm
  | _ => rfl

theorem Level.balanced (h : Level ring p) (hu : p.uses .tx = true)
    (hm : p.midway = false) : ring.Balanced 0 := by
  have hzero := Pc.uncounted_eq_zero hu hm
  cases p with
  | drain plan sub | clearPosted plan | clearCompleted plan => exact h.1
  | clearSubmitted plan => cases hm
  | _ => exact hzero ▸ h

theorem Level.completed_le (h : Level ring p) : ring.completed ≤ ring.submitted := by
  cases p with
  | drain plan sub | clearPosted plan | clearCompleted plan => exact h.1.le
  | clearSubmitted plan => exact h.2.1.trans_le h.2.2
  | _ => exact Ring.Balanced.le h

theorem completes_level {k : Nat} (hk : k < ring.inflight.length) (hu : p.uses .tx = true)
    (hm : p.midway = false) (h : Level ring p) : Level (ring.completes k true) p := by
  have hne : ring.inflight ≠ [] := List.ne_nil_of_length_pos (by omega)
  have hbal := (h.balanced hu hm).completes hk
  rw [← Pc.uncounted_eq_zero hu hm] at hbal
  cases p with
  | drain plan sub => exact ⟨hbal, h.2⟩
  | clearPosted plan | clearCompleted plan => exact absurd h.2 hne
  | clearSubmitted plan => cases hm
  | _ => exact hbal

end Step

def CallLevel (ring : Ring) : CallPc → Prop
  | .request p => Level ring p
  | _ => True

/-- One request at a time on the TX ring, with the counters in order, and the hardware has the
frames that were posted and are not completed. -/
structure InOrder (s : CallState) (h : List TxEvent) : Prop where
  ring : Exclusive CallPc.uses (CallLevel (s.mem.ring .tx)) ((s.mem.ring .tx).Balanced 0) s.pcs
  proper : ∀ p, .request p ∈ s.pcs → p.Proper
  flights : h.count .posted = h.count .completed + (s.mem.ring .tx).inflight.length

theorem inOrder_initial (ringSize : Nat) : InOrder (callInitial ringSize) [] := by
  refine ⟨.inr ⟨?_, ?_⟩, ?_, rfl⟩
  · intro q hq
    cases hq
  · exact ⟨le_rfl, le_rfl, rfl, by simp [callInitial, initial, Ring.initial]⟩
  · intro p hp
    cases hp

section Calls
variable {s : CallState} {h : List TxEvent}
variable {mem' : Mem} {es : List TxEvent}

theorem dmabuf_begins (b : DmaBufObj) (r : RingId) (offset : Int64) (len : UInt64) :
    ∃ p, start s.mem (.dmabuf r b offset len) =
        some ({s.mem with maps := s.mem.maps + 1}, some p, []) ∧
      p.ring = some r ∧ p.Proper ∧ ∀ ring : Ring, ring.Balanced 0 → Level ring p := by
  refine ⟨_, rfl, ?_⟩
  split
  · unfold unusable
    split
    · exact ⟨rfl, trivial, fun _ h => h⟩
    · split
      · exact ⟨rfl, trivial, fun _ h => h⟩
      · exact ⟨rfl, trivial, fun _ h => h⟩
  · exact ⟨rfl, by simp [Pc.Proper], fun _ h => h⟩

theorem InOrder.begins (ho : InOrder s h) (p : Pc) (maps : Nat)
    (hnone : ∀ q ∈ s.pcs, q.uses = false) (hproper : p.Proper)
    (hlevel : (s.mem.ring .tx).Balanced 0 → Level (s.mem.ring .tx) p) :
    InOrder ⟨{s.mem with maps := maps}, s.pcs ++ [.request p]⟩ h := by
  have hbal := ho.ring.idle_of_none hnone
  refine ⟨.start hnone (fun _ => hlevel hbal) (fun _ => hbal), fun q hq => ?_, ho.flights⟩
  rcases List.mem_append.mp hq with hq | hq
  · exact ho.proper q hq
  · cases List.mem_singleton.mp hq
    exact hproper

theorem InOrder.begins_other (ho : InOrder s h) (p : CallPc) (maps : Nat) (hp : p.uses = false)
    (hproper : ∀ q, p = .request q → q.Proper) :
    InOrder ⟨{s.mem with maps := maps}, s.pcs ++ [p]⟩ h := by
  refine ⟨ho.ring.start_other ?_, fun q hq => ?_, ho.flights⟩
  · intro q hq
    rw [List.mem_singleton.mp hq]
    exact hp
  · rcases List.mem_append.mp hq with hq | hq
    · exact ho.proper q hq
    · exact hproper q (List.mem_singleton.mp hq).symm

theorem InOrder.completes (ho : InOrder s h) {r : RingId} {k : Nat} {counted : Bool}
    (hc : complete s.mem r k counted = some mem')
    (hnone : r = .tx → ∀ p ∈ s.pcs, p.midway = false) :
    InOrder ⟨mem', s.pcs⟩ (h ++ Start.completes (.complete r k counted)) := by
  obtain ⟨hk, rfl⟩ := complete_eq_some hc
  cases r with
  | rx =>
    refine ⟨?_, ho.proper, ?_⟩
    · simp only [Mem.set_rx]
      exact ho.ring
    · simp only [Mem.set_rx, Start.completes, List.append_nil]
      exact ho.flights
  | tx =>
    have hcounted : counted = true := by
      cases counted with
      | true => rfl
      | false => simp [complete] at hc
    subst hcounted
    refine ⟨?_, ho.proper, ?_⟩
    · simp only [Mem.set_self]
      refine ho.ring.mono (fun p hmem hu hp => ?_) (fun hbal => hbal.completes hk)
      cases p with
      | request p => exact completes_level hk hu (hnone rfl _ hmem) hp
      | _ => trivial
    · have hflights := ho.flights
      have hlen : ((s.mem.ring .tx).inflight.eraseIdx k).length =
          (s.mem.ring .tx).inflight.length - 1 := List.length_eraseIdx_of_lt hk
      have hposted : [TxEvent.completed].count .posted = 0 := rfl
      have hdone : [TxEvent.completed].count .completed = 1 := rfl
      simp only [Mem.set_self, Start.completes, List.count_append, Ring.completes, hlen, hposted,
        hdone]
      omega

structure Aside (mem mem' : Mem) (p' : CallPc) (es : List TxEvent) : Prop where
  ring : mem'.ring .tx = mem.ring .tx
  uses : p'.uses = false
  proper : ∀ q, p' = .request q → q.Proper
  posted : es.count .posted = 0
  completed : es.count .completed = 0

theorem InOrder.aside (ho : InOrder s h) {i : Nat} {p p' : CallPc} (hi : s.pcs[i]? = some p)
    (hp : p.uses = false) (ha : Aside s.mem mem' p' es) :
    InOrder ⟨mem', s.pcs.set i p'⟩ (h ++ es) := by
  refine ⟨?_, fun q hq => ?_, ?_⟩
  · simp only [ha.ring]
    exact ho.ring.run_other hi hp ha.uses
  · rcases mem_set_cases hq with hq | ⟨j, -, hj⟩
    · exact ha.proper q hq.symm
    · exact ho.proper q (List.mem_of_getElem? hj)
  · simp only [ha.ring, List.count_append, ha.posted, ha.completed]
    exact ho.flights

theorem callOp_aside {p p' : CallPc} {mem mem' : Mem} {x : Answer}
    (hp : ∀ q, p ≠ .request q) (hzero : p = .exchange → (mem.ring .tx).completed = 0)
    (hop : callOp mem p x = some (mem', p', es)) : Aside mem mem' p' es := by
  cases p with
  | request q => exact absurd rfl (hp q)
  | waitTx =>
    cases x with
    | go =>
      simp only [callOp] at hop
      split at hop
      · cases hop
        exact ⟨rfl, rfl, by simp, rfl, rfl⟩
      · cases hop
    | stop =>
      cases hop
      exact ⟨rfl, rfl, by simp, rfl, rfl⟩
  | exchange =>
    cases hop
    refine ⟨?_, rfl, by simp, rfl, rfl⟩
    rw [Mem.set_self, ← hzero rfl]
  | copyOut c =>
    cases x <;> cases hop <;> exact ⟨rfl, rfl, by simp, rfl, rfl⟩
  | returned => cases hop
  | _ =>
    cases hop
    exact ⟨rfl, rfl, by simp, rfl, rfl⟩

theorem posts_completed (p : Pc) (x : Answer) : (p.posts x).count .completed = 0 := by
  unfold Pc.posts
  split <;> rfl

theorem InOrder.request (ho : InOrder s h) {i : Nat} {p p' : Pc} {x : Answer}
    {es : List Unit} (hi : s.pcs[i]? = some (.request p)) (hcounted : CountedOp s.mem p x)
    (hop : op s.mem p x = some (mem', p', es)) :
    InOrder ⟨mem', s.pcs.set i (.request p')⟩ (h ++ p.posts x) := by
  have hmem := List.mem_of_getElem? hi
  have hothers (hproper : p'.Proper) : ∀ q, .request q ∈ s.pcs.set i (.request p') → q.Proper := by
    intro q hq
    rcases mem_set_cases hq with hq | ⟨j, -, hj⟩
    · cases hq
      exact hproper
    · exact ho.proper q (List.mem_of_getElem? hj)
  have hflights := ho.flights
  cases hu : p.uses .tx with
  | true =>
    have hlevel : Level (s.mem.ring .tx) p := ho.ring.fits_of_mem hmem hu
    have hkeeps := op_keeps (uses_eq_true.mp hu) hlevel hcounted hop
    refine ⟨?_, hothers (Pc.proper_of_ring hkeeps.ring), ?_⟩
    · refine ho.ring.run hi hu (fun _ => hkeeps.level) fun hu' => ?_
      obtain hr | rfl := hkeeps.ring
      · exact absurd (uses_eq_true.mpr hr) (by rw [show p'.uses .tx = false from hu']; simp)
      · exact hkeeps.level
    · simp only [List.count_append, posts_completed, hkeeps.flights]
      omega
  | false =>
    obtain ⟨hring, hu', hproper, hposts⟩ := op_other hu (ho.proper p hmem) hop
    simp only [hposts, List.append_nil]
    refine ⟨?_, hothers hproper, ?_⟩
    · simp only [hring]
      exact ho.ring.run_other hi hu hu'
    · rwa [hring]

theorem InOrder.step {s' : CallState} {mv : Move Call Answer}
    (ho : InOrder s h) (hcounted : Counted s h mv) (hs : callProg.step s mv = some (s', es)) :
    InOrder s' (h ++ es) := by
  cases mv with
  | start x =>
    obtain ⟨m, o, hstart, rfl⟩ := step_start.mp hs
    cases x with
    | waitTx | pollCompletion =>
      cases hstart
      rw [List.append_nil]
      exact ho.begins_other _ s.mem.maps rfl (by simp)
    | raw x =>
      obtain ⟨⟨m', o', u⟩, hx, hr⟩ := Option.map_eq_some_iff.mp hstart
      cases hr
      cases x with
      | send buf offset len ctrl =>
        cases hx
        change InOrder _ (h ++ [])
        rw [List.append_nil]
        exact ho.begins (.check (bufFrames buf offset len ctrl)) s.mem.maps hcounted trivial id
      | dmabuf r b offset len =>
        obtain ⟨p, hp, hring, hproper, hlevel⟩ := dmabuf_begins (s := s) b r offset len
        cases hp.symm.trans hx
        change InOrder _ (h ++ [])
        rw [List.append_nil]
        cases r with
        | tx => exact ho.begins p _ hcounted hproper (hlevel _)
        | rx =>
          refine ho.begins_other (.request p) _ ?_ ?_
          · exact uses_eq_false.mpr (by rw [hring]; simp)
          · rintro q hq
            cases hq
            exact hproper
      | complete r k counted =>
        obtain ⟨mem', hc, hmem⟩ := Option.map_eq_some_iff.mp hx
        cases hmem
        have hnone : r = .tx → ∀ p ∈ s.pcs, p.midway = false := by
          rintro rfl
          exact hcounted
        simpa using ho.completes hc hnone
  | run i x =>
    obtain ⟨p, m, p', hi, hop, rfl⟩ := step_run.mp hs
    change callOp s.mem p x = _ at hop
    cases p with
    | request p =>
      obtain ⟨⟨m', q, u⟩, hx, hr⟩ := Option.map_eq_some_iff.mp hop
      cases hr
      exact ho.request hi (by simpa only [Counted, hi] using hcounted) hx
    | exchange =>
      have hzero : (s.mem.ring .tx).completed = 0 := by simpa only [Counted, hi] using hcounted
      exact ho.aside hi rfl (callOp_aside (by simp) (fun _ => hzero) hop)
    | _ => exact ho.aside hi rfl (callOp_aside (by simp) (by simp) hop)

end Calls

theorem CallPc.uses_of_waits {p : CallPc} (h : p.waits = true) :
    p.uses = true ∧ p.midway = false := by
  cases p with
  | request p =>
    cases p with
    | drain plan sub => exact ⟨rfl, rfl⟩
    | wait r | test r =>
      cases r with
      | tx => exact ⟨rfl, rfl⟩
      | rx => cases h
    | _ => cases h
  | _ => cases h

section Read
variable {s : CallState} {h : List TxEvent}

theorem InOrder.completed_le (ho : InOrder s h) :
    (s.mem.ring .tx).completed ≤ (s.mem.ring .tx).submitted := by
  obtain ⟨i, q, -, hu, hfits, -⟩ | ⟨-, hbal⟩ := ho.ring
  · cases q with
    | request q => exact Level.completed_le hfits
    | _ => cases hu
  · exact hbal.le

theorem InOrder.tells (ho : InOrder s h)
    (hrest : (∃ p ∈ s.pcs, p.waits = true) ∨ ∀ p ∈ s.pcs, p.midway = false) :
    Tells (s.mem.ring .tx) h := by
  have hbal : (s.mem.ring .tx).Balanced 0 := by
    obtain ⟨i, q, hi, hu, hfits, honly⟩ | ⟨-, hbal⟩ := ho.ring
    · have hmid : q.midway = false := by
        obtain ⟨p, hp, hw⟩ | hnone := hrest
        · -- the one that waits is the one that uses the ring
          obtain ⟨j, hj⟩ := List.getElem?_of_mem hp
          obtain ⟨hu', hm⟩ := CallPc.uses_of_waits hw
          rw [honly j p hj hu', hi] at hj
          exact Option.some.inj hj ▸ hm
        · exact hnone q (List.mem_of_getElem? hi)
      cases q with
      | request q => exact Level.balanced hfits hu hmid
      | _ => cases hu
    · exact hbal
  have hexact := hbal.exact
  have hle := hbal.le
  have hflights := ho.flights
  unfold Tells
  omega

end Read

/-- In every run in which the callers and the surroundings respect `Counted`, no more frames are
completed than were submitted, and whenever a request waits for the counters, or none is midway, they
tell whether every frame posted so far is completed. -/
theorem tx_counters_tell (ringSize : Nat) {s : CallState} {h : List TxEvent}
    (hr : Reaches callProg.step Counted (callInitial ringSize) s h) :
    (s.mem.ring .tx).completed ≤ (s.mem.ring .tx).submitted ∧
    ((∃ p ∈ s.pcs, p.waits = true) ∨ (∀ p ∈ s.pcs, p.midway = false) →
      Tells (s.mem.ring .tx) h) := by
  have ho : InOrder s h := by
    refine hr.invariant InOrder (inOrder_initial ringSize) ?_
    intro s h mv s' es _ ho hcounted hs
    exact ho.step hcounted hs
  exact ⟨ho.completed_le, ho.tells⟩

section CountedRuns

def sendOne : List (Move Call Answer) :=
  .start (.raw (.send ⟨0x1000, 4096⟩ 0 16 false)) :: List.replicate 6 (.run 0 .go)

def polled : List (Move Call Answer) :=
  sendOne ++ [Move.start (Call.raw (.complete .tx 0 true)), .start .pollCompletion] ++
    List.replicate 5 (Move.run 1 Answer.go) ++
    [Move.start (Call.raw (.dmabuf .tx twoPages 0 8192))] ++
    List.replicate 6 (Move.run 2 Answer.go)

theorem polled_runs : (run callProg.step (fun s h mv => decide (Counted s h mv)) (callInitial 64) []
    polled).isSome = true := by decide +kernel

theorem tx_counters_tell_polled :
    ∃ s h, Reaches callProg.step Counted (callInitial 64) s h ∧
      s.pcs = [.request .done, .returned, .request (.wait .tx 0)] ∧
      .reported ⟨1, 0, 1, 0⟩ ∈ h ∧
      (s.mem.ring .tx).completed ≤ (s.mem.ring .tx).submitted ∧ Tells (s.mem.ring .tx) h := by
  have hr := Reaches.of_final Counted (fun _ _ _ h => of_decide_eq_true h) polled_runs
  have hpcs : (final _ _ _ _ polled_runs).1.pcs =
      [.request .done, .returned, .request (.wait .tx 0)] := by decide +kernel
  obtain ⟨hle, htells⟩ := tx_counters_tell 64 hr
  refine ⟨_, _, hr, hpcs, by decide +kernel, hle, htells (.inl ?_)⟩
  exact ⟨.request (.wait .tx 0), by rw [hpcs]; simp, rfl⟩

def taken : List (Move Call Answer) :=
  sendOne ++ [Move.start (Call.raw (.complete .tx 0 true)), .start .waitTx] ++
    List.replicate 6 (Move.run 1 Answer.go)

def halfSent : List (Move Call Answer) :=
  [.start (.raw (.dmabuf .tx twoPages 0 8192)), .run 0 .go, .run 0 .go, .run 0 .go, .run 0 .stop,
    .run 0 .go, .run 0 .go, .run 0 .go, .start (.raw (.complete .tx 0 true))]

/-- No call is at work. The only frame is completed and the counters say that it is outstanding;
more frames are completed than were submitted. -/
theorem tx_counters_mislead :
    (∃ s h, Reaches callProg.step (fun _ _ _ => True) (callInitial 64) s h ∧
        s.pcs = [.request .done, .returned] ∧ h.count .posted = 1 ∧ h.count .completed = 1 ∧
        (s.mem.ring .tx).submitted = 1 ∧ (s.mem.ring .tx).completed = 0 ∧
        ¬ Tells (s.mem.ring .tx) h) ∧
      ∃ s h, Reaches callProg.step (fun _ _ _ => True) (callInitial 64) s h ∧
        s.pcs = [.request .done] ∧ (s.mem.ring .tx).submitted = 0 ∧
        (s.mem.ring .tx).completed = 1 := by
  refine ⟨⟨_, _, .of_free taken (by decide +kernel), ?_⟩,
    ⟨_, _, .of_free halfSent (by decide +kernel), ?_⟩⟩
  · decide +kernel
  · decide +kernel

end CountedRuns

end OdinLink.Raw
