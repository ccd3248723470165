import OdinLink.Driver.RawFrames
import OdinLink.Lib.Exclusive

/-!
# Raw requests side by side

SEND, SEND_DMABUF, STREAM_SEND_DMABUF and RECV_DMABUF take no lock. They share, for each ring, one
array of descriptors, the counters `submitted` and `completed` and the flag `frames_posted`, and
each of their accesses to these is a step of its own here.
-/

namespace OdinLink.Raw

open Threads

inductive RingId where
  | tx
  | rx
  deriving DecidableEq, Repr

/-- A descriptor the hardware has, with the dma-buf mapping its frame points into; frames of SEND
point into the buffer of the ring. -/
structure Flight where
  idx : Nat
  mapping : Option (RingId × Nat)
  deriving DecidableEq, Repr

structure Ring where
  frames : Nat → Option FrameDesc
  inflight : List Flight
  submitted : Int
  completed : Int
  framesPosted : Bool

def Ring.initial : Ring := ⟨fun _ => none, [], 0, 0, false⟩

/-- `atomic_t` is an `int`. -/
def atomicInt (x : Int) : Int := (x + 2147483648) % 4294967296 - 2147483648

theorem atomicInt_of_lt {x : Int} (h0 : -2147483648 ≤ x) (h1 : x < 2147483648) :
    atomicInt x = x := by
  unfold atomicInt
  omega

structure Mem where
  ring : RingId → Ring
  ringSize : Nat
  maps : Nat

def Mem.set (m : Mem) (r : RingId) (ring : Ring) : Mem :=
  {m with ring := Function.update m.ring r ring}

/-- Where a request stands. `m` is the number of its mapping, `none` for SEND; `i` frames have been
posted and `todo` are left. -/
inductive Pc where
  | check (plan : Except RawError (List FrameDesc))
  | readSubmitted (plan : Except RawError (List FrameDesc))
  | drain (plan : Except RawError (List FrameDesc)) (sub : Int)
  | clearPosted (plan : Except RawError (List FrameDesc))
  | clearCompleted (plan : Except RawError (List FrameDesc))
  | clearSubmitted (plan : Except RawError (List FrameDesc))
  | write (r : RingId) (m : Option Nat) (i : Nat) (todo : List FrameDesc)
  | post (r : RingId) (m : Option Nat) (i : Nat) (todo : List FrameDesc)
  | add (r : RingId) (m : Option Nat) (i : Nat)
  | setPosted
  | wait (r : RingId) (m : Nat)
  | test (r : RingId) (m : Nat) (completed : Int)
  | unmap (r : RingId) (m : Nat)
  | detach (r : RingId) (m : Nat)
  | put (r : RingId) (m : Nat)
  | done
  deriving DecidableEq

namespace Pc

def ring : Pc → Option RingId
  | check _ | readSubmitted _ | drain _ _ | clearPosted _ | clearCompleted _ | clearSubmitted _
  | setPosted => some .tx
  | write r _ _ _ | post r _ _ _ | add r _ _ | wait r _ | test r _ _ | unmap r _ | detach r _
  | put r _ => some r
  | done => none

def uses (r : RingId) (p : Pc) : Bool := p.ring == some r

def begin : Except RawError (List FrameDesc) → Pc
  | .error _ => done
  | .ok fs => write .tx none 0 fs

def counted (r : RingId) : Option Nat → Pc
  | none => setPosted
  | some m => wait r m

def fail (r : RingId) : Option Nat → Pc
  | none => done
  | some m => unmap r m

end Pc

/-- Requests, and completions of the hardware: of the `k`-th frame it has. A received frame is not
counted when it is taken for a control message. -/
inductive Start where
  | send (buf : DmaBuf) (offset len : UInt64) (ctrl : Bool)
  | dmabuf (r : RingId) (b : DmaBufObj) (offset : Int64) (len : UInt64)
  | complete (r : RingId) (k : Nat) (counted : Bool)

inductive Answer where
  | go
  | stop
  deriving DecidableEq, Repr

def Mem.writeFrame (mem : Mem) (r : RingId) (m : Option Nat) (i : Nat) (todo : List FrameDesc) :
    Mem × Pc :=
  match todo with
  | [] => (mem, .add r m i)
  | f :: fs =>
    if m.isSome && decide (mem.ringSize ≤ i) then (mem, .fail r m)
    else
      let ring := mem.ring r
      (mem.set r {ring with frames := Function.update ring.frames i (some f)}, .post r m i fs)

def op (mem : Mem) : Pc → Answer → Option (Mem × Pc × List Unit)
  | .check plan, _ =>
    some (mem, if (mem.ring .tx).framesPosted then .readSubmitted plan else .begin plan, [])
  | .readSubmitted plan, _ => some (mem, .drain plan (mem.ring .tx).submitted, [])
  | .drain plan sub, .go =>
    if sub ≤ (mem.ring .tx).completed then some (mem, .clearPosted plan, []) else none
  | .drain plan _, .stop =>
    -- stopping the ring cancels every frame it has
    some (mem.set .tx {mem.ring .tx with inflight := []}, .clearPosted plan, [])
  | .clearPosted plan, _ =>
    some (mem.set .tx {mem.ring .tx with framesPosted := false}, .clearCompleted plan, [])
  | .clearCompleted plan, _ =>
    some (mem.set .tx {mem.ring .tx with completed := 0}, .clearSubmitted plan, [])
  | .clearSubmitted plan, _ =>
    some (mem.set .tx {mem.ring .tx with submitted := 0}, .begin plan, [])
  | .write r m i todo, _ =>
    let x := mem.writeFrame r m i todo
    some (x.1, x.2, [])
  | .post r m i todo, .go =>
    let ring := mem.ring r
    some (mem.set r {ring with inflight := ring.inflight ++ [⟨i, m.map fun k => (r, k)⟩]},
      .write r m (i + 1) todo, [])
  | .post r m _ _, .stop => some (mem, .fail r m, [])
  | .add r m i, _ =>
    let ring := mem.ring r
    some (mem.set r {ring with submitted := atomicInt (ring.submitted + i)}, .counted r m, [])
  | .setPosted, _ => some (mem.set .tx {mem.ring .tx with framesPosted := true}, .done, [])
  | .wait r m, .go => some (mem, .test r m (mem.ring r).completed, [])
  | .wait r m, .stop => some (mem, .unmap r m, [])
  | .test r m completed, _ =>
    some (mem, if (mem.ring r).submitted ≤ completed then .unmap r m else .wait r m, [])
  | .unmap r m, _ => some (mem, .detach r m, [])
  | .detach r m, _ => some (mem, .put r m, [])
  | .put _ _, _ => some (mem, .done, [])
  | .done, _ => none

def unusable (b : DmaBufObj) (r : RingId) (m : Nat) (offset : Int64) (len : UInt64) : Pc :=
  if offset < 0 ∨ len = 0 ∨ b.size < offset.toUInt64 + len then .put r m
  else if !b.attaches then .put r m
  else .detach r m

def complete (mem : Mem) (r : RingId) (k : Nat) (counted : Bool) : Option Mem :=
  let ring := mem.ring r
  if r = .tx ∧ counted = false then none
  else if k < ring.inflight.length then
    some (mem.set r {ring with
      inflight := ring.inflight.eraseIdx k,
      completed := if counted then atomicInt (ring.completed + 1) else ring.completed})
  else none

def start (mem : Mem) : Start → Option (Mem × Option Pc × List Unit)
  | .send buf offset len ctrl => some (mem, some (.check (bufFrames buf offset len ctrl)), [])
  | .dmabuf r b offset len =>
    some ({mem with maps := mem.maps + 1},
      some (match b.frames offset len with
        | .error _ => unusable b r mem.maps offset len
        | .ok fs => .write r (some mem.maps) 0 fs), [])
  | .complete r k counted => (complete mem r k counted).map fun m => (m, none, [])

def prog : Prog Mem Pc Start Answer Unit := ⟨start, op⟩

abbrev State := Sys Mem Pc

def initial (ringSize : Nat) : State := ⟨⟨fun _ => .initial, ringSize, 0⟩, []⟩

def Pc.releases : Pc → Option (RingId × Nat)
  | .unmap r m | .detach r m | .put r m => some (r, m)
  | _ => none

def Pc.writes (ringSize : Nat) : Pc → Option (RingId × Nat)
  | .write r m i (_ :: _) => if m.isSome && decide (ringSize ≤ i) then none else some (r, i)
  | _ => none

structure Safe (s : State) : Prop where
  released : ∀ p ∈ s.pcs, ∀ m, p.releases = some m →
    ∀ r, ∀ f ∈ (s.mem.ring r).inflight, f.mapping ≠ some m
  written : ∀ p ∈ s.pcs, ∀ r i, p.writes s.mem.ringSize = some (r, i) →
    ∀ f ∈ (s.mem.ring r).inflight, f.idx ≠ i

end OdinLink.Raw
