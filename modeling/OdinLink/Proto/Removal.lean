import OdinLink.Proto.Changes

/-!
# From probe to removal

The control channel finds a device by its route as long as it is on the list of devices. The removal
cancels the work items one after the other, stops the rings, gives the input hop back and takes the
device off the list only then.
-/

namespace OdinLink.Proto

open Node

inductive RemovePc where
  | disconnect
  | sendLogout
  | cancel (w : Worker)
  | flush (w : Worker)
  | disablePaths
  | stopRings
  | testHop
  | releaseHop
  | unlist
  | free
  | freed
  deriving DecidableEq, Repr

/-- A probed device, and where its removal stands. -/
structure Bound where
  node : Node
  listed : Bool
  removing : Bool
  removal : Option RemovePc
  deriving DecidableEq, Repr

/-- The end of the probe puts the device on the list. The removal reads whether the module is
being unloaded. -/
inductive BoundAct where
  | node (a : Act)
  | list
  | remove
  | removal (exiting : Bool)
  deriving DecidableEq, Repr

namespace Bound

def probe (ring : Nat) (hop : Int32) : Bound := ⟨protoInit ring hop, false, false, none⟩

def afterFlush : Worker → RemovePc
  | .verify => .cancel .ctrlReply
  | .ctrlReply => .cancel .restart
  | .restart => .cancel .connect
  | .connect => .cancel .login
  | .login => .disablePaths

def removeStep (b : Bound) (exiting : Bool) : RemovePc → Option (Bound × List Event)
  | .disconnect =>
    let next : RemovePc :=
      if b.node.state = .connected ∨ b.node.state = .ready then .sendLogout else .cancel .verify
    some ({b with node := {b.node with state := .disconnected}, removal := some next}, [])
  | .sendLogout =>
    some ({b with node := {b.node with state := .disconnected},
                  removal := some (.cancel .verify)}, [])
  | .cancel w =>
    some ({b with node := b.node.setPending w false, removal := some (.flush w)}, [])
  | .flush w =>
    if b.node.running w then none else some ({b with removal := some (afterFlush w)}, [])
  | .disablePaths =>
    some ({b with removal := some .stopRings},
      if exiting && b.node.inHopidValid && b.node.ringsPresent then
        [.pathsDisabled b.node.inHopid] else [])
  | .stopRings => some ({b with node := b.node.ringsStop, removal := some .testHop}, [])
  | .testHop =>
    some ({b with removal := some (if b.node.inHopidValid then .releaseHop else .unlist)}, [])
  | .releaseHop =>
    some ({b with node := {b.node with inHopidValid := false}, removal := some .unlist},
      [.hopReleased b.node.inHopid])
  | .unlist => some ({b with listed := false, removal := some .free}, [])
  | .free => some ({b with removal := some .freed}, [])
  | .freed => none

def nodeStep (cfg : Config) (b : Bound) : Act → Option (Node × List Event)
  | .verify ok =>
    if b.removing && b.node.verifyWork.running = some .outReset then
      some (b.node.verifyTo none, [])
    else b.node.step cfg (.verify ok)
  | a => b.node.step cfg a

def blocked (b : Bound) (s : Node) : Node :=
  match b.removal with
  | some (.flush w) => s.setPending w false
  | _ => s

/-- Whether an act can still happen to the device: packets find it on the list only, and nothing
is left of it once it is freed. -/
def reaches (b : Bound) : Act → Bool
  | .packet _ _ => b.listed && b.removal ≠ some .freed
  | _ => b.removal ≠ some .freed

def step (cfg : Config) (b : Bound) : BoundAct → Option (Bound × List Event)
  | .node a =>
    if b.reaches a then
      (b.nodeStep cfg a).map fun r => ({b with node := b.blocked r.1}, r.2)
    else none
  | .list =>
    if b.listed || b.removal.isSome then none else some ({b with listed := true}, [])
  | .remove =>
    if b.listed && b.removal.isNone then
      some ({b with removing := true, removal := some .disconnect}, [])
    else none
  | .removal exiting => b.removal.bind (b.removeStep exiting)

end Bound

section Inversion
variable {cfg : Config} {b b' : Bound} {es : List Event}

theorem Bound.step_node {a : Act} : b.step cfg (.node a) = some (b', es) ↔
    b.reaches a = true ∧ ∃ s, b.nodeStep cfg a = some (s, es) ∧ b' = {b with node := b.blocked s} := by
  simp only [Bound.step]
  split
  · rename_i hreach
    simp only [Option.map_eq_some_iff, Prod.mk.injEq, Prod.exists, hreach, true_and]
    constructor
    · rintro ⟨s, fs, hs, rfl, rfl⟩
      exact ⟨s, hs, rfl⟩
    · rintro ⟨s, hs, rfl⟩
      exact ⟨s, es, hs, rfl, rfl⟩
  · rename_i hreach
    simp [hreach]

theorem Bound.nodeStep_cases {a : Act} {s : Node} (hs : b.nodeStep cfg a = some (s, es)) :
    b.node.step cfg a = some (s, es) ∨ s = b.node.verifyTo none ∧ es = [] := by
  unfold Bound.nodeStep at hs
  split at hs
  · split at hs
    · cases hs
      exact .inr ⟨rfl, rfl⟩
    · exact .inl hs
  · exact .inl hs

theorem Bound.step_removal {exiting : Bool} : b.step cfg (.removal exiting) = some (b', es) ↔
    ∃ pc, b.removal = some pc ∧ b.removeStep exiting pc = some (b', es) := by
  simp [Bound.step, Option.bind_eq_some_iff]

theorem Bound.blocked_toDevice (s : Node) : (b.blocked s).toDevice = s.toDevice := by
  unfold Bound.blocked
  split
  · exact s.setPending_toDevice _ false
  · rfl

theorem Bound.blocked_connect (s : Node) :
    (b.blocked s).connectWork.running = s.connectWork.running := by
  unfold Bound.blocked
  split
  · exact (setPending_others (m := none) s _ false).connect (by simp)
  · rfl

end Inversion

end OdinLink.Proto
