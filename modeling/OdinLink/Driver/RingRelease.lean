import OdinLink.Driver.RingFallback

/-!
# The life of a device's rings

A probe obtains them, connection attempts may shrink them while they are stopped, and the removal
gives them back.
-/

namespace OdinLink

open Ledger

namespace RingDevice

def ringsStart (dev : RingDevice) : RingDevice := {dev with txStarted := true, rxStarted := true}

def ringsStop (dev : RingDevice) : RingDevice :=
  {dev with
    txStarted := dev.txStarted && (dev.slot .txRing).isNone,
    rxStarted := dev.rxStarted && (dev.slot .rxRing).isNone}

end RingDevice

inductive RingOp where
  | resize (newSize : Nat)
  | start
  | stop
  deriving DecidableEq, Repr

namespace RingDevice

def step (dev : RingDevice) : RingOp → RingDevice
  | .resize newSize => (dev.ringsResize newSize).1
  | .start => dev.ringsStart
  | .stop => dev.ringsStop

def removeRings (dev : RingDevice) : RingDevice := dev.ringsStop.dmaBufsFree.ringsFree

/-- A probe and, unless it fails, what happens up to the end of the removal. The protocol is
initialised after the rings were obtained. -/
def lifetime (fails : Nat → Option RingErrno) (ringSize fallbackMin : Nat) (protoInit : Bool)
    (ops : List RingOp) : RingDevice :=
  let p := (fresh fails).probeRings fallbackMin ringSize
  if p.ret ≠ none then p.dev
  else if !protoInit then p.dev.dmaBufsFree.ringsFree
  else (ops.foldl step p.dev).removeRings

theorem Tidy.congr {dev dev' : RingDevice} (ht : dev.Tidy) (hlog : dev'.log = dev.log)
    (hnext : dev'.next = dev.next) (hslot : dev'.slot = dev.slot)
    (hsize : dev'.bufSize = dev.bufSize) : dev'.Tidy := by
  refine ⟨ht.sound.congr hlog hnext fun s => ?_, ?_⟩
  · rw [held, held, hslot, hsize]
  · rw [hslot]
    exact ht.ring

theorem Tidy.step {dev : RingDevice} (ht : dev.Tidy) (op : RingOp) : (dev.step op).Tidy := by
  cases op with
  | resize newSize => exact ht.ringsResize newSize
  | start | stop => exact ht.congr rfl rfl rfl rfl

theorem Tidy.foldl_step {dev : RingDevice} (ht : dev.Tidy) (ops : List RingOp) :
    (ops.foldl RingDevice.step dev).Tidy := by
  induction ops generalizing dev with
  | nil => exact ht
  | cons op ops ih => exact ih (ht.step op)

theorem lifetime_sound (fails : Nat → Option RingErrno) (ringSize fallbackMin : Nat)
    (protoInit : Bool) (ops : List RingOp) :
    (lifetime fails ringSize fallbackMin protoInit ops).Sound ∧
      ∀ s, (lifetime fails ringSize fallbackMin protoInit ops).slot s = none := by
  obtain ⟨htidy, hfree⟩ := probeRings_tidy fallbackMin ringSize (fresh_sound fails) fun _ => rfl
  unfold lifetime
  dsimp only
  split
  · rename_i hret
    exact ⟨htidy.sound, hfree hret⟩
  · split
    · exact htidy.freed
    · have hstop : (ops.foldl RingDevice.step
          ((fresh fails).probeRings fallbackMin ringSize).dev).ringsStop.Tidy :=
        (htidy.foldl_step ops).congr rfl rfl rfl rfl
      exact hstop.freed

end RingDevice

/-- Whatever fails in a probe, in shrinks and in restores: at the end of the removal, or of a probe
that failed, each hop id, ring, frame array and DMA buffer obtained was released once, a buffer with
the size it was obtained with and while a ring was there. -/
theorem ring_resources_released_once (fails : Nat → Option RingErrno) (ringSize fallbackMin : Nat)
    (protoInit : Bool) (ops : List RingOp) :
    let dev := RingDevice.lifetime fails ringSize fallbackMin protoInit ops
    ((obtained dev.log).map Prod.fst).Nodup ∧
      (∀ x ∈ obtained dev.log, (released dev.log).count x = 1) ∧
      (∀ x ∈ released dev.log, x ∈ obtained dev.log) ∧
      ∀ before n size after,
        dev.log = before ++ .released (n, .dmaBuf size) :: after →
          ∃ y ∈ obtained before, y.2 = .ring ∧ y ∉ released before := by
  intro dev
  obtain ⟨hs, hnone⟩ := RingDevice.lifetime_sound fails ringSize fallbackMin protoInit ops
  refine ⟨hs.holds.numbers, fun x hx => ?_, hs.holds.known, fun before n size after hlog => ?_⟩
  · apply hs.holds.count_released _ hx
    intro s
    rw [RingDevice.held, hnone s]
    rfl
  · exact hs.backed before (n, .dmaBuf size) after hlog trivial

end OdinLink
