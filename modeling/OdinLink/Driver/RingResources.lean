import Mathlib.Tactic.FinCases
import OdinLink.Lib.Ledger
import OdinLink.Proto.Node

/-!
# The rings of a device and their buffers

A device has two frame arrays, an output hop id, two rings and, for each ring, two DMA buffers. Each
of them is obtained by a call that may fail. An allocation that fails gives back what it got, and a
shrink that fails tries to restore the old depth.
-/

namespace OdinLink

open Ledger

inductive RingSlot where
  | txFrames
  | rxFrames
  | localTxHopid
  | txRing
  | rxRing
  | txBuf (i : Fin 2)
  | rxBuf (i : Fin 2)
  deriving DecidableEq, Repr

inductive RingResource where
  | frames
  | hopid
  | ring
  | dmaBuf (size : Nat)
  deriving DecidableEq, Repr

/-- Buffers are freed with a size. -/
def RingSlot.resource (size : Nat) : RingSlot → RingResource
  | .txFrames => .frames
  | .rxFrames => .frames
  | .localTxHopid => .hopid
  | .txRing => .ring
  | .rxRing => .ring
  | .txBuf _ => .dmaBuf size
  | .rxBuf _ => .dmaBuf size

def RingSlot.isBuf : RingSlot → Bool
  | .txBuf _ | .rxBuf _ => true
  | _ => false

def RingResource.IsDmaBuf : RingResource → Prop
  | .dmaBuf _ => True
  | _ => False

inductive RingErrno where
  | noMem
  | noSpc
  | busy
  deriving DecidableEq, Repr

/-- A device with the ledger of its resources. `slot` are the pointers, by the number of the
resource, and `bufSize` the sizes noted with the buffers; `fails` tells which of the obtaining calls
fail, and `tries` counts them. -/
structure RingDevice where
  slot : RingSlot → Option Nat
  bufSize : RingSlot → Nat
  ringSize : Nat
  txStarted : Bool
  rxStarted : Bool
  log : List (Entry RingResource)
  next : Nat
  tries : Nat
  fails : Nat → Option RingErrno

namespace RingDevice

def fresh (fails : Nat → Option RingErrno) : RingDevice :=
  ⟨fun _ => none, fun _ => 0, 0, false, false, [], 0, 0, fails⟩

section Ops
variable (dev : RingDevice)

def fill (s : RingSlot) : RingDevice :=
  {dev with
    tries := dev.tries + 1, next := dev.next + 1,
    slot := Function.update dev.slot s (some dev.next),
    log := dev.log ++ [.obtained (dev.next, s.resource (dev.bufSize s))]}

def acquire (s : RingSlot) : RingDevice × Option RingErrno :=
  match dev.fails dev.tries with
  | some e => ({dev with tries := dev.tries + 1}, some e)
  | none => (dev.fill s, none)

def release (s : RingSlot) : RingDevice :=
  match dev.slot s with
  | none => dev
  | some n =>
    {dev with
      slot := Function.update dev.slot s none,
      log := dev.log ++ [.released (n, s.resource (dev.bufSize s))]}

def depthFor (requestedSize : Nat) : Nat :=
  Proto.roundupPowOfTwo (min (max requestedSize Proto.ringSizeMin) Proto.ringSizeMax)

def check (r : RingDevice × Option RingErrno)
    (fail : RingDevice → RingErrno → RingDevice × Option RingErrno)
    (next : RingDevice → RingDevice × Option RingErrno) : RingDevice × Option RingErrno :=
  match r with
  | (dev, some e) => fail dev e
  | (dev, none) => next dev

def ringsAlloc (requestedSize : Nat) : RingDevice × Option RingErrno :=
  check ({dev with ringSize := depthFor requestedSize}.acquire .txFrames)
    (fun dev _ => (dev, some .noMem)) fun dev =>
  check (dev.acquire .rxFrames)
    (fun dev _ => (dev.release .txFrames, some .noMem)) fun dev =>
  check (dev.acquire .localTxHopid)
    (fun dev e => ((dev.release .rxFrames).release .txFrames, some e)) fun dev =>
  check (dev.acquire .txRing)
    (fun dev _ =>
      (((dev.release .localTxHopid).release .rxFrames).release .txFrames, some .noMem)) fun dev =>
  check (dev.acquire .rxRing)
    (fun dev _ =>
      ((((dev.release .txRing).release .localTxHopid).release .rxFrames).release .txFrames,
        some .noMem)) fun dev =>
  (dev, none)

def ringsFree : RingDevice :=
  ((((dev.release .rxRing).release .txRing).release .localTxHopid).release .txFrames).release
    .rxFrames

def dmaBufsFree : RingDevice :=
  if (dev.slot .txRing).isSome || (dev.slot .rxRing).isSome then
    (((dev.release (.txBuf 0)).release (.rxBuf 0)).release (.txBuf 1)).release (.rxBuf 1)
  else dev

def dmaBufAlloc (s : RingSlot) : RingDevice × Option RingErrno :=
  {dev with bufSize := Function.update dev.bufSize s (frameSize * dev.ringSize)}.acquire s

def dmaBufsAlloc : RingDevice × Option RingErrno :=
  check (dev.dmaBufAlloc (.txBuf 0)) (fun dev _ => (dev.dmaBufsFree, some .noMem)) fun dev =>
  check (dev.dmaBufAlloc (.rxBuf 0)) (fun dev _ => (dev.dmaBufsFree, some .noMem)) fun dev =>
  check (dev.dmaBufAlloc (.txBuf 1)) (fun dev _ => (dev.dmaBufsFree, some .noMem)) fun dev =>
  check (dev.dmaBufAlloc (.rxBuf 1)) (fun dev _ => (dev.dmaBufsFree, some .noMem)) fun dev =>
  (dev, none)

def allocDepth (size : Nat) : RingDevice × Option RingErrno :=
  check (dev.ringsAlloc size) (fun dev e => (dev, some e)) fun dev => dev.dmaBufsAlloc

def ringsResize (newSize : Nat) : RingDevice × Option RingErrno :=
  let old := dev.ringSize
  if dev.txStarted || dev.rxStarted then (dev, some .busy)
  else if old ≤ newSize then (dev, none)
  else
    check (dev.dmaBufsFree.ringsFree.allocDepth newSize)
      (fun dev _ =>
        check (dev.dmaBufsFree.ringsFree.allocDepth old) (fun dev e => (dev, some e)) fun dev =>
          (dev, some .noMem)) fun dev =>
    (dev, none)

end Ops

def held (dev : RingDevice) (s : RingSlot) : Option (Nat × RingResource) :=
  (dev.slot s).map fun n => (n, s.resource (dev.bufSize s))

structure Sound (dev : RingDevice) : Prop where
  holds : Holds dev.log dev.next dev.held
  backed : Backed RingResource.IsDmaBuf (· = .ring) dev.log

section Steps
variable {dev dev' : RingDevice} {s : RingSlot} {got : List RingSlot}

theorem fresh_sound (fails : Nat → Option RingErrno) : (fresh fails).Sound :=
  ⟨Holds.start.congr fun _ => rfl, Backed.start⟩

theorem Sound.congr (hs : dev.Sound) (hlog : dev'.log = dev.log) (hnext : dev'.next = dev.next)
    (hheld : ∀ s, dev'.held s = dev.held s) : dev'.Sound := by
  refine ⟨?_, hlog ▸ hs.backed⟩
  rw [hlog, hnext]
  exact hs.holds.congr hheld

theorem held_update (dev dev' : RingDevice) (s : RingSlot) (o : Option Nat)
    (hslot : dev'.slot = Function.update dev.slot s o) (hsize : dev'.bufSize = dev.bufSize) :
    dev'.held = Function.update dev.held s (o.map fun n => (n, s.resource (dev.bufSize s))) := by
  funext t
  by_cases ht : t = s
  · subst ht
    simp [held, hslot, hsize]
  · simp [held, hslot, hsize, Function.update_of_ne ht]

theorem Sound.fill (hs : dev.Sound) (hnone : dev.slot s = none) : (dev.fill s).Sound := by
  have hheld : dev.held s = none := by rw [held, hnone]; rfl
  have hfill : (dev.fill s).held =
      Function.update dev.held s (some (dev.next, s.resource (dev.bufSize s))) :=
    held_update dev (dev.fill s) s (some dev.next) rfl rfl
  exact ⟨(hs.holds.obtain hheld _).congr fun t => congrFun hfill t, hs.backed.obtain _⟩

theorem Sound.release (hs : dev.Sound)
    (hring : s.isBuf = true → (dev.slot .txRing).isSome ∨ (dev.slot .rxRing).isSome) :
    (dev.release s).Sound := by
  unfold RingDevice.release
  split
  · exact hs
  · rename_i n hn
    have hheld : dev.held s = some (n, s.resource (dev.bufSize s)) := by rw [held, hn]; rfl
    refine ⟨?_, hs.backed.release hs.holds ?_⟩
    · have hclear : held {dev with
          slot := Function.update dev.slot s none,
          log := dev.log ++ [.released (n, s.resource (dev.bufSize s))]} =
          Function.update dev.held s none := held_update dev _ s none rfl rfl
      exact (hs.holds.release hheld).congr fun t => congrFun hclear t
    · intro hneeds
      have hbuf : s.isBuf = true := by
        cases s <;> first | rfl | exact absurd hneeds id
      rcases hring hbuf with h | h
      · obtain ⟨m, hm⟩ := Option.isSome_iff_exists.mp h
        exact ⟨.txRing, _, by rw [held, hm]; rfl, rfl⟩
      · obtain ⟨m, hm⟩ := Option.isSome_iff_exists.mp h
        exact ⟨.rxRing, _, by rw [held, hm]; rfl, rfl⟩

theorem release_slot (dev : RingDevice) (s : RingSlot) :
    (dev.release s).slot = Function.update dev.slot s none := by
  unfold RingDevice.release
  split
  · rename_i hnone
    rw [← hnone, Function.update_eq_self]
  · rfl

@[simp] theorem release_ringSize (dev : RingDevice) (s : RingSlot) :
    (dev.release s).ringSize = dev.ringSize := by
  unfold RingDevice.release
  split <;> rfl

structure Grown (dev dev' : RingDevice) (got : List RingSlot) : Prop where
  sound : dev'.Sound
  present : ∀ s ∈ got, (dev'.slot s).isSome = true
  same : ∀ s, s ∉ got → dev'.slot s = dev.slot s
  ringSize : dev'.ringSize = dev.ringSize

theorem Sound.grown (hs : dev.Sound) : Grown dev dev [] := ⟨hs, by simp, fun _ _ => rfl, rfl⟩

theorem Grown.fill (h : Grown dev dev' got) (hnone : dev.slot s = none) (hs : s ∉ got) :
    Grown dev (dev'.fill s) (s :: got) := by
  refine ⟨h.sound.fill ((h.same s hs).trans hnone), ?_, ?_, h.ringSize⟩
  · intro t ht
    rcases List.mem_cons.mp ht with rfl | ht
    · simp [RingDevice.fill]
    · have hne : t ≠ s := fun heq => hs (heq ▸ ht)
      simp only [RingDevice.fill, Function.update_of_ne hne]
      exact h.present t ht
  · intro t ht
    rw [List.mem_cons, not_or] at ht
    simp only [RingDevice.fill, Function.update_of_ne ht.1]
    exact h.same t ht.2

theorem Grown.tried (h : Grown dev dev' got) (n : Nat) : Grown dev {dev' with tries := n} got :=
  ⟨h.sound.congr rfl rfl fun _ => rfl, h.present, h.same, h.ringSize⟩

theorem Grown.check (h : Grown dev dev' got) (hnone : dev.slot s = none) (hs : s ∉ got)
    {Q : RingDevice × Option RingErrno → Prop}
    {fail : RingDevice → RingErrno → RingDevice × Option RingErrno}
    {next : RingDevice → RingDevice × Option RingErrno}
    (hfail : ∀ d e, Grown dev d got → Q (fail d e))
    (hnext : ∀ d, Grown dev d (s :: got) → Q (next d)) :
    Q (RingDevice.check (dev'.acquire s) fail next) := by
  unfold RingDevice.check RingDevice.acquire
  cases hf : dev'.fails dev'.tries with
  | some e => exact hfail _ e (h.tried _)
  | none => exact hnext _ (h.fill hnone hs)

theorem Grown.release (h : Grown dev dev' (s :: got)) (hnone : dev.slot s = none) (hs : s ∉ got)
    (hbuf : s.isBuf = false) : Grown dev (dev'.release s) got := by
  refine ⟨h.sound.release (by simp [hbuf]), ?_, ?_, (release_ringSize _ _).trans h.ringSize⟩
  · intro t ht
    have hne : t ≠ s := fun heq => hs (heq ▸ ht)
    rw [release_slot, Function.update_of_ne hne]
    exact h.present t (List.mem_cons_of_mem s ht)
  · intro t ht
    rw [release_slot]
    by_cases hne : t = s
    · rw [hne, Function.update_self, hnone]
    · rw [Function.update_of_ne hne]
      exact h.same t (List.not_mem_cons_of_ne_of_not_mem hne ht)

end Steps

section Functions
variable {dev dev' : RingDevice} {s : RingSlot}

def ringSlots : List RingSlot := [.rxRing, .txRing, .localTxHopid, .rxFrames, .txFrames]

theorem mem_ringSlots : s ∈ ringSlots ↔ s.isBuf = false := by
  cases s <;> simp [ringSlots, RingSlot.isBuf]

def GrownBy (dev : RingDevice) (slots : List RingSlot) (r : RingDevice × Option RingErrno) : Prop :=
  Grown dev r.1 (if r.2 = none then slots else [])

/-- `ringsAlloc` fills its slots or leaves them as they were: each failure clears the slots filled
before it, the last one first. -/
theorem ringsAlloc_grown (hs : dev.Sound) (hnone : ∀ s, s.isBuf = false → dev.slot s = none)
    (n : Nat) : GrownBy {dev with ringSize := depthFor n} ringSlots (dev.ringsAlloc n) := by
  have h0 : Grown {dev with ringSize := depthFor n} {dev with ringSize := depthFor n} [] :=
    Sound.grown (hs.congr rfl rfl fun _ => rfl)
  refine h0.check (hnone .txFrames rfl) (by simp) (fun d _ h => h) fun d₁ h1 => ?_
  refine h1.check (hnone .rxFrames rfl) (by simp) (fun d _ h => ?_) fun d₂ h2 => ?_
  · exact h.release (hnone .txFrames rfl) (by simp) rfl
  refine h2.check (hnone .localTxHopid rfl) (by simp) (fun d _ h => ?_) fun d₃ h3 => ?_
  · have hrx := h.release (hnone .rxFrames rfl) (by simp) rfl
    exact hrx.release (hnone .txFrames rfl) (by simp) rfl
  refine h3.check (hnone .txRing rfl) (by simp) (fun d _ h => ?_) fun d₄ h4 => ?_
  · have hhop := h.release (hnone .localTxHopid rfl) (by simp) rfl
    have hrx := hhop.release (hnone .rxFrames rfl) (by simp) rfl
    exact hrx.release (hnone .txFrames rfl) (by simp) rfl
  refine h4.check (hnone .rxRing rfl) (by simp) (fun d _ h => ?_) fun d₅ h5 => ?_
  · have hring := h.release (hnone .txRing rfl) (by simp) rfl
    have hhop := hring.release (hnone .localTxHopid rfl) (by simp) rfl
    have hrx := hhop.release (hnone .rxFrames rfl) (by simp) rfl
    exact hrx.release (hnone .txFrames rfl) (by simp) rfl
  · exact h5

structure Tidy (dev : RingDevice) : Prop where
  sound : dev.Sound
  ring : ∀ s, s.isBuf = true → (dev.slot s).isSome = true →
    ((dev.slot .txRing).isSome || (dev.slot .rxRing).isSome) = true

theorem dmaBufsFree_sound (hs : dev.Sound) : dev.dmaBufsFree.Sound := by
  unfold dmaBufsFree
  split
  · rename_i hring
    rw [Bool.or_eq_true] at hring
    refine (((hs.release fun _ => hring).release fun _ => ?_).release fun _ => ?_).release
      fun _ => ?_
    all_goals simpa only [release_slot, Function.update, reduceCtorEq, dite_false] using hring
  · exact hs

theorem dmaBufsFree_slot (ht : dev.Tidy) (s : RingSlot) :
    dev.dmaBufsFree.slot s = if s.isBuf then none else dev.slot s := by
  unfold dmaBufsFree
  split
  · simp only [release_slot]
    cases s with
    | txBuf i | rxBuf i => fin_cases i <;> rfl
    | _ => rfl
  · rename_i hring
    split
    · rename_i hbuf
      cases hslot : dev.slot s with
      | none => rfl
      | some n => exact absurd (ht.ring s hbuf (by rw [hslot]; rfl)) hring
    · rfl

@[simp] theorem dmaBufsFree_ringSize (dev : RingDevice) :
    dev.dmaBufsFree.ringSize = dev.ringSize := by
  unfold dmaBufsFree
  split
  · simp only [release_ringSize]
  · rfl

theorem ringsFree_sound (hs : dev.Sound) : dev.ringsFree.Sound := by
  unfold ringsFree
  refine ((((hs.release ?_).release ?_).release ?_).release ?_).release ?_
  all_goals simp [RingSlot.isBuf]

theorem ringsFree_slot (dev : RingDevice) (s : RingSlot) :
    dev.ringsFree.slot s = if s.isBuf then dev.slot s else none := by
  unfold ringsFree
  simp only [release_slot]
  cases s <;> rfl

def bufSlots : List RingSlot := [.rxBuf 1, .txBuf 1, .rxBuf 0, .txBuf 0]

theorem mem_bufSlots : s ∈ bufSlots ↔ s.isBuf = true := by
  cases s with
  | txBuf i | rxBuf i => fin_cases i <;> simp [bufSlots, RingSlot.isBuf]
  | _ => simp [bufSlots, RingSlot.isBuf]

theorem Grown.sized {got : List RingSlot} (h : Grown dev dev' got) (hnone : dev.slot s = none)
    (hs : s ∉ got) (n : Nat) :
    Grown dev {dev' with bufSize := Function.update dev'.bufSize s n} got := by
  refine ⟨h.sound.congr rfl rfl fun t => ?_, h.present, h.same, h.ringSize⟩
  by_cases ht : t = s
  · have hslot : dev'.slot t = none := by rw [ht, h.same s hs, hnone]
    simp [held, hslot]
  · simp [held, Function.update_of_ne ht]

theorem Grown.dmaBufsFree {got : List RingSlot} (h : Grown dev dev' got) (hgot : got ⊆ bufSlots)
    (hring : (dev.slot .txRing).isSome = true) (hnone : ∀ s, s.isBuf = true → dev.slot s = none) :
    Grown dev dev'.dmaBufsFree [] := by
  have hold {t : RingSlot} (ht : t.isBuf = false) : dev'.slot t = dev.slot t := by
    apply h.same
    intro hmem
    rw [mem_bufSlots.mp (hgot hmem)] at ht
    cases ht
  have htidy : dev'.Tidy := ⟨h.sound, fun _ _ _ => by rw [hold rfl, hring]; rfl⟩
  refine ⟨dmaBufsFree_sound h.sound, by simp, fun t _ => ?_,
    (dmaBufsFree_ringSize dev').trans h.ringSize⟩
  rw [dmaBufsFree_slot htidy]
  cases ht : t.isBuf with
  | true => exact (hnone t ht).symm
  | false => exact hold ht

theorem dmaBufsAlloc_grown (hs : dev.Sound) (hring : (dev.slot .txRing).isSome = true)
    (hnone : ∀ s, s.isBuf = true → dev.slot s = none) : GrownBy dev bufSlots dev.dmaBufsAlloc := by
  have hfail {d : RingDevice} {got : List RingSlot} (h : Grown dev d got) (hgot : got ⊆ bufSlots) :
      GrownBy dev bufSlots (d.dmaBufsFree, some .noMem) := h.dmaBufsFree hgot hring hnone
  have h0 := hs.grown.sized (hnone (.txBuf 0) rfl) (by simp) (frameSize * dev.ringSize)
  refine h0.check (hnone (.txBuf 0) rfl) (by simp) (fun d _ h => hfail h (by simp)) fun d₁ h1 => ?_
  have h1 := h1.sized (hnone (.rxBuf 0) rfl) (by simp) (frameSize * d₁.ringSize)
  refine h1.check (hnone (.rxBuf 0) rfl) (by simp) (fun d _ h => hfail h ?_) fun d₂ h2 => ?_
  · simp [bufSlots]
  have h2 := h2.sized (hnone (.txBuf 1) rfl) (by simp) (frameSize * d₂.ringSize)
  refine h2.check (hnone (.txBuf 1) rfl) (by simp) (fun d _ h => hfail h ?_) fun d₃ h3 => ?_
  · simp [bufSlots]
  have h3 := h3.sized (hnone (.rxBuf 1) rfl) (by simp) (frameSize * d₃.ringSize)
  refine h3.check (hnone (.rxBuf 1) rfl) (by simp) (fun d _ h => hfail h ?_) fun d₄ h4 => ?_
  · simp [bufSlots]
  · exact h4

structure Attempted (n : Nat) (r : RingDevice × Option RingErrno) : Prop where
  tidy : r.1.Tidy
  ringSize : r.1.ringSize = depthFor n
  all : r.2 = none → ∀ s, (r.1.slot s).isSome = true
  no_bufs : r.2 ≠ none → ∀ s, s.isBuf = true → r.1.slot s = none

theorem allocDepth_attempted (hs : dev.Sound) (hnone : ∀ s, dev.slot s = none) (n : Nat) :
    Attempted n (dev.allocDepth n) := by
  have hrings := ringsAlloc_grown hs (fun s _ => hnone s) n
  unfold allocDepth check
  rcases hr : dev.ringsAlloc n with ⟨dev₁, _ | e⟩
  · rw [hr] at hrings
    have hrings : Grown {dev with ringSize := depthFor n} dev₁ ringSlots := hrings
    have htx : (dev₁.slot .txRing).isSome = true := hrings.present _ (by simp [ringSlots])
    have hbuf (s : RingSlot) (hs : s.isBuf = true) : dev₁.slot s = none := by
      rw [hrings.same s fun hmem => by simp [mem_ringSlots.mp hmem] at hs]
      exact hnone s
    have hbufs := dmaBufsAlloc_grown hrings.sound htx hbuf
    have hring : (dev₁.dmaBufsAlloc.1.slot .txRing).isSome = true := by
      rw [hbufs.same .txRing (by split <;> simp [bufSlots])]
      exact htx
    refine ⟨⟨hbufs.sound, fun _ _ _ => by rw [hring]; rfl⟩,
      hbufs.ringSize.trans hrings.ringSize, fun hok s => ?_, fun hfail s hs => ?_⟩
    · cases hs : s.isBuf with
      | true => exact hbufs.present s (by rw [if_pos hok]; exact mem_bufSlots.mpr hs)
      | false =>
        have hmem : s ∉ bufSlots := fun hmem => by simp [mem_bufSlots.mp hmem] at hs
        rw [hbufs.same s (by rw [if_pos hok]; exact hmem)]
        exact hrings.present s (mem_ringSlots.mpr hs)
    · rw [hbufs.same s (by rw [if_neg hfail]; simp)]
      exact hbuf s hs
  · rw [hr] at hrings
    have hrings : Grown {dev with ringSize := depthFor n} dev₁ [] := hrings
    have hslot (s : RingSlot) : dev₁.slot s = none := (hrings.same s (by simp)).trans (hnone s)
    refine ⟨⟨hrings.sound, fun s _ h => ?_⟩, hrings.ringSize, by simp, fun _ s _ => hslot s⟩
    rw [hslot s] at h
    cases h

theorem Tidy.freed (ht : dev.Tidy) :
    dev.dmaBufsFree.ringsFree.Sound ∧ ∀ s, dev.dmaBufsFree.ringsFree.slot s = none := by
  refine ⟨ringsFree_sound (dmaBufsFree_sound ht.sound), fun s => ?_⟩
  rw [ringsFree_slot, dmaBufsFree_slot ht]
  split <;> rfl

theorem Attempted.freed {n : Nat} {r : RingDevice × Option RingErrno} (h : Attempted n r)
    (hfail : r.2 ≠ none) : r.1.ringsFree.Sound ∧ ∀ s, r.1.ringsFree.slot s = none := by
  refine ⟨ringsFree_sound h.tidy.sound, fun s => ?_⟩
  rw [ringsFree_slot]
  split
  · exact h.no_bufs hfail s ‹_›
  · rfl

theorem Tidy.ringsResize (ht : dev.Tidy) (n : Nat) : (dev.ringsResize n).1.Tidy := by
  unfold RingDevice.ringsResize
  split
  · exact ht
  · dsimp only
    split
    · exact ht
    · have hnew := allocDepth_attempted ht.freed.1 ht.freed.2 n
      unfold RingDevice.check
      rcases hr : dev.dmaBufsFree.ringsFree.allocDepth n with ⟨dev₁, _ | e⟩
      · rw [hr] at hnew
        exact hnew.tidy
      · rw [hr] at hnew
        have hold := allocDepth_attempted hnew.tidy.freed.1 hnew.tidy.freed.2 dev.ringSize
        rcases hr' : dev₁.dmaBufsFree.ringsFree.allocDepth dev.ringSize with ⟨dev₂, _ | e'⟩
        · rw [hr'] at hold
          simp only [hr']
          exact hold.tidy
        · rw [hr'] at hold
          simp only [hr']
          exact hold.tidy

end Functions

end RingDevice

end OdinLink
