import OdinLink.Driver.RxProjection

/-!
# Keeping the receive ring filled

A frame that completes leaves the ring, and the callback reposts slots until the target is
reached again, unless the pool is empty or the ring refuses one. The exits for a CRC error and
for an overrun put the slot back and return without reposting.
-/

namespace OdinLink

namespace RxDevice

def rxRepostLoopPosts (ringRx : Nat → Bool) (k : Nat) (dev : RxDevice) : Nat → List Nat × Bool
  | 0 => ([], false)
  | n + 1 =>
    match framePoolGet dev.framePool with
    | none => ([], true)
    | some (slot, pool) =>
      if ringRx k then
        let r := rxRepostLoopPosts ringRx (k + 1)
          {dev with framePool := pool, rxPosted := dev.rxPosted + 1} n
        (slot :: r.1, r.2)
      else ([], true)

def rxRepostPosts (dev : RxDevice) (ringRx : Nat → Bool) : List Nat × Bool :=
  rxRepostLoopPosts ringRx 0 dev (dev.rxTarget - dev.rxPosted).toNat

def rxPoolFramePosts (dev : RxDevice) (slot : Nat) (c : Completion) (env : RxEnv) :
    List Nat × Bool :=
  if c.flagged then ([], false)
  else
    let r := dev.countGood.rxGoodFrame (dev.slotMem slot) (rxSize c.received) env.alloc
    (r.1.poolPut slot).rxRepostPosts env.ringRx

section Repost
variable (ringRx : Nat → Bool)

theorem rxRepostLoop_posted (k : Nat) (dev : RxDevice) (n : Nat) :
    (rxRepostLoop ringRx k dev n).rxPosted =
      dev.rxPosted + (rxRepostLoopPosts ringRx k dev n).1.length := by
  induction n generalizing k dev with
  | zero => simp [rxRepostLoop, rxRepostLoopPosts]
  | succ n ih =>
    rw [rxRepostLoop, rxRepostLoopPosts]
    cases framePoolGet dev.framePool with
    | none => simp
    | some r =>
      cases hk : ringRx k with
      | false => simp
      | true =>
        simp only [if_true, ih, List.length_cons]
        omega

theorem rxRepostLoop_target (k : Nat) (dev : RxDevice) (n : Nat) :
    (rxRepostLoop ringRx k dev n).rxTarget = dev.rxTarget := by
  induction n generalizing k dev with
  | zero => rfl
  | succ n ih =>
    rw [rxRepostLoop]
    split
    · rfl
    · split
      · rw [ih]
      · rfl

theorem rxRepostLoopPosts_length (k : Nat) (dev : RxDevice) (n : Nat) :
    (rxRepostLoopPosts ringRx k dev n).1.length ≤ n ∧
      ((rxRepostLoopPosts ringRx k dev n).1.length = n ∨
        (rxRepostLoopPosts ringRx k dev n).2 = true) := by
  induction n generalizing k dev with
  | zero => simp [rxRepostLoopPosts]
  | succ n ih =>
    rw [rxRepostLoopPosts]
    cases framePoolGet dev.framePool with
    | none => simp
    | some r =>
      cases hk : ringRx k with
      | false => simp
      | true =>
        obtain ⟨hle, hfull⟩ := ih (k + 1) {dev with framePool := r.2, rxPosted := dev.rxPosted + 1}
        simp only [if_true, List.length_cons]
        exact ⟨by omega, hfull.imp_left fun hn => by omega⟩

theorem rxRepost_spec (dev : RxDevice) (hle : dev.rxPosted ≤ dev.rxTarget) :
    (dev.rxRepost ringRx).rxTarget = dev.rxTarget ∧
    (dev.rxRepost ringRx).rxPosted = dev.rxPosted + (dev.rxRepostPosts ringRx).1.length ∧
    (dev.rxRepost ringRx).rxPosted ≤ dev.rxTarget ∧
    ((dev.rxRepost ringRx).rxPosted = dev.rxTarget ∨ (dev.rxRepostPosts ringRx).2 = true) := by
  have hposted : (dev.rxRepost ringRx).rxPosted =
      dev.rxPosted + (dev.rxRepostPosts ringRx).1.length := rxRepostLoop_posted ringRx 0 dev _
  obtain ⟨hlen, hfull⟩ := rxRepostLoopPosts_length ringRx 0 dev (dev.rxTarget - dev.rxPosted).toNat
  rw [← rxRepostPosts] at hlen hfull
  refine ⟨rxRepostLoop_target ringRx 0 dev _, hposted, by omega, hfull.imp_left fun hn => ?_⟩
  omega

end Repost

theorem rxGoodFrame_counters (dev : RxDevice) (mem : Mem) (size : Nat) (alloc : AllocEnv) :
    (dev.rxGoodFrame mem size alloc).1.rxPosted = dev.rxPosted ∧
      (dev.rxGoodFrame mem size alloc).1.rxTarget = dev.rxTarget := by
  rw [rxGoodFrame]
  split
  · rw [rxControl]
    split <;> exact ⟨rfl, rfl⟩
  · split
    · rw [rxStreamFrame]
      simp only
      split
      · exact ⟨rfl, rfl⟩
      · split
        · exact ⟨rfl, rfl⟩
        · split <;> exact ⟨rfl, rfl⟩
    · exact ⟨rfl, rfl⟩

theorem rxPoolFrame_flagged_counters (dev : RxDevice) (slot : Nat) {c : Completion} (env : RxEnv)
    (hc : c.flagged = true) :
    (dev.rxPoolFrame slot c env).1.rxTarget = dev.rxTarget ∧
      (dev.rxPoolFrame slot c env).1.rxPosted = dev.rxPosted - 1 := by
  unfold rxPoolFrame
  split
  · exact ⟨rfl, rfl⟩
  · split
    · exact ⟨rfl, rfl⟩
    · split
      · exact ⟨rfl, rfl⟩
      · simp_all [Completion.flagged]

theorem rxPoolFrame_unflagged_counters {dev : RxDevice} (hle : dev.rxPosted ≤ dev.rxTarget)
    (slot : Nat) {c : Completion} (env : RxEnv) (hc : c.flagged = false) :
    (dev.rxPoolFrame slot c env).1.rxTarget = dev.rxTarget ∧
    (dev.rxPoolFrame slot c env).1.rxPosted =
      dev.rxPosted - 1 + (dev.rxPoolFramePosts slot c env).1.length ∧
    (dev.rxPoolFrame slot c env).1.rxPosted ≤ dev.rxTarget ∧
    ((dev.rxPoolFrame slot c env).1.rxPosted = dev.rxTarget ∨
      (dev.rxPoolFramePosts slot c env).2 = true) := by
  obtain ⟨hposted, htarget⟩ := rxGoodFrame_counters dev.countGood (dev.slotMem slot)
    (rxSize c.received) env.alloc
  rw [rxPoolFrame_unflagged dev slot env hc, rxPoolFramePosts, if_neg (by rw [hc]; exact nofun)]
  generalize dev.countGood.rxGoodFrame (dev.slotMem slot) (rxSize c.received) env.alloc = r
    at hposted htarget
  have hposted : (r.1.poolPut slot).rxPosted = dev.rxPosted - 1 := hposted
  have htarget : (r.1.poolPut slot).rxTarget = dev.rxTarget := htarget
  have hspec := rxRepost_spec env.ringRx (r.1.poolPut slot) (by omega)
  rw [hposted, htarget] at hspec
  exact hspec

end RxDevice

structure RxRing where
  dev : RxDevice
  ring : List Nat

inductive RingEvent where
  | complete (c : Completion) (env : RxEnv)
  | others (dev : RxDevice)

structure Refill where
  canceled : Bool
  posted : Nat
  short : Bool
  deriving DecidableEq, Repr

namespace RxRing

def step (s : RxRing) : RingEvent → Option (RxRing × List Refill)
  | .complete c env =>
    match c.frame with
    | .slot slot =>
      if slot ∈ s.ring then
        let posts := (s.dev.dmaReceive c).rxPoolFramePosts slot c env
        let ring := s.ring.erase slot ++ posts.1
        some (⟨(s.dev.step (.complete c env)).1, ring⟩, [⟨c.canceled, ring.length, posts.2⟩])
      else none
    | .legacy _ => none
  | .others dev =>
    if dev.rxPosted = s.dev.rxPosted ∧ dev.rxTarget = s.dev.rxTarget then some (⟨dev, s.ring⟩, [])
    else none

def run (s : RxRing) : List RingEvent → Option (RxRing × List Refill)
  | [] => some (s, [])
  | e :: es => (s.step e).bind fun r => (r.1.run es).map fun q => (q.1, r.2 ++ q.2)

structure Filled (T : Nat) (s : RxRing) : Prop where
  posted : s.dev.rxPosted = s.ring.length
  target : s.dev.rxTarget = T
  le : s.ring.length ≤ T

end RxRing

def RingEvent.bad : RingEvent → Bool
  | .complete c _ => !c.canceled && (c.crcError || c.bufferOverrun)
  | .others _ => false

/-- A completion that was not cancelled has to leave the ring at its target, unless its repost
could not go on. -/
def Refill.kept (T : Nat) (o : Refill) : Prop := o.canceled = false → o.posted = T ∨ o.short = true

section Runs
variable {T : Nat} {s s' : RxRing} {e : RingEvent} {os : List Refill}

theorem dmaReceive_counters (dev : RxDevice) (c : Completion) :
    (dev.dmaReceive c).rxPosted = dev.rxPosted ∧ (dev.dmaReceive c).rxTarget = dev.rxTarget := by
  unfold RxDevice.dmaReceive
  split <;> exact ⟨rfl, rfl⟩

theorem RxRing.Filled.step (hf : s.Filled T) (hs : s.step e = some (s', os)) :
    s'.Filled T ∧ ((∀ o ∈ os, o.kept T) ↔ e.bad = false) := by
  cases e with
  | others dev =>
    rw [RxRing.step] at hs
    split at hs
    · rename_i heq
      cases hs
      exact ⟨⟨heq.1.trans hf.posted, heq.2.trans hf.target, hf.le⟩, by simp [RingEvent.bad]⟩
    · contradiction
  | complete c env =>
    rw [RxRing.step] at hs
    split at hs
    · rename_i slot hslot
      split at hs
      · rename_i hmem
        cases hs
        have hstep : (s.dev.step (.complete c env)).1 =
            ((s.dev.dmaReceive c).rxPoolFrame slot c env).1 := by
          simp only [RxDevice.step, RxDevice.rxCallback, hslot]
        obtain ⟨hposted, htarget⟩ := dmaReceive_counters s.dev c
        rw [hf.posted] at hposted
        rw [hf.target] at htarget
        have hlen : (s.ring.erase slot).length = s.ring.length - 1 := List.length_erase_of_mem hmem
        have hpos := List.length_pos_of_mem hmem
        have hle := hf.le
        simp only [List.mem_singleton, forall_eq, Refill.kept, RingEvent.bad, hstep]
        by_cases hc : c.flagged = true
        · obtain ⟨ht, hp⟩ := (s.dev.dmaReceive c).rxPoolFrame_flagged_counters slot env hc
          have hnone : (s.dev.dmaReceive c).rxPoolFramePosts slot c env = ([], false) := if_pos hc
          rw [hnone]
          simp only [List.append_nil, Bool.false_eq_true, or_false]
          refine ⟨⟨?_, ?_, ?_⟩, ?_⟩
          · simp only
            omega
          · exact ht.trans htarget
          · simp only
            omega
          · have hne : ¬ (s.ring.erase slot).length = T := by omega
            rw [Completion.flagged, Bool.or_assoc, Bool.or_eq_true] at hc
            cases hcancel : c.canceled with
            | true => simp
            | false =>
              have hbad := hc.resolve_left (by simp [hcancel])
              simp [hne, hbad]
        · rw [Bool.not_eq_true] at hc
          obtain ⟨ht, hp, hmax, hfull⟩ := RxDevice.rxPoolFrame_unflagged_counters
            (by omega : (s.dev.dmaReceive c).rxPosted ≤ (s.dev.dmaReceive c).rxTarget) slot env hc
          refine ⟨⟨?_, ht.trans htarget, ?_⟩, ?_⟩
          · simp only [List.length_append]
            omega
          · simp only [List.length_append]
            omega
          · have hgood : (c.crcError || c.bufferOverrun) = false := by
              simp_all [Completion.flagged]
            simp only [hgood, Bool.and_false, iff_true]
            intro _
            refine hfull.imp_left fun hn => ?_
            simp only [List.length_append]
            omega
      · contradiction
    · contradiction

theorem RxRing.Filled.run {es : List RingEvent} (hf : s.Filled T)
    (hr : s.run es = some (s', os)) :
    s'.Filled T ∧ ((∀ o ∈ os, o.kept T) ↔ ∀ e ∈ es, e.bad = false) := by
  induction es generalizing s os with
  | nil =>
    cases hr
    exact ⟨hf, by simp⟩
  | cons e es ih =>
    simp only [RxRing.run, Option.bind_eq_some_iff, Option.map_eq_some_iff, Prod.mk.injEq,
      Prod.exists] at hr
    obtain ⟨s₁, os₁, hs, s₂, os₂, hr, rfl, rfl⟩ := hr
    obtain ⟨hf₁, hkept₁⟩ := hf.step hs
    obtain ⟨hf₂, hkept₂⟩ := ih hf₁ hr
    refine ⟨hf₂, ?_⟩
    simp only [List.mem_append, or_imp, forall_and, List.forall_mem_cons, hkept₁, hkept₂]

/-- Every completion that is not cancelled leaves the ring at its target, or was unable to repost,
exactly when none of them was flagged with a CRC error or an overrun. -/
theorem rx_ring_refilled_iff {es : List RingEvent} (hposted : s.dev.rxPosted = s.ring.length)
    (htarget : s.dev.rxTarget = s.ring.length) (hr : s.run es = some (s', os)) :
    (∀ o ∈ os, o.canceled = false → o.posted = s.ring.length ∨ o.short = true) ↔
      ∀ e ∈ es, e.bad = false :=
  (RxRing.Filled.run ⟨hposted, htarget, Nat.le_refl _⟩ hr).2

def crcFrame (slot : Nat) : RingEvent :=
  .complete {Completion.good slot [] with crcError := true} .ok

theorem crcFrames_drain (s : RxRing) :
    ∃ s' os, s.run (s.ring.map crcFrame) = some (s', os) ∧ s'.ring = [] := by
  obtain ⟨dev, ring⟩ := s
  induction ring generalizing dev with
  | nil => exact ⟨_, _, rfl, rfl⟩
  | cons slot ring ih =>
    obtain ⟨s', os, hr, hnil⟩ := ih (dev.step (.complete
      {Completion.good slot [] with crcError := true} .ok)).1
    refine ⟨s', ⟨false, ring.length, false⟩ :: os, ?_, hnil⟩
    have hstep : RxRing.step ⟨dev, slot :: ring⟩ (crcFrame slot) =
        some (⟨(dev.step (.complete {Completion.good slot [] with crcError := true} .ok)).1, ring⟩,
          [⟨false, ring.length, false⟩]) := by
      simp [RxRing.step, crcFrame, Completion.good, RxDevice.rxPoolFramePosts, Completion.flagged]
    rw [List.map_cons, RxRing.run, hstep, Option.bind_some, hr]
    rfl

def RxRing.opened : RxRing := ⟨.opened 1, List.range 2048⟩

theorem RxRing.opened_filled : RxRing.opened.Filled 2048 := by
  refine ⟨?_, rfl, ?_⟩ <;> simp [RxRing.opened, RxDevice.opened]

theorem crcFrames_drain_opened : ∃ es s' os, RxRing.opened.run es = some (s', os) ∧
    s'.ring = [] ∧ ¬ ∀ o ∈ os, o.canceled = false → o.posted = 2048 ∨ o.short = true := by
  obtain ⟨s', os, hr, hnil⟩ := crcFrames_drain .opened
  refine ⟨_, s', os, hr, hnil, fun hkept => ?_⟩
  have hbad := (RxRing.opened_filled.run hr).2.mp hkept (crcFrame 0)
    (List.mem_map_of_mem (by simp [RxRing.opened]))
  simp [crcFrame, RingEvent.bad, Completion.good] at hbad

def RxRing.small : RxRing :=
  ⟨{RxDevice.opened 1 with
    framePool := ⟨4, fun i => decide (i < 2), 2⟩, rxPosted := 2, rxTarget := 2}, [0, 1]⟩

def shortFrames : List RingEvent :=
  [.complete (.good 0 []) .ok, .complete {Completion.good 1 [] with canceled := true} .ok,
    .complete (.good 0 []) .ok]

theorem shortFrames_run : (RxRing.small.run shortFrames).isSome = true := by decide +kernel

theorem rx_ring_refilled_iff_small : ∃ s' os, RxRing.small.run shortFrames = some (s', os) ∧
    os.length = 3 ∧ ∀ o ∈ os, o.canceled = false → o.posted = 2 ∨ o.short = true := by
  have hr := (Option.some_get shortFrames_run).symm
  refine ⟨_, _, hr, by decide +kernel, ?_⟩
  apply (rx_ring_refilled_iff rfl rfl hr).mpr
  simp [shortFrames, RingEvent.bad, Completion.good]

end Runs

end OdinLink
