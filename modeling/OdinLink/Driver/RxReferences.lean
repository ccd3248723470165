import OdinLink.Driver.RxProjection

/-!
# References of the receive path

The lookup of a frame's stream takes a reference, and the end of the frame puts it back. A frame
that announces no payload is dropped between the two, and its reference is never put.
-/

namespace OdinLink

def frameMagic (bs : List UInt8) : Nat := (Mem.dmaWrite (fun _ => 0) bs).le32 0

def Completion.emptyFor (d : UInt8) (c : Completion) : Bool :=
  match c.frame with
  | .legacy _ => false
  | .slot _ =>
    !c.flagged && decide (streamHdrSize ≤ rxSize c.received) &&
      !(decide (dmaHdrSize ≤ rxSize c.received) && frameMagic c.received == dmaMagic) &&
      (frameHdr c.received).dstId == d && d != streamIdCtrl &&
      (frameHdr c.received).payloadLen == 0

theorem Completion.emptyFor_of_payload {c : Completion}
    (h : (frameHdr c.received).payloadLen ≠ 0) (d : UInt8) : c.emptyFor d = false := by
  unfold emptyFor
  split
  · rfl
  · simp [h]

def RxEvent.emptyFor (d : UInt8) : RxEvent → Bool
  | .complete c _ => c.emptyFor d
  | .recv _ _ _ => false

namespace Stream

def krefPut (s : Stream) : Option Stream :=
  if s.refcount = 1 then none else some {s with refcount := s.refcount - 1}

end Stream

namespace RxDevice

def refs (dev : RxDevice) (d : UInt8) : Option Nat := (dev.streams d).map (·.refcount)

/-- Closing a stream takes it out of the table and puts the reference it was created with. What is
left of it is returned, `none` once it is freed. -/
def streamDestroy (dev : RxDevice) (d : UInt8) : RxDevice × Option Stream :=
  match dev.streams d with
  | none => (dev, none)
  | some s =>
    ({dev with streams := Function.update dev.streams d none}, {s with dying := true}.krefPut)

def leakRef (empty : Bool) (n : Nat) : Nat := if empty && n != 0 then n + 1 else n

theorem leakRef_false (n : Nat) : leakRef false n = n := by
  simp [leakRef]

theorem refs_of_streams {dev dev' : RxDevice} (h : dev'.streams = dev.streams) (d : UInt8) :
    dev'.refs d = dev.refs d := by
  rw [refs, refs, h]

theorem refs_map_leakRef_false (dev : RxDevice) (d : UInt8) :
    (dev.refs d).map (leakRef false) = dev.refs d := by
  have h : leakRef false = id := funext leakRef_false
  rw [h, Option.map_id, id]

theorem refs_setStream (dev : RxDevice) (j : UInt8) (s : Stream) (d : UInt8) :
    (dev.setStream j s).refs d = if d = j then some s.refcount else dev.refs d := by
  simp only [refs, setStream]
  split <;> rfl

section Frame
variable (dev : RxDevice) (mem : Mem) (alloc : AllocEnv) (d : UInt8)

theorem rxStreamFrame_refs :
    (dev.rxStreamFrame mem alloc).1.refs d =
      (dev.refs d).map (leakRef (mem.streamHdr.dstId == d && d != streamIdCtrl &&
        mem.streamHdr.payloadLen == 0)) := by
  simp only [rxStreamFrame]
  split
  · next hctrl =>
    have hnot : (mem.streamHdr.dstId == d && d != streamIdCtrl &&
        mem.streamHdr.payloadLen == 0) = false := by
      grind
    rw [hnot, refs_map_leakRef_false]
  · next hctrl =>
    by_cases hid : d = mem.streamHdr.dstId
    · subst hid
      have htest : (mem.streamHdr.dstId == mem.streamHdr.dstId &&
          mem.streamHdr.dstId != streamIdCtrl && mem.streamHdr.payloadLen == 0) =
            (mem.streamHdr.payloadLen == 0) := by
        grind
      rw [htest]
      unfold streamLookup
      cases hs : dev.streams mem.streamHdr.dstId with
      | none => simp [refs, hs]
      | some s =>
        by_cases h0 : s.refcount = 0
        · simp [refs, hs, h0, leakRef]
        · have hrefs : dev.refs mem.streamHdr.dstId = some s.refcount := by
            rw [refs, hs, Option.map_some]
          by_cases hlen : mem.streamHdr.payloadLen = 0
          · simp [h0, hlen, refs_setStream, hrefs, leakRef]
          · simp [h0, hlen, refs_setStream, hrefs, leakRef, Stream.rxFrame_keeps_refcount]
    · have hother : (mem.streamHdr.dstId == d && d != streamIdCtrl &&
          mem.streamHdr.payloadLen == 0) = false := by
        grind
      rw [hother, refs_map_leakRef_false]
      split
      · rfl
      · split
        · rw [refs_setStream, if_neg hid]
        · rw [refs_setStream, if_neg hid]

variable {bs : List UInt8}

theorem rxGoodFrame_refs :
    (dev.rxGoodFrame (mem.dmaWrite bs) (rxSize bs) alloc).1.refs d =
      (dev.refs d).map (leakRef (decide (streamHdrSize ≤ rxSize bs) &&
        !(decide (dmaHdrSize ≤ rxSize bs) && frameMagic bs == dmaMagic) &&
        (frameHdr bs).dstId == d && d != streamIdCtrl && (frameHdr bs).payloadLen == 0)) := by
  have hmagic : (dmaHdrSize ≤ rxSize bs ∧ (mem.dmaWrite bs).le32 0 = dmaMagic) ↔
      (dmaHdrSize ≤ rxSize bs ∧ frameMagic bs = dmaMagic) := by
    refine and_congr_right fun hlen => ?_
    have h4 : 0 + 4 ≤ bs.length := Nat.le_trans (Nat.le_trans (by decide) hlen) (rxSize_le bs)
    rw [le32_dmaWrite_congr mem (fun _ => 0) bs h4, frameMagic]
  unfold rxGoodFrame
  split
  · next hc =>
    have hfalse : (decide (streamHdrSize ≤ rxSize bs) &&
        !(decide (dmaHdrSize ≤ rxSize bs) && frameMagic bs == dmaMagic) &&
        (frameHdr bs).dstId == d && d != streamIdCtrl &&
        (frameHdr bs).payloadLen == 0) = false := by
      have hm := hmagic.mp hc
      simp [hm.1, hm.2]
    rw [hfalse, refs_map_leakRef_false, refs_of_streams (rxControl_streams _ _)]
  · next hc =>
    have hm : (decide (dmaHdrSize ≤ rxSize bs) && frameMagic bs == dmaMagic) = false := by
      rw [hmagic] at hc
      simpa using hc
    split
    · next hlen =>
      have hhdr : (mem.dmaWrite bs).streamHdr = frameHdr bs :=
        Mem.streamHdr_dmaWrite_congr _ _ _ (hlen.trans (rxSize_le bs))
      rw [rxStreamFrame_refs, hhdr, hm]
      simp [hlen]
    · next hlen =>
      simp only [hlen, decide_false, Bool.false_and]
      rw [refs_map_leakRef_false]

end Frame

theorem rxPoolFrame_refs (dev : RxDevice) (idx : Nat) (c : Completion) (env : RxEnv)
    (hf : c.frame = .slot idx) (d : UInt8) :
    ((dev.dmaReceive c).rxPoolFrame idx c env).1.refs d =
      (dev.refs d).map (leakRef (c.emptyFor d)) := by
  have hempty : c.emptyFor d =
      (!c.flagged && (decide (streamHdrSize ≤ rxSize c.received) &&
        !(decide (dmaHdrSize ≤ rxSize c.received) && frameMagic c.received == dmaMagic) &&
        (frameHdr c.received).dstId == d && d != streamIdCtrl &&
        (frameHdr c.received).payloadLen == 0)) := by
    simp only [Completion.emptyFor, hf, Bool.and_assoc]
  cases h : c.flagged with
  | true =>
    obtain ⟨hs, -⟩ := (dev.dmaReceive c).rxPoolFrame_flagged idx env h
    rw [hempty, h, Bool.not_true, Bool.false_and, refs_map_leakRef_false,
      refs_of_streams (hs.trans (dmaReceive_streams dev c))]
  | false =>
    rw [hempty, h, Bool.not_false, Bool.true_and, rxPoolFrame_unflagged _ idx env h,
      dmaReceive_slotMem dev hf]
    have hstreams : (dev.dmaReceive c).countGood.streams = dev.streams := dmaReceive_streams dev c
    rw [← refs_of_streams hstreams d, ← rxGoodFrame_refs]
    exact refs_of_streams ((rxRepost_streams _ _).trans (poolPut_streams _ _)) d

theorem step_refs (dev : RxDevice) (e : RxEvent) (d : UInt8) :
    (dev.step e).1.refs d = (dev.refs d).map (leakRef (e.emptyFor d)) := by
  cases e with
  | complete c env =>
    cases hf : c.frame with
    | slot idx =>
      simp only [step, rxCallback, hf]
      exact dev.rxPoolFrame_refs idx c env hf d
    | legacy idx =>
      have hempty : (RxEvent.complete c env).emptyFor d = false := by
        simp [RxEvent.emptyFor, Completion.emptyFor, hf]
      rw [hempty, refs_map_leakRef_false]
      simp only [step, rxCallback, hf]
      exact refs_of_streams ((rxLegacyFrame_streams _ _ _).trans (dmaReceive_streams dev c)) d
  | recv j bufLen copyFault =>
    rw [show (RxEvent.recv j bufLen copyFault).emptyFor d = false from rfl,
      refs_map_leakRef_false]
    simp only [step]
    cases hs : dev.streams j with
    | none => rfl
    | some s =>
      have hkeep := s.step_refcount (.recv bufLen copyFault)
      simp only [Stream.step] at hkeep
      simp only [refs_setStream, hkeep]
      split
      · next hid => rw [refs, hid, hs, Option.map_some]
      · rfl

theorem run_refs (dev : RxDevice) (es : List RxEvent) (d : UInt8) :
    (dev.run es).1.refs d =
      (dev.refs d).map fun n => if n = 0 then 0 else n + es.countP (RxEvent.emptyFor d) := by
  induction es generalizing dev with
  | nil =>
    rw [run_nil]
    cases dev.refs d with
    | none => rfl
    | some n => cases n <;> rfl
  | cons e es ih =>
    rw [run, ih, step_refs, Option.map_map]
    refine congrArg (fun f => (dev.refs d).map f) (funext fun n => ?_)
    simp only [Function.comp_apply, leakRef, List.countP_cons]
    cases e.emptyFor d <;> cases n <;> simp
    omega

theorem streamDestroy_freed {dev : RxDevice} {d : UInt8} {n : Nat} (h : dev.refs d = some n) :
    (dev.streamDestroy d).2 = none ↔ n = 1 := by
  obtain ⟨s, hs, rfl⟩ := Option.map_eq_some_iff.mp h
  simp only [streamDestroy, hs, Stream.krefPut]
  split <;> next h1 => simp [h1]

/-- A frame leaves every reference count as it was, unless it is an empty frame for a stream in use;
and a stream is freed when it is closed, whatever has been received, unless an empty frame was for
it. -/
theorem reference_neutral_iff_no_empty_frame (dev : RxDevice) :
    (∀ (c : Completion) (env : RxEnv),
      (∀ d, (dev.step (.complete c env)).1.refs d = dev.refs d) ↔
        ∀ d n, dev.refs d = some n → n ≠ 0 → c.emptyFor d = false) ∧
    ∀ (es : List RxEvent) (d : UInt8), dev.refs d = some 1 →
      (((dev.run es).1.streamDestroy d).2 = none ↔ ∀ e ∈ es, e.emptyFor d = false) := by
  constructor
  · intro c env
    constructor
    · intro hall d n hn h0
      have hstep := dev.step_refs (.complete c env) d
      rw [hall d, hn, Option.map_some] at hstep
      cases he : c.emptyFor d with
      | false => rfl
      | true =>
        simp [RxEvent.emptyFor, he, leakRef, h0] at hstep
    · intro hno d
      rw [step_refs]
      cases hn : dev.refs d with
      | none => rfl
      | some n =>
        rw [Option.map_some, leakRef]
        by_cases h0 : n = 0
        · simp [h0]
        · simp [RxEvent.emptyFor, hno d n hn h0]
  · intro es d h1
    have hrun : (dev.run es).1.refs d = some (1 + es.countP (RxEvent.emptyFor d)) := by
      rw [run_refs, h1]
      rfl
    rw [streamDestroy_freed hrun, Nat.add_eq_left, List.countP_eq_zero]
    simp only [Bool.not_eq_true]

def bareFrame : Completion := .good 0 [9, 1, 3, 0, 0, 0, 0, 0]

def oneByteFrame : Completion := .good 0 [9, 1, 3, 0, 1, 0, 0, 0, 42]

theorem bare_frame_keeps_the_stream :
    let dev := RxDevice.opened 1
    (dev.step (.complete bareFrame .ok)).1.refs 1 ≠ dev.refs 1 ∧
      ((dev.step (.complete bareFrame .ok)).1.streamDestroy 1).2 ≠ none := by
  decide

theorem one_byte_frame_is_neutral :
    let dev := RxDevice.opened 1
    (∀ d, (dev.step (.complete oneByteFrame .ok)).1.refs d = dev.refs d) ∧
      ((dev.run [.complete oneByteFrame .ok]).1.streamDestroy 1).2 = none := by
  have hno : ∀ d, oneByteFrame.emptyFor d = false :=
    Completion.emptyFor_of_payload (by decide)
  refine ⟨((reference_neutral_iff_no_empty_frame _).1 _ _).mpr fun d _ _ _ => hno d,
    ((reference_neutral_iff_no_empty_frame _).2 _ 1 rfl).mpr ?_⟩
  intro e he
  rw [List.mem_singleton.mp he]
  exact hno 1

end RxDevice

end OdinLink
