import OdinLink.Driver.RxCallback

/-!
# One stream's share of the receive path

As long as every frame that arrives has the payload it announces, a stream evolves by
its own frames and its own readers alone: the device's run, seen at one stream id, is
the stream's run over the events meant for it.
-/

namespace OdinLink

def frameHdr (bs : List UInt8) : StreamHdr := (Mem.dmaWrite (fun _ => 0) bs).streamHdr

def framePayload (bs : List UInt8) : List UInt8 :=
  (bs.drop streamHdrSize).take (frameHdr bs).payloadLen.toNat

/-- Frames as the send paths build them: a header with no other flags than start and end, and all
the payload it announces. -/
structure WellSized (bs : List UInt8) : Prop where
  hdr : streamHdrSize ≤ rxSize bs
  nonempty : (frameHdr bs).payloadLen ≠ 0
  covered : streamHdrSize + (frameHdr bs).payloadLen.toNat ≤ bs.length
  flags : (frameHdr bs).flags.toNat ≤ 3

def Completion.arrivedAt (d : UInt8) (c : Completion) : Option (List UInt8) :=
  match c.frame with
  | .legacy _ => none
  | .slot _ =>
    if c.flagged then none
    else if (frameHdr c.received).dstId = d ∧ d ≠ streamIdCtrl then some c.received
    else none

namespace RxEvent

def arrivedAt (d : UInt8) : RxEvent → Option (List UInt8)
  | .complete c _ => c.arrivedAt d
  | .recv _ _ _ => none

def forStream (d : UInt8) : RxEvent → Option StreamEvent
  | .complete c env =>
    (c.arrivedAt d).map fun bs => .frame (frameHdr bs) (framePayload bs) env.alloc
  | .recv id bufLen copyFault => if id = d then some (.recv bufLen copyFault) else none

def wellSized : RxEvent → Prop
  | .complete c _ => c.flagged = false → WellSized c.received
  | .recv _ _ _ => True

end RxEvent

def RxAct.queuedOn (d : UInt8) : RxAct → Option RxMsg
  | .queued dst msg => if dst = d then some msg else none
  | _ => none

namespace RxDevice

theorem rxRepostLoop_streams (ringRx : Nat → Bool) (k : Nat) (dev : RxDevice) (n : Nat) :
    (rxRepostLoop ringRx k dev n).streams = dev.streams := by
  induction n generalizing k dev with
  | zero => rfl
  | succ n ih =>
    unfold rxRepostLoop
    split
    · rfl
    · split
      · rw [ih]
      · rfl

@[simp] theorem rxRepost_streams (dev : RxDevice) (ringRx : Nat → Bool) :
    (dev.rxRepost ringRx).streams = dev.streams :=
  rxRepostLoop_streams ringRx 0 dev _

@[simp] theorem poolPut_streams (dev : RxDevice) (slot : Nat) :
    (dev.poolPut slot).streams = dev.streams := rfl

@[simp] theorem rxControl_streams (dev : RxDevice) (type : Nat) :
    (dev.rxControl type).streams = dev.streams := by
  unfold rxControl
  split <;> rfl

@[simp] theorem dmaReceive_streams (dev : RxDevice) (c : Completion) :
    (dev.dmaReceive c).streams = dev.streams := by
  unfold dmaReceive
  split <;> rfl

theorem rxLegacyFrame_streams (dev : RxDevice) (idx : Nat) (c : Completion) :
    (dev.rxLegacyFrame idx c).1.streams = dev.streams := by
  unfold rxLegacyFrame
  split
  · rfl
  · dsimp only
    split
    · exact rxControl_streams _ _
    · rfl

theorem rxLegacyFrame_queued (dev : RxDevice) (idx : Nat) (c : Completion) (d : UInt8) :
    (dev.rxLegacyFrame idx c).2.filterMap (RxAct.queuedOn d) = [] := by
  unfold rxLegacyFrame
  split
  · rfl
  · dsimp only
    split <;> rfl

end RxDevice

section Memory
variable {bs : List UInt8} (hw : WellSized bs) (mem : Mem)
include hw

theorem WellSized.streamHdr_eq : (mem.dmaWrite bs).streamHdr = frameHdr bs :=
  Mem.streamHdr_dmaWrite_congr _ _ _ (hw.hdr.trans (rxSize_le bs))

theorem WellSized.payload_eq :
    (mem.dmaWrite bs).read streamHdrSize (frameHdr bs).payloadLen.toNat = framePayload bs :=
  Mem.read_dmaWrite _ _ hw.covered

theorem WellSized.not_magic : (mem.dmaWrite bs).le32 0 ≠ dmaMagic := by
  have hflags := hw.flags
  rw [← hw.streamHdr_eq mem] at hflags
  simp only [Mem.streamHdr] at hflags
  have h0 := (mem.dmaWrite bs 0).toNat_lt
  have h1 := (mem.dmaWrite bs 1).toNat_lt
  simp only [Mem.le32, dmaMagic, Nat.zero_add]
  omega

end Memory

namespace RxDevice

def viewAt (d : UInt8) (r : RxDevice × List RxAct) : Option Stream × List RxMsg :=
  (r.1.streams d, r.2.filterMap (RxAct.queuedOn d))

def stepAt (o : Option Stream) (e : Option StreamEvent) : Option Stream × List RxMsg :=
  match o, e with
  | some s, some e => (some (s.step e).1, (s.step e).2.toList)
  | o, _ => (o, [])

theorem stepAt_none (o : Option Stream) : stepAt o none = (o, []) := by
  cases o <;> rfl

section StreamFrame
variable {bs : List UInt8} (hw : WellSized bs) (dev : RxDevice) (mem : Mem) (alloc : AllocEnv)
include hw

theorem rxStreamFrame_own (hc : (frameHdr bs).dstId ≠ streamIdCtrl) :
    viewAt (frameHdr bs).dstId (dev.rxStreamFrame (mem.dmaWrite bs) alloc) =
      stepAt (dev.streams (frameHdr bs).dstId)
        (some (.frame (frameHdr bs) (framePayload bs) alloc)) := by
  simp only [viewAt, rxStreamFrame, hw.streamHdr_eq mem, hw.payload_eq mem, hc, if_false,
    streamLookup]
  cases hs : dev.streams (frameHdr bs).dstId with
  | none => simp [hs, stepAt]
  | some s =>
    by_cases h0 : s.refcount = 0
    · simp [h0, hs, stepAt, Stream.step]
    · have hq : ∀ q : Option RxMsg, (q.toList.map (RxAct.queued (frameHdr bs).dstId)).filterMap
          (RxAct.queuedOn (frameHdr bs).dstId) = q.toList := by
        intro q
        cases q <;> simp [RxAct.queuedOn]
      have ha : ∀ b : Bool, (if b then [RxAct.append (frameHdr bs).dstId
          (frameHdr bs).payloadLen.toNat] else []).filterMap
            (RxAct.queuedOn (frameHdr bs).dstId) = [] := by
        intro b
        cases b <;> simp [RxAct.queuedOn]
      have hr := s.rxFrame_keeps_refcount alloc (frameHdr bs) (framePayload bs)
      simp only [h0, if_false, hw.nonempty, setStream, if_true, Stream.rxFrame_refcount,
        List.filterMap_append, List.filterMap_cons, RxAct.queuedOn, hq, ha, List.nil_append, stepAt,
        Stream.step, List.cons_append]
      rw [Nat.add_sub_cancel, ← hr]

theorem rxStreamFrame_other {d : UInt8} (hd : (frameHdr bs).dstId ≠ d) :
    viewAt d (dev.rxStreamFrame (mem.dmaWrite bs) alloc) = (dev.streams d, []) := by
  have hd' : ¬ d = (frameHdr bs).dstId := fun h => hd h.symm
  simp only [viewAt, rxStreamFrame, hw.streamHdr_eq mem]
  split
  · rfl
  · split
    · rfl
    · simp only [hw.nonempty, if_false, setStream, hd', Prod.mk.injEq, true_and]
      apply List.filterMap_eq_nil_iff.mpr
      intro act hact
      rcases List.mem_append.mp hact with hact | hact
      · rcases List.mem_cons.mp hact with rfl | hact
        · rfl
        split at hact
        · rw [List.mem_singleton.mp hact]
          rfl
        · cases hact
      · obtain ⟨m, _, rfl⟩ := List.mem_map.mp hact
        simp [RxAct.queuedOn, hd]

theorem rxGoodFrame_view (d : UInt8) :
    viewAt d (dev.rxGoodFrame (mem.dmaWrite bs) (rxSize bs) alloc) =
      stepAt (dev.streams d) (if (frameHdr bs).dstId = d ∧ d ≠ streamIdCtrl then
        some (.frame (frameHdr bs) (framePayload bs) alloc) else none) := by
  have hr : dev.rxGoodFrame (mem.dmaWrite bs) (rxSize bs) alloc =
      dev.rxStreamFrame (mem.dmaWrite bs) alloc := by
    simp only [rxGoodFrame, hw.not_magic mem, and_false, if_false, hw.hdr, if_true]
  rw [hr]
  by_cases hd : (frameHdr bs).dstId = d
  · subst hd
    by_cases hc : (frameHdr bs).dstId = streamIdCtrl
    · simp [hc, stepAt_none, viewAt, rxStreamFrame, hw.streamHdr_eq mem]
    · rw [if_pos ⟨rfl, hc⟩, rxStreamFrame_own hw dev mem alloc hc]
  · rw [if_neg (fun h => hd h.1), stepAt_none, rxStreamFrame_other hw dev mem alloc hd]

end StreamFrame

def countGood (dev : RxDevice) : RxDevice :=
  {dev with rxPosted := dev.rxPosted - 1, rxFramesOk := dev.rxFramesOk + 1}

theorem rxPoolFrame_unflagged (dev : RxDevice) (idx : Nat) {c : Completion} (env : RxEnv)
    (h : c.flagged = false) :
    dev.rxPoolFrame idx c env =
      let r := dev.countGood.rxGoodFrame (dev.slotMem idx) (rxSize c.received) env.alloc
      ((r.1.poolPut idx).rxRepost env.ringRx, r.2) := by
  simp only [Completion.flagged, Bool.or_eq_false_iff] at h
  simp only [rxPoolFrame, h, Bool.false_eq_true, if_false]
  rfl

theorem rxPoolFrame_flagged (dev : RxDevice) (idx : Nat) {c : Completion} (env : RxEnv)
    (h : c.flagged = true) :
    (dev.rxPoolFrame idx c env).1.streams = dev.streams ∧ (dev.rxPoolFrame idx c env).2 = [] := by
  unfold rxPoolFrame
  split
  · exact ⟨rfl, rfl⟩
  · split
    · exact ⟨rfl, rfl⟩
    · split
      · exact ⟨rfl, rfl⟩
      · simp_all [Completion.flagged]

theorem dmaReceive_slotMem (dev : RxDevice) {idx : Nat} {c : Completion} (hf : c.frame = .slot idx) :
    (dev.dmaReceive c).slotMem idx = (dev.slotMem idx).dmaWrite c.received := by
  simp [dmaReceive, hf]

theorem rxPoolFrame_view (dev : RxDevice) (idx : Nat) (c : Completion) (env : RxEnv)
    (hf : c.frame = .slot idx) (hw : c.flagged = false → WellSized c.received) (d : UInt8) :
    viewAt d ((dev.dmaReceive c).rxPoolFrame idx c env) =
      stepAt (dev.streams d) ((RxEvent.complete c env).forStream d) := by
  simp only [RxEvent.forStream, Completion.arrivedAt, hf]
  by_cases h : c.flagged
  · obtain ⟨hs, ha⟩ := (dev.dmaReceive c).rxPoolFrame_flagged idx env h
    rw [viewAt, hs, ha, dmaReceive_streams, if_pos h, Option.map_none, stepAt_none]
    rfl
  · rw [Bool.not_eq_true] at h
    rw [rxPoolFrame_unflagged _ idx env h, dmaReceive_slotMem dev hf, h]
    have hg := rxGoodFrame_view (hw h) (dev.dmaReceive c).countGood (dev.slotMem idx) env.alloc d
    have hcount : (dev.dmaReceive c).countGood.streams d = dev.streams d :=
      congrFun (dmaReceive_streams dev c) d
    rw [hcount] at hg
    simp only [viewAt, rxRepost_streams, poolPut_streams, Bool.false_eq_true, if_false, apply_ite,
      Option.map_some, Option.map_none] at hg ⊢
    exact hg

theorem step_view (dev : RxDevice) (e : RxEvent) (hw : e.wellSized) (d : UInt8) :
    viewAt d (dev.step e) = stepAt (dev.streams d) (e.forStream d) := by
  cases e with
  | complete c env =>
    cases hf : c.frame with
    | slot idx =>
      simp only [step, rxCallback, hf]
      exact dev.rxPoolFrame_view idx c env hf hw d
    | legacy idx =>
      simp only [step, rxCallback, hf, RxEvent.forStream, Completion.arrivedAt, Option.map_none,
        stepAt_none, viewAt, rxLegacyFrame_streams, rxLegacyFrame_queued, dmaReceive_streams]
  | recv id bufLen copyFault =>
    simp only [step, RxEvent.forStream]
    by_cases hid : id = d
    · subst hid
      cases hs : dev.streams id with
      | none => simp [viewAt, stepAt, hs]
      | some s => simp [viewAt, stepAt, setStream, Stream.step]
    · have hid' : ¬ d = id := fun h => hid h.symm
      simp only [hid, if_false, stepAt_none]
      cases dev.streams id with
      | none => rfl
      | some s => simp [viewAt, setStream, hid']

/-- A run of the device, seen at one stream id, is that stream's run over its own events. -/
theorem run_view (dev : RxDevice) (es : List RxEvent) (hw : ∀ e ∈ es, e.wellSized) (d : UInt8) :
    viewAt d (dev.run es) =
      match dev.streams d with
      | none => (none, [])
      | some s =>
        (some (s.run (es.filterMap (RxEvent.forStream d))).1,
          (s.run (es.filterMap (RxEvent.forStream d))).2) := by
  induction es generalizing dev with
  | nil => cases hs : dev.streams d <;> simp [viewAt, hs]
  | cons e es ih =>
    have hstep := dev.step_view e (hw e List.mem_cons_self) d
    have hrest := ih (dev.step e).1 fun e' he' => hw e' (List.mem_cons_of_mem e he')
    have hview : viewAt d (dev.run (e :: es)) =
        ((viewAt d ((dev.step e).1.run es)).1,
          (viewAt d (dev.step e)).2 ++ (viewAt d ((dev.step e).1.run es)).2) := by
      simp [viewAt, run]
    rw [hview, hrest, hstep]
    have hs1 : (dev.step e).1.streams d = (stepAt (dev.streams d) (e.forStream d)).1 :=
      congrArg Prod.fst hstep
    rw [hs1]
    cases dev.streams d with
    | none => cases he : e.forStream d <;> simp [stepAt]
    | some s =>
      cases he : e.forStream d with
      | none => simp [stepAt, he]
      | some se => simp [stepAt, he, Stream.run]

end RxDevice

end OdinLink
