import OdinLink.Driver.RoundTrip
import OdinLink.Lib.Arrivals

/-!
# Frames lost on the way

Messages are sent one after another and any of their frames may be lost. The receiver has only flags
and a per-message index to go by.
-/

namespace OdinLink

open Reassembly (Asm Family arrivals kept intact Unmixed)

def keepFrames (arrives : Nat → Bool) (fs : List TxFrame) : List TxFrame :=
  ((List.range fs.length).filter arrives).filterMap fun k => fs[k]?

def arrivedFrames (sends : Nat → Send) (arrives : Nat → Nat → Bool) (n : Nat) : List TxFrame :=
  (List.range n).flatMap fun i => keepFrames (arrives i) (sends i).frames

theorem Send.Sent.keepFrames_eq {x : Send} (h : x.Sent) (arrives : Nat → Bool) :
    keepFrames arrives x.frames = ((List.range x.frameNumber).filter arrives).map x.frame := by
  have hget : ∀ k < x.frameNumber, x.frames[k]? = some (x.frame k) := by
    intro k hk
    have hr : (List.range x.frames.length)[k]? = some k := List.getElem?_range hk
    rw [(Send.frames_eq h.accepted).2.1, List.getElem?_map, hr]
    rfl
  rw [keepFrames, ← List.filterMap_eq_map]
  apply List.filterMap_congr
  intro k hk
  exact hget k (List.mem_range.mp (List.mem_of_mem_filter hk))

theorem arrivedFrames_eq (sends : Nat → Send) (hsent : ∀ i, (sends i).Sent)
    (arrives : Nat → Nat → Bool) (n : Nat) :
    arrivedFrames sends arrives n =
      (arrivals (fun i => (sends i).frameNumber) arrives n).map
        fun e => (sends e.1).frame e.2 := by
  rw [arrivedFrames, arrivals, List.map_flatMap]
  apply List.flatMap_congr
  intro i _
  rw [(hsent i).keepFrames_eq, kept, Family.leading, List.filter_map, List.map_map]
  rfl

theorem streamCreate_agrees (d : UInt8) :
    (streamCreate d).Agrees (⟨0, 0, false, []⟩ : Asm UInt8 UInt8) :=
  ⟨rfl, rfl, rfl, rfl, rfl, fun _ => rfl, fun _ => rfl⟩

theorem rxMsg_injective : Function.Injective rxMsg := by
  rintro ⟨a, as⟩ ⟨b, bs⟩ h
  simp only [rxMsg, RxMsg.mk.injEq, true_and] at h
  rw [h.1, h.2]

theorem map_rxMsg_sublist {l m : List (UInt8 × List UInt8)} :
    (l.map rxMsg).Sublist (m.map rxMsg) ↔ l.Sublist m := by
  refine ⟨fun h => ?_, fun h => h.map rxMsg⟩
  obtain ⟨l', hl', heq⟩ := List.sublist_map_iff.mp h
  rwa [List.map_injective_iff.mpr rxMsg_injective heq]

def LossSafe (sends : Nat → Send) (arrives : Nat → Nat → Bool) (n : Nat)
    (queued : List RxMsg) : Prop :=
  queued.Sublist (((List.range n).filter (intact (fun i => (sends i).frameNumber) arrives)).map
    fun i => (sends i).message)

/-- Frame loss corrupts nothing exactly when the arrivals are unmixed; soundness does not depend
on room on the queue. -/
theorem lossSafe_iff_unmixed (dev : RxDevice) (d : UInt8)
    (hs : dev.streams d = some (streamCreate d)) (sends : Nat → Send)
    (hsent : ∀ i, (sends i).Sent) (arrives : Nat → Nat → Bool) (n : Nat) (evs : List RxEvent)
    (hem : ∀ e ∈ evs, e.emitted) (halloc : ∀ e ∈ evs, e.allocOk)
    (harr : evs.filterMap (RxEvent.arrivedAt d) =
      (arrivedFrames sends arrives n).map TxFrame.wire) :
    let queued := (dev.run evs).2.filterMap (RxAct.queuedOn d)
    let size := fun i => (sends i).frameNumber
    (Unmixed size (arrivals size arrives n) → LossSafe sends arrives n queued) ∧
      (dev.QueueRoom d evs →
        (LossSafe sends arrives n queued ↔ Unmixed size (arrivals size arrives n))) := by
  intro queued size
  have hsize : size = (family sends).size := funext fun i => (hsent i).frameNumber_eq
  have hinside : ∀ e ∈ arrivals size arrives n, e.2 < frameCount (sends e.1).data := by
    intro e he
    obtain ⟨i, _, hi⟩ := List.mem_flatMap.mp he
    obtain ⟨rfl, hlt, _⟩ := (Reassembly.mem_kept size arrives).mp hi
    exact (hsent e.1).frameNumber_eq ▸ hlt
  have hc : Carries sends d (arrivals size arrives n) evs :=
    { accepted := fun e _ => (hsent e.1).accepted
      inside := hinside
      wellSized := fun e he => (hem e he).wellSized
      allocOk := halloc
      arrived := by rw [harr, arrivedFrames_eq sends hsent, List.map_map]; rfl }
  obtain ⟨t, _, hsub, hall, _⟩ := hc.run hs Nat.one_ne_zero (Or.inl (streamCreate_agrees d))
  have hiff := Reassembly.run_arrivals_iff (family sends) (s := ⟨0, 0, false, []⟩) (Or.inr rfl)
    arrives n fun i _ => (hsent i).accepted.frameCount_pos
  rw [← hsize] at hiff
  have hmap : ∀ l : List Nat, (l.map (family sends).whole).map rxMsg =
      l.map fun i => (sends i).message := by
    intro l
    rw [List.map_map]
    exact List.map_congr_left fun i _ => rxMsg_whole sends i
  refine ⟨fun hu => ?_, fun hroom => ?_⟩
  · have h := (hiff.mpr hu).map rxMsg
    rw [hmap] at h
    exact hsub.trans h
  · have hq : queued = ((family sends).run ⟨0, 0, false, []⟩ (arrivals size arrives n)).2.map rxMsg :=
      hall (hroom.stream hc.wellSized hs)
    rw [← hiff, LossSafe, hq, ← hmap]
    exact map_rxMsg_sublist

def lossMessage (i : Nat) : List UInt8 := if i = 0 then [1] else twoFrameData

def lossSends (i : Nat) : Send := latencySend 20 1 (lossMessage i) (frameCount (lossMessage i))

theorem lossMessage_length (i : Nat) : (lossMessage i).length = if i = 0 then 1 else 4025 := by
  unfold lossMessage
  split
  · rfl
  · exact twoFrameData_length

theorem lossSends_sent (i : Nat) : (lossSends i).Sent := by
  apply latencySend_sent
  have h := lossMessage_length i
  unfold Send.Accepted
  change 0 < (lossMessage i).length ∧ (lossMessage i).length ≤ streamPayloadMax * streamMaxFrames
  rw [h]
  split <;> decide

theorem lossSends_frameNumber (i : Nat) :
    (lossSends i).frameNumber = if i = 0 then 1 else 2 := by
  rw [(lossSends_sent i).frameNumber_eq, frameCount]
  change Chunks.count streamPayloadMax (lossMessage i).length = _
  rw [lossMessage_length]
  split <;> decide

theorem lossSends_arrivals (arrives : Nat → Nat → Bool) (n : Nat) :
    arrivals (fun i => (lossSends i).frameNumber) arrives n =
      arrivals (fun i => if i = 0 then 1 else 2) arrives n := by
  simp only [lossSends_frameNumber]

def endLost (i k : Nat) : Bool := !(i == 1 && k == 1)

/-- The second of three messages loses its last frame. -/
theorem lossSafe_iff_unmixed_demo :
    let size := fun i => (lossSends i).frameNumber
    let evs := arriveAll ((arrivals size endLost 3).map fun e => (lossSends e.1, e.2))
    arrivals size endLost 3 = [(0, 0), (1, 0), (2, 0), (2, 1)] ∧
      Unmixed size (arrivals size endLost 3) ∧
      LossSafe lossSends endLost 3
        (((RxDevice.opened 1).run evs).2.filterMap (RxAct.queuedOn 1)) := by
  intro size evs
  have harrivals : arrivals size endLost 3 = [(0, 0), (1, 0), (2, 0), (2, 1)] :=
    (lossSends_arrivals endLost 3).trans (by decide)
  have hunmixed : Unmixed size (arrivals size endLost 3) := by
    rw [harrivals, show size = fun i => if i = 0 then 1 else 2 from funext lossSends_frameNumber]
    decide
  have hem : ∀ e ∈ evs, e.emitted := by
    apply arriveAll_emitted
    intro e he
    obtain ⟨p, hp, rfl⟩ := List.mem_map.mp he
    obtain ⟨i, _, hi⟩ := List.mem_flatMap.mp hp
    obtain ⟨rfl, hlt, _⟩ := (Reassembly.mem_kept size endLost).mp hi
    exact ⟨(lossSends_sent p.1).accepted, hlt⟩
  have harr : evs.filterMap (RxEvent.arrivedAt 1) =
      (arrivedFrames lossSends endLost 3).map TxFrame.wire := by
    have hdst (e : Nat × Nat) : (lossSends e.1).dstId = 1 := rfl
    rw [arriveAll_arrivedAt (by decide), arrivedFrames_eq lossSends lossSends_sent, List.filter_map,
      List.map_map, List.map_map]
    simp [Function.comp_def, hdst, size]
  refine ⟨harrivals, hunmixed, ?_⟩
  exact (lossSafe_iff_unmixed (RxDevice.opened 1) 1 rfl lossSends lossSends_sent endLost 3 evs hem
    arriveAll_allocOk harr).1 hunmixed

def lossArrives (i k : Nat) : Bool := !(i == 1 && k == 0)

def lossEvents : List RxEvent :=
  [.complete (.good 0 ((lossSends 0).frame 0).wire) .ok,
    .complete (.good 1 ((lossSends 1).frame 1).wire) .ok]

theorem lossSends_wire :
    ((lossSends 0).frame 0).wire = [20, 1, 3, 0, 1, 0, 0, 0, 1] ∧
      ((lossSends 1).frame 1).wire = [20, 1, 2, 0, 1, 0, 1, 0, 3] := by
  have hpiece : Chunks.piece streamPayloadMax twoFrameData 1 = [3] := by
    rw [Chunks.piece, Nat.one_mul, twoFrameData, List.drop_left' List.length_replicate]
    rfl
  refine ⟨by decide, ?_⟩
  rw [frame_wire]
  simp only [Send.frame, fragFrame, lossSends, latencySend, lossMessage, Nat.one_ne_zero, if_false,
    hpiece, twoFrameData_frameCount]
  decide

/-- The tail of a message whose start was lost is queued as a message: it continues the index the
message before left behind. -/
theorem loss_queues_tail :
    (RxDevice.opened 1).streams 1 = some (streamCreate 1) ∧ (∀ i, (lossSends i).Sent) ∧
      (∀ e ∈ lossEvents, e.emitted ∧ e.allocOk) ∧
      lossEvents.filterMap (RxEvent.arrivedAt 1) =
        (arrivedFrames lossSends lossArrives 2).map TxFrame.wire ∧
      ((RxDevice.opened 1).run lossEvents).2.filterMap (RxAct.queuedOn 1) =
        [⟨20, 2, [1]⟩, ⟨20, 2, [3]⟩] ∧
      ¬ LossSafe lossSends lossArrives 2
        (((RxDevice.opened 1).run lossEvents).2.filterMap (RxAct.queuedOn 1)) := by
  obtain ⟨hw0, hw1⟩ := lossSends_wire
  have hevents : lossEvents = [.complete (.good 0 [20, 1, 3, 0, 1, 0, 0, 0, 1]) .ok,
      .complete (.good 1 [20, 1, 2, 0, 1, 0, 1, 0, 3]) .ok] := by
    rw [lossEvents, hw0, hw1]
  have hqueued : ((RxDevice.opened 1).run lossEvents).2.filterMap (RxAct.queuedOn 1) =
      [⟨20, 2, [1]⟩, ⟨20, 2, [3]⟩] := by
    rw [hevents]
    decide
  have hnum : ∀ i k, (k < if i = 0 then 1 else 2) → k < (lossSends i).frames.length :=
    fun i k hk => Nat.lt_of_lt_of_eq hk (lossSends_frameNumber i).symm
  refine ⟨rfl, lossSends_sent, ?_, ?_, hqueued, ?_⟩
  · intro e he
    simp only [lossEvents, List.mem_cons, List.not_mem_nil, or_false] at he
    rcases he with rfl | rfl
    · exact ⟨Send.emitted_complete (lossSends_sent 0).accepted (hnum 0 0 (by decide)) 0 .ok, rfl⟩
    · exact ⟨Send.emitted_complete (lossSends_sent 1).accepted (hnum 1 1 (by decide)) 1 .ok, rfl⟩
  · have harr : (arrivedFrames lossSends lossArrives 2).map TxFrame.wire =
        [((lossSends 0).frame 0).wire, ((lossSends 1).frame 1).wire] := by
      rw [arrivedFrames_eq lossSends lossSends_sent, List.map_map, lossSends_arrivals,
        show arrivals (fun i => if i = 0 then 1 else 2) lossArrives 2 = [(0, 0), (1, 1)] by decide]
      simp only [List.map_cons, List.map_nil, Function.comp]
    rw [harr, hw0, hw1, hevents]
    decide
  · intro hsafe
    have hlen := hsafe.length_le
    rw [hqueued, List.length_map] at hlen
    simp only [lossSends_frameNumber] at hlen
    revert hlen
    decide

end OdinLink
