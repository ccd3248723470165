import OdinLink.Driver.FrameLoss

/-!
# Sends at the same time

Several sends to one stream run at the same time and their frames reach the ring in any
interleaving: there is no lock over a whole send, and the receiver has one assembly for each stream.
-/

namespace OdinLink

open Reassembly (Asm Family Interleaves Unmixed)

section Schedule
variable {ι : Type} [DecidableEq ι]

structure Shape (ι : Type) where
  srcId : ι → UInt8
  len : ι → Nat
  count : ι → Nat
  accepted : ∀ i, 0 < len i ∧ len i ≤ streamPayloadMax * streamMaxFrames
  inside : ∀ i, count i ≤ Chunks.count streamPayloadMax (len i)

def Shape.size (p : Shape ι) (i : ι) : Nat := Chunks.count streamPayloadMax (p.len i)

structure Shape.Fits (p : Shape ι) (d : UInt8) (sends : ι → Send) : Prop where
  srcId : ∀ i, (sends i).srcId = p.srcId i
  dstId : ∀ i, (sends i).dstId = d
  len : ∀ i, (sends i).data.length = p.len i
  count : ∀ i, (sends i).frames.length = p.count i

structure Arrives (d : UInt8) (sends : ι → Send) (es : List (ι × Nat)) (dev : RxDevice)
    (evs : List RxEvent) : Prop where
  created : dev.streams d = some (streamCreate d)
  emitted : ∀ e ∈ evs, e.emitted
  allocOk : ∀ e ∈ evs, e.allocOk
  arrived : evs.filterMap (RxEvent.arrivedAt d) =
    (es.filterMap fun e => (sends e.1).frames[e.2]?).map TxFrame.wire

def NotMixed (sends : ι → Send) (queued : List RxMsg) : Prop :=
  ∃ tags : List ι, tags.Nodup ∧ (∀ i ∈ tags, (sends i).succeeds = true) ∧
    queued = tags.map fun i => (sends i).message

variable {sends : ι → Send} {p : Shape ι} {es : List (ι × Nat)} {d : UInt8}

omit [DecidableEq ι] in
theorem Shape.Fits.accepted (h : p.Fits d sends) (i : ι) : (sends i).Accepted := by
  unfold Send.Accepted
  rw [h.len]
  exact p.accepted i

omit [DecidableEq ι] in
theorem Shape.Fits.size_eq (h : p.Fits d sends) :
    (family sends).size = p.size := by
  funext i
  rw [family_size, frameCount, h.len, Shape.size]

theorem frames_getElem? (hp : p.Fits d sends) (hes : Interleaves p.count es) :
    (es.filterMap fun e => (sends e.1).frames[e.2]?) = es.map fun e => (sends e.1).frame e.2 := by
  rw [← List.filterMap_eq_map]
  apply List.filterMap_congr
  intro e he
  have hr : (List.range (sends e.1).frames.length)[e.2]? = some e.2 := by
    apply List.getElem?_range
    rw [hp.count]
    exact Reassembly.mem_leading_of_interleaves hes he
  rw [(Send.frames_eq (hp.accepted e.1)).2.1, List.getElem?_map, hr]
  rfl

theorem Arrives.carries
    {dev : RxDevice} {evs : List RxEvent} (h : Arrives d sends es dev evs) (hp : p.Fits d sends)
    (hes : Interleaves p.count es) : Carries sends d es evs := by
  refine
    { accepted := fun e _ => hp.accepted e.1
      inside := fun e he => ?_
      wellSized := fun e he => (h.emitted e he).wellSized
      allocOk := h.allocOk
      arrived := by rw [h.arrived, frames_getElem? hp hes, List.map_map]; rfl }
  have hlt := Reassembly.mem_leading_of_interleaves hes he
  rw [← hp.count] at hlt
  exact Nat.lt_of_lt_of_le hlt (Send.frames_eq (hp.accepted e.1)).1

theorem notMixed_of_unmixed
    {dev : RxDevice} {evs : List RxEvent} (h : Arrives d sends es dev evs) (hp : p.Fits d sends)
    (hes : Interleaves p.count es) (hu : Unmixed p.size es) :
    NotMixed sends ((dev.run evs).2.filterMap (RxAct.queuedOn d)) := by
  rw [← hp.size_eq] at hu
  obtain ⟨t, _, hsub, _, _⟩ := (h.carries hp hes).run h.created Nat.one_ne_zero
    (Or.inl (streamCreate_agrees d))
  rw [Reassembly.run_unmixed (family sends) (Or.inr rfl) hu, List.map_map] at hsub
  obtain ⟨tags, htags, hq⟩ := List.sublist_map_iff.mp hsub
  refine ⟨tags, htags.nodup (Reassembly.endTags_nodup _ hes), ?_, ?_⟩
  · intro i hi
    have hcount := Reassembly.count_of_mem_endTags _ hes (htags.subset hi)
    have hfr := Send.frames_eq (hp.accepted i)
    apply hfr.2.2.mpr
    rw [← hp.count, family_size] at hcount
    exact Nat.le_antisymm hfr.1 hcount
  · rw [hq]
    exact List.map_congr_left fun i _ => rxMsg_whole sends i

end Schedule

structure Stream.Drained (s : Stream) : Prop where
  view : s.queueView = ([], 0, s.rxQueueMax, 0)
  max : 2 ≤ s.rxQueueMax

theorem Stream.Drained.step {s : Stream} (h : s.Drained) (hdr : StreamHdr) (payload : List UInt8) :
    s.hasRoom = true ∧ (s.step (.frame hdr payload .ok)).1.hasRoom = true ∧
      ((s.step (.frame hdr payload .ok)).1.step (.recv 0 false)).1.Drained := by
  have hmax := h.max
  have hview := h.view
  simp only [Stream.queueView, Prod.mk.injEq, true_and] at hview
  obtain ⟨h1, h2, h3⟩ := hview
  refine ⟨by simp only [Stream.hasRoom, decide_eq_true_eq]; omega, ?_⟩
  by_cases h0 : s.refcount = 0
  · simp only [Stream.step, h0, if_true, streamRecv, h3, Int.le_refl]
    exact ⟨by simp only [Stream.hasRoom, decide_eq_true_eq]; omega, h⟩
  · have hq := s.rxFrame_queueView .ok hdr payload
    simp only [Stream.step, h0, if_false]
    generalize s.rxFrame .ok hdr payload = r at hq ⊢
    obtain ⟨t, m⟩ := r
    cases m with
    | none =>
      simp only [Stream.queueView, Prod.mk.injEq] at hq
      obtain ⟨q1, q2, q3, q4⟩ := hq
      have ht : t.rxComplete ≤ 0 := by omega
      simp only [streamRecv, ht, if_true, Stream.hasRoom, decide_eq_true_eq]
      refine ⟨by omega, ?_, by omega⟩
      simp only [Stream.queueView, q1, q2, q4, h1, h2, h3]
    | some m =>
      simp only [Stream.queueView, Prod.mk.injEq] at hq
      obtain ⟨q1, q2, q3, q4⟩ := hq
      have ht : ¬ t.rxComplete ≤ 0 := by omega
      have hqueue : t.rxQueue = [m] := by rw [q1, h1]; rfl
      simp only [streamRecv, ht, if_false, hqueue, Stream.hasRoom, decide_eq_true_eq]
      refine ⟨by omega, ?_, by simp only; omega⟩
      simp only [Stream.queueView, Prod.mk.injEq, true_and]
      omega

theorem Stream.Drained.queueRoom {s : Stream} (h : s.Drained)
    (fs : List (StreamHdr × List UInt8)) :
    s.QueueRoom (fs.flatMap fun f => [.frame f.1 f.2 .ok, .recv 0 false]) := by
  induction fs generalizing s with
  | nil =>
    intro pre e post hes
    simp at hes
  | cons f fs ih =>
    obtain ⟨h1, h2, h3⟩ := h.step f.1 f.2
    exact .cons h1 (.cons h2 (ih h3))

theorem streamCreate_drained (d : UInt8) : (streamCreate d).Drained :=
  ⟨rfl, show 2 ≤ 65536 by decide⟩

section Schedule
variable {ι : Type} [DecidableEq ι]

def markedSends (p : Shape ι) (d : UInt8) (j i : ι) : Send :=
  latencySend (p.srcId i) d (List.replicate (p.len i) (if i = j then 1 else 0)) (p.count i)

theorem markedSends_fits (p : Shape ι) (d : UInt8) (j : ι) : p.Fits d (markedSends p d j) where
  srcId _ := rfl
  dstId _ := rfl
  len _ := List.length_replicate
  count i := by
    apply latencySend_frameNumber
    rw [frameCount, List.length_replicate]
    exact p.inside i

def drainedEvents (d : UInt8) (sends : ι → Send) (es : List (ι × Nat)) : List RxEvent :=
  es.flatMap fun e => [.complete (.good 0 ((sends e.1).frame e.2).wire) .ok, .recv d 0 false]

omit [DecidableEq ι] in
theorem arrivedAt_drainedEvents {d : UInt8} (hd : d ≠ streamIdCtrl) {sends : ι → Send}
    (hdst : ∀ i, (sends i).dstId = d) (es : List (ι × Nat)) :
    (drainedEvents d sends es).filterMap (RxEvent.arrivedAt d) =
        es.map (fun e => ((sends e.1).frame e.2).wire) ∧
      (drainedEvents d sends es).filterMap (RxEvent.forStream d) =
        (es.map fun e => (((sends e.1).frame e.2).hdr, ((sends e.1).frame e.2).payload)).flatMap
          fun f => [.frame f.1 f.2 .ok, .recv 0 false] := by
  have harr : ∀ e : ι × Nat, (Completion.good 0 ((sends e.1).frame e.2).wire).arrivedAt d =
      some ((sends e.1).frame e.2).wire := by
    intro e
    rw [arrivedAt_good hd, if_pos (hdst e.1)]
  refine ⟨?_, ?_⟩
  · rw [drainedEvents, List.filterMap_flatMap, List.map_eq_flatMap]
    exact List.flatMap_congr fun e _ => by simp [RxEvent.arrivedAt, harr]
  · rw [drainedEvents, List.filterMap_flatMap, List.flatMap_map]
    exact List.flatMap_congr fun e _ => by
      simp [RxEvent.forStream, harr, frameHdr_wire, framePayload_wire, RxEnv.ok]

theorem drainedEvents_arrives {p : Shape ι} {d : UInt8} (hd : d ≠ streamIdCtrl) {sends : ι → Send}
    (hp : p.Fits d sends) {es : List (ι × Nat)} (hes : Interleaves p.count es) :
    Arrives d sends es (RxDevice.opened d) (drainedEvents d sends es) := by
  have hlt : ∀ e ∈ es, e.2 < (sends e.1).frames.length := by
    intro e he
    rw [hp.count]
    exact Reassembly.mem_leading_of_interleaves hes he
  refine ⟨by simp [RxDevice.opened], ?_, ?_, ?_⟩
  · intro ev hev
    obtain ⟨e, he, hmem⟩ := List.mem_flatMap.mp hev
    simp only [List.mem_cons, List.not_mem_nil, or_false] at hmem
    rcases hmem with rfl | rfl
    · exact Send.emitted_complete (hp.accepted e.1) (hlt e he) 0 .ok
    · trivial
  · intro ev hev
    obtain ⟨e, _, hmem⟩ := List.mem_flatMap.mp hev
    simp only [List.mem_cons, List.not_mem_nil, or_false] at hmem
    rcases hmem with rfl | rfl
    · rfl
    · trivial
  · rw [(arrivedAt_drainedEvents hd hp.dstId es).1, frames_getElem? hp hes, List.map_map]
    rfl

/-- The exact condition on a schedule: every choice of message contents, every device with the
stream newly created and every way of carrying the frames to it are safe if and only if the
schedule is unmixed. -/
theorem schedule_safe_iff_unmixed (p : Shape ι) (d : UInt8) (hd : d ≠ streamIdCtrl)
    (es : List (ι × Nat)) (hes : Interleaves p.count es) :
    (∀ (sends : ι → Send) (dev : RxDevice) (evs : List RxEvent), p.Fits d sends →
        Arrives d sends es dev evs →
        NotMixed sends ((dev.run evs).2.filterMap (RxAct.queuedOn d))) ↔
      Unmixed p.size es := by
  refine ⟨fun hsafe => ?_, fun hu sends dev evs hp h => notMixed_of_unmixed h hp hes hu⟩
  intro pre seg j k post hsplit hk ha e he
  by_contra hej
  have hp := markedSends_fits p d j
  have harr := drainedEvents_arrives hd hp hes
  obtain ⟨tags, _, _, hq⟩ := hsafe _ _ _ hp harr
  obtain ⟨t, _, _, hall, _⟩ := (harr.carries hp hes).run harr.created Nat.one_ne_zero
    (Or.inl (streamCreate_agrees d))
  have hroom := (streamCreate_drained d).queueRoom (es.map fun e =>
    (((markedSends p d j e.1).frame e.2).hdr, ((markedSends p d j e.1).frame e.2).payload))
  rw [← (arrivedAt_drainedEvents hd hp.dstId es).2] at hroom
  rw [hall hroom] at hq
  -- the letters of the messages show that something else than whole messages was queued
  have hbody : ∀ i n, (family (markedSends p d j)).body i n =
      List.replicate (min streamPayloadMax (p.len i - n * streamPayloadMax))
        (if i = j then 1 else 0) := fun i n => Chunks.piece_replicate _ _ _
  have hne : ∀ i n, n < p.size i → (family (markedSends p d j)).body i n ≠ [] := by
    intro i n hn
    apply Chunks.piece_ne_nil streamPayloadMax_pos
    rw [hp.len]
    exact hn
  refine Reassembly.not_whole_of_mixed (family (markedSends p d j)) (s := ⟨0, 0, false, []⟩)
    (Or.inr rfl) (a := 1) ?_ ?_ ?_ ?_ hsplit ?_ ha he hej ⟨tags, ?_⟩
  · intro e' he'
    exact hne e'.1 e'.2
      (Nat.lt_of_lt_of_le (Reassembly.mem_leading_of_interleaves hes he') (p.inside e'.1))
  · exact hne j 0 (Chunks.count_pos streamPayloadMax_pos (p.accepted j).1)
  · intro n x hx
    rw [hbody, if_pos rfl] at hx
    exact (List.mem_replicate.mp hx).2
  · intro i hij n x hx
    rw [hbody, if_neg hij] at hx
    rw [(List.mem_replicate.mp hx).2]
    decide
  · rw [hp.size_eq]
    exact hk
  · apply List.map_injective_iff.mpr rxMsg_injective
    rw [hq, List.map_map]
    exact List.map_congr_left fun i _ => (rxMsg_whole _ i).symm

end Schedule

/-- Two sends of two frames each. -/
def pairShape : Shape Bool where
  srcId i := if i then 21 else 20
  len _ := 4025
  count _ := 2
  accepted _ := by decide
  inside _ := by decide

/-- One send runs between the two frames of the other. The late frame does not continue what the
receiver saw last and is dropped, so that nothing is mixed. -/
theorem schedule_safe_nested :
    let es : List (Bool × Nat) := [(false, 0), (true, 0), (true, 1), (false, 1)]
    Interleaves pairShape.count es ∧ Unmixed pairShape.size es ∧
      ∀ (sends : Bool → Send) (dev : RxDevice) (evs : List RxEvent), pairShape.Fits 1 sends →
        Arrives 1 sends es dev evs →
        NotMixed sends ((dev.run evs).2.filterMap (RxAct.queuedOn 1)) := by
  intro es
  have hes : Interleaves pairShape.count es := by
    intro i
    cases i <;> rfl
  have hunmixed : Unmixed pairShape.size es := by decide
  exact ⟨hes, hunmixed,
    (schedule_safe_iff_unmixed pairShape 1 (by decide) es hes).mpr hunmixed⟩

def mixData : Bool → List UInt8
  | false => List.replicate streamPayloadMax 1 ++ [5]
  | true => [9]

theorem mixData_length (i : Bool) : (mixData i).length = if i then 1 else 4025 := by
  cases i with
  | false =>
    rw [mixData, List.length_append, List.length_replicate]
    rfl
  | true => rfl

theorem mixData_frameCount (i : Bool) : frameCount (mixData i) = if i then 1 else 2 := by
  rw [frameCount, mixData_length]
  cases i <;> decide

def mixShape : Shape Bool where
  srcId i := if i then 21 else 20
  len i := (mixData i).length
  count i := frameCount (mixData i)
  accepted i := by rw [mixData_length]; cases i <;> decide
  inside _ := Nat.le_refl _

def mixSends (i : Bool) : Send :=
  latencySend (mixShape.srcId i) 1 (mixData i) (frameCount (mixData i))

def mixOrder : List (Bool × Nat) := [(false, 0), (true, 0), (false, 1)]

theorem mixSends_fits : mixShape.Fits 1 mixSends where
  srcId _ := rfl
  dstId _ := rfl
  len _ := rfl
  count _ := latencySend_frameNumber _ _ (Nat.le_refl _)

theorem mixOrder_interleaves : Interleaves mixShape.count mixOrder := by
  intro i
  change _ = Family.leading i (frameCount (mixData i))
  rw [mixData_frameCount]
  cases i <;> rfl

theorem mixSends_run :
    ((family mixSends).run ⟨0, 0, false, []⟩ mixOrder).2 = [(21, [9]), (21, [5])] := by
  have hsize : ∀ i, frameCount (mixSends i).data = if i then 1 else 2 := mixData_frameCount
  have hpiece : Chunks.piece streamPayloadMax (mixData false) 1 = [5] := by
    rw [Chunks.piece, Nat.one_mul, mixData, List.drop_left' List.length_replicate]
    rfl
  have hbody : ∀ i k, (family mixSends).body i k = Chunks.piece streamPayloadMax (mixData i) k :=
    fun _ _ => rfl
  have hlast : (family mixSends).body false 1 = [5] := (hbody false 1).trans hpiece
  have hshort : (family mixSends).body true 0 = [9] := rfl
  have hsrc : ∀ i, (family mixSends).src i = if i then 21 else 20 := fun _ => rfl
  simp [Family.run, mixOrder, Reassembly.feedAll, Reassembly.feed, Family.frag, Asm.reset,
    Asm.accept, Asm.close, hsize, hlast, hshort, hsrc]

/-- The short message ends the assembly of the long one but leaves the next index, so that the
last frame of the long one is queued alone and under the other source. -/
theorem concurrent_sends_mix :
    mixShape.Fits 1 mixSends ∧ (∀ i, (mixSends i).Sent) ∧
      Interleaves mixShape.count mixOrder ∧
      Arrives 1 mixSends mixOrder (RxDevice.opened 1) (drainedEvents 1 mixSends mixOrder) ∧
      ((RxDevice.opened 1).run (drainedEvents 1 mixSends mixOrder)).2.filterMap
        (RxAct.queuedOn 1) = [⟨21, 2, [9]⟩, ⟨21, 2, [5]⟩] ∧
      ¬ NotMixed mixSends (((RxDevice.opened 1).run (drainedEvents 1 mixSends mixOrder)).2.filterMap
        (RxAct.queuedOn 1)) := by
  have hp := mixSends_fits
  have harr := drainedEvents_arrives (by decide) hp mixOrder_interleaves
  obtain ⟨t, _, _, hall, _⟩ := (harr.carries hp mixOrder_interleaves).run harr.created
    Nat.one_ne_zero (Or.inl (streamCreate_agrees 1))
  have hroom := (streamCreate_drained 1).queueRoom (mixOrder.map fun e =>
    (((mixSends e.1).frame e.2).hdr, ((mixSends e.1).frame e.2).payload))
  rw [← (arrivedAt_drainedEvents (by decide) hp.dstId mixOrder).2] at hroom
  have hq := hall hroom
  rw [mixSends_run] at hq
  refine ⟨hp, fun i => latencySend_sent (hp.accepted i), mixOrder_interleaves, harr, hq, ?_⟩
  rw [hq]
  rintro ⟨tags, _, _, htags⟩
  have hmem : (⟨21, 2, [5]⟩ : RxMsg) ∈ tags.map fun i => (mixSends i).message := by
    rw [← htags]
    simp [rxMsg, shdrFMsgEnd]
  obtain ⟨i, _, hi⟩ := List.mem_map.mp hmem
  have hdata : mixData i = [5] := congrArg RxMsg.data hi
  have hlen := congrArg List.length hdata
  rw [mixData_length] at hlen
  cases i with
  | false => simp at hlen
  | true => simp [mixData] at hdata

end OdinLink
