import OdinLink.Driver.Link

/-!
# Sending and receiving are inverse

Sends to one stream, done one after another and each completed or broken off, arrive as
exactly the completed messages, in order.
-/

namespace OdinLink

open Reassembly (Asm Family)

def Emitted (bs : List UInt8) : Prop :=
  ∃ dev srcId dstId data env f, f ∈ (streamSend dev srcId dstId data env).2.1 ∧ bs = f.wire

theorem Emitted.exists_frame {bs : List UInt8} (h : Emitted bs) :
    ∃ (x : Send) (k : Nat), x.Accepted ∧ k < frameCount x.data ∧ bs = (x.frame k).wire := by
  obtain ⟨dev, srcId, dstId, data, env, f, hf, rfl⟩ := h
  obtain ⟨x, hx, _, hfx⟩ := exists_send_of_streamSend hf
  obtain ⟨hle, hframes, _⟩ := Send.frames_eq hx
  rw [hframes] at hfx
  obtain ⟨k, hk, rfl⟩ := List.mem_map.mp hfx
  exact ⟨x, k, hx, Nat.lt_of_lt_of_le (List.mem_range.mp hk) hle, rfl⟩

theorem Emitted.wellSized {bs : List UInt8} (h : Emitted bs) : WellSized bs := by
  obtain ⟨x, k, _, hk, rfl⟩ := h.exists_frame
  exact wellSized_wire hk

theorem Send.emitted_of_mem {x : Send} (hx : x.Accepted) {f : TxFrame} (hf : f ∈ x.frames) :
    Emitted f.wire := by
  have hlen : ¬ (x.data.length = 0 ∨ streamPayloadMax * streamMaxFrames < x.data.length) := by
    rw [not_or, Nat.not_lt]
    exact ⟨Nat.ne_of_gt hx.1, hx.2⟩
  have hstep : ∀ dev : TxDevice, dev.state = .ready →
      (evaluateTxMode dev x.data.length).2 = x.mode →
      f ∈ (streamSend dev x.srcId x.dstId x.data x.env).2.1 := by
    intro dev hready hmode
    simp only [streamSend, hready, ne_eq, not_true, if_false, hlen, hmode]
    exact hf
  cases hm : x.mode with
  | latency =>
    exact ⟨⟨.ready, false, 4096, 4096, .latency, 0, 3072, 1024⟩, _, _, _, _, f,
      hstep _ rfl (by rw [hm]; rfl), rfl⟩
  | throughput =>
    refine ⟨⟨.ready, true, 4096, 0, .throughput, 0, 3072, 1024⟩, _, _, _, _, f,
      hstep _ rfl ?_, rfl⟩
    rw [hm]
    simp only [evaluateTxMode]
    split
    · contradiction
    · split <;> rfl

def RxEvent.emitted : RxEvent → Prop
  | .complete c _ => c.flagged = false → Emitted c.received
  | .recv _ _ _ => True

theorem Send.emitted_complete {x : Send} (hx : x.Accepted) {k : Nat} (hk : k < x.frames.length)
    (slot : Nat) (env : RxEnv) : (RxEvent.complete (.good slot (x.frame k).wire) env).emitted := by
  intro _
  apply Send.emitted_of_mem hx
  rw [(Send.frames_eq hx).2.1]
  exact List.mem_map_of_mem (List.mem_range.mpr hk)

theorem RxEvent.emitted.wellSized {e : RxEvent} (h : e.emitted) : e.wellSized := by
  cases e with
  | complete c env => exact fun hf => (h hf).wellSized
  | recv id bufLen copyFault => trivial

/-- Frames of sends arrive one after the other, each in the first slot of the pool. -/
def arriveAll (fs : List (Send × Nat)) : List RxEvent :=
  fs.map fun e => .complete (.good 0 (e.1.frame e.2).wire) .ok

section ArriveAll
variable {fs : List (Send × Nat)}

theorem arriveAll_emitted (h : ∀ e ∈ fs, e.1.Accepted ∧ e.2 < e.1.frames.length) :
    ∀ ev ∈ arriveAll fs, ev.emitted := by
  intro ev hev
  obtain ⟨e, he, rfl⟩ := List.mem_map.mp hev
  exact Send.emitted_complete (h e he).1 (h e he).2 0 .ok

theorem arriveAll_allocOk : ∀ ev ∈ arriveAll fs, ev.allocOk := by
  intro ev hev
  obtain ⟨e, -, rfl⟩ := List.mem_map.mp hev
  rfl

theorem arrivedAt_good {x : Send} {d : UInt8} (hd : d ≠ streamIdCtrl) (slot k : Nat) :
    (Completion.good slot (x.frame k).wire).arrivedAt d =
      if x.dstId = d then some (x.frame k).wire else none := by
  have hto : (frameHdr (x.frame k).wire).dstId = x.dstId := by
    rw [frameHdr_wire]
    rfl
  simp [Completion.arrivedAt, Completion.good, Completion.flagged, hto, hd]

theorem arriveAll_arrivedAt {d : UInt8} (hd : d ≠ streamIdCtrl) :
    (arriveAll fs).filterMap (RxEvent.arrivedAt d) =
      (fs.filter fun e => e.1.dstId = d).map fun e => (e.1.frame e.2).wire := by
  induction fs with
  | nil => rfl
  | cons e fs ih =>
    rw [arriveAll, List.map_cons, List.filterMap_cons, RxEvent.arrivedAt, arrivedAt_good hd,
      List.filter_cons]
    rw [arriveAll] at ih
    by_cases hto : e.1.dstId = d <;> simp [hto, ih]

theorem arriveAll_forStream {d : UInt8} (hd : d ≠ streamIdCtrl) :
    (arriveAll fs).filterMap (RxEvent.forStream d) =
      (arriveAll (fs.filter fun e => e.1.dstId = d)).filterMap (RxEvent.forStream d) := by
  induction fs with
  | nil => rfl
  | cons e fs ih =>
    rw [arriveAll] at ih ⊢
    by_cases hto : e.1.dstId = d <;>
      simp [RxEvent.forStream, arrivedAt_good hd, hto, ih, arriveAll]

end ArriveAll

namespace Stream

theorem rxFrame_queue (s : Stream) (env : AllocEnv) (h : StreamHdr) (payload : List UInt8) :
    (s.rxFrame env h payload).1.rxQueue = s.rxQueue ++ (s.rxFrame env h payload).2.toList := by
  have hq : (s.rxFrame env h payload).1.rxQueue = _ :=
    congrArg Prod.fst (s.rxFrame_queueView env h payload)
  rw [hq]
  cases (s.rxFrame env h payload).2 <;> simp [queueView]

theorem run_queue (s : Stream) (es : List StreamEvent)
    (hes : ∀ e ∈ es, ∀ bufLen copyFault, e ≠ .recv bufLen copyFault) :
    (s.run es).1.rxQueue = s.rxQueue ++ (s.run es).2 := by
  induction es generalizing s with
  | nil => simp
  | cons e es ih =>
    have hstep : (s.step e).1.rxQueue = s.rxQueue ++ (s.step e).2.toList := by
      cases e with
      | recv bufLen copyFault => exact absurd rfl (hes _ List.mem_cons_self bufLen copyFault)
      | frame h payload env =>
        simp only [step]
        split
        · simp
        · exact s.rxFrame_queue env h payload
    rw [run, ih _ fun e' he' => hes e' (List.mem_cons_of_mem e he'), hstep, List.append_assoc]

end Stream

namespace RxDevice

theorem rxGoodFrame_no_control {bs : List UInt8} (hw : WellSized bs) (dev : RxDevice) (mem : Mem)
    (alloc : AllocEnv) (type : Nat) :
    .control type ∉ (dev.rxGoodFrame (mem.dmaWrite bs) (rxSize bs) alloc).2 := by
  simp only [rxGoodFrame, hw.not_magic mem, and_false, if_false, hw.hdr, if_true, rxStreamFrame]
  split
  · simp
  · split
    · simp
    · split
      · simp
      · simp only [List.cons_append, List.mem_cons, reduceCtorEq, false_or, List.mem_append,
          List.mem_map, and_false, exists_false, or_false]
        split <;> simp

theorem step_no_control (dev : RxDevice) (c : Completion) (env : RxEnv) (hw : WellSized c.received)
    (type : Nat) : .control type ∉ (dev.step (.complete c env)).2 := by
  cases hf : c.frame with
  | slot idx =>
    simp only [step, rxCallback, hf]
    by_cases h : c.flagged
    · simp [((dev.dmaReceive c).rxPoolFrame_flagged idx env h).2]
    · rw [rxPoolFrame_unflagged _ idx env (Bool.not_eq_true _ ▸ h), dmaReceive_slotMem dev hf]
      exact rxGoodFrame_no_control hw _ _ _ _
  | legacy idx =>
    have hmem : (dev.dmaReceive c).legacyMem idx = (dev.legacyMem idx).dmaWrite c.received := by
      simp [dmaReceive, hf]
    simp only [step, rxCallback, hf, rxLegacyFrame, hmem, hw.not_magic, and_false, if_false]
    split <;> simp

end RxDevice

def sendFrames (sends : List Send) : List (Send × Nat) :=
  sends.flatMap fun x => Family.leading x x.frames.length

theorem sendFrames_map (sends : List Send) (hacc : ∀ x ∈ sends, x.Accepted) :
    (sendFrames sends).map (fun e => e.1.frame e.2) = sends.flatMap Send.frames := by
  rw [sendFrames, List.map_flatMap]
  apply List.flatMap_congr
  intro x hx
  rw [Family.leading, List.map_map]
  exact (Send.frames_eq (hacc x hx)).2.1.symm

section SendFrames
variable {sends : List Send} {d : UInt8}

theorem mem_sendFrames {e : Send × Nat} (he : e ∈ sendFrames sends) :
    e.1 ∈ sends ∧ e.2 < e.1.frames.length := by
  obtain ⟨x, hx, hm⟩ := List.mem_flatMap.mp he
  obtain ⟨k, hk, rfl⟩ := List.mem_map.mp hm
  exact ⟨hx, List.mem_range.mp hk⟩

theorem arriveAll_sendFrames_emitted (hacc : ∀ x ∈ sends, x.Accepted) :
    ∀ e ∈ arriveAll (sendFrames sends), e.emitted :=
  arriveAll_emitted fun _ he => ⟨hacc _ (mem_sendFrames he).1, (mem_sendFrames he).2⟩

theorem arriveAll_sendFrames_arrived (hd : d ≠ streamIdCtrl) (hacc : ∀ x ∈ sends, x.Accepted)
    (hto : ∀ x ∈ sends, x.dstId = d) :
    (arriveAll (sendFrames sends)).filterMap (RxEvent.arrivedAt d) =
      (sends.flatMap Send.frames).map TxFrame.wire := by
  rw [arriveAll_arrivedAt hd, ← sendFrames_map sends hacc, List.map_map, List.filter_eq_self.mpr]
  · rfl
  · intro e he
    exact decide_eq_true (hto _ (mem_sendFrames he).1)

theorem carries_sendFrames {evs : List RxEvent} (hacc : ∀ x ∈ sends, x.Accepted)
    (hem : ∀ e ∈ evs, e.emitted) (halloc : ∀ e ∈ evs, e.allocOk)
    (harr : evs.filterMap (RxEvent.arrivedAt d) =
      (sends.flatMap Send.frames).map TxFrame.wire) : Carries id d (sendFrames sends) evs where
  accepted e he := hacc _ (mem_sendFrames he).1
  inside e he := by
    obtain ⟨hx, hk⟩ := mem_sendFrames he
    exact hk.trans_le (Send.frames_eq (hacc _ hx)).1
  wellSized e he := (hem e he).wellSized
  allocOk := halloc
  arrived := by
    rw [harr, ← sendFrames_map sends hacc, List.map_map]
    rfl

end SendFrames

theorem sendFrames_head (sends : List Send) : ∀ e ∈ (sendFrames sends).head?, e.2 = 0 := by
  induction sends with
  | nil => simp [sendFrames]
  | cons x sends ih =>
    intro e he
    cases hn : x.frames.length with
    | zero =>
      apply ih e
      simpa [sendFrames, hn, Family.leading] using he
    | succ n =>
      simp only [sendFrames, List.flatMap_cons, hn, Family.leading, List.range_succ_eq_map,
        List.map_cons, List.cons_append, List.head?_cons, Option.mem_def, Option.some.injEq] at he
      rw [← he]

theorem run_sendFrames {sends : List Send} (hacc : ∀ x ∈ sends, x.Accepted)
    (a : Asm UInt8 UInt8) :
    ((family (id : Send → Send)).run a (sendFrames sends)).2.map rxMsg =
      (sends.filter Send.succeeds).map Send.message := by
  have hcount : ∀ x ∈ sends, x.frames.length ≤ (family id).size x ∧ 0 < (family id).size x :=
    fun x hx => ⟨(Send.frames_eq (hacc x hx)).1, (hacc x hx).frameCount_pos⟩
  rw [sendFrames, (family id).run_flatMap_leading (fun x => x.frames.length) sends hcount a,
    List.map_map]
  have hfilter : (sends.filter fun x => x.frames.length = (family id).size x) =
      sends.filter Send.succeeds := by
    apply List.filter_congr
    intro x hx
    rw [Bool.eq_iff_iff, decide_eq_true_eq]
    exact (Send.frames_eq (hacc x hx)).2.2.symm
  rw [hfilter]
  exact List.map_congr_left fun x _ => rxMsg_whole id x

theorem RxDevice.run_queue_of_no_recv {dev : RxDevice} {d : UInt8} {s t : Stream}
    {evs : List RxEvent} (hw : ∀ e ∈ evs, e.wellSized) (hs : dev.streams d = some s)
    (ht : (dev.run evs).1.streams d = some t)
    (hno : ∀ e ∈ evs, ∀ bufLen copyFault, e ≠ .recv d bufLen copyFault) :
    t.rxQueue = s.rxQueue ++ (dev.run evs).2.filterMap (RxAct.queuedOn d) := by
  have hview := dev.run_view evs hw d
  rw [hs] at hview
  have ht' := (congrArg Prod.fst hview).symm.trans ht
  have hq := (congrArg Prod.snd hview).symm
  dsimp only [viewAt] at hq
  rw [← Option.some.inj ht', ← hq]
  apply Stream.run_queue
  intro se hse bufLen copyFault heq
  obtain ⟨e, he, hfor⟩ := List.mem_filterMap.mp hse
  subst heq
  cases e with
  | complete c env =>
    obtain ⟨bs, _, hbs⟩ := Option.map_eq_some_iff.mp hfor
    cases hbs
  | recv id bufLen' copyFault' =>
    simp only [RxEvent.forStream, Option.ite_none_right_eq_some, Option.some.injEq,
      StreamEvent.recv.injEq] at hfor
    obtain ⟨rfl, rfl, rfl⟩ := hfor
    exact hno _ he _ _ rfl

theorem run_sendFrames_buf {init : List Send} {x : Send} (hx : x.Accepted)
    (hok : x.succeeds = true) (a : Asm UInt8 UInt8) :
    sendFrames (init ++ [x]) ≠ [] ∧
      ((family id).run a (sendFrames (init ++ [x]))).1.buf = [] := by
  have hlen := (Send.frames_eq hx).2.2.mp hok
  have hsf : sendFrames (init ++ [x]) =
      sendFrames init ++ Family.leading x ((family id).size x) := by
    simp only [sendFrames, List.flatMap_append, List.flatMap_cons, List.flatMap_nil,
      List.append_nil, hlen]
    rfl
  rw [hsf]
  constructor
  · apply List.append_ne_nil_of_right_ne_nil
    apply List.ne_nil_of_length_pos
    simpa [Family.leading] using hx.frameCount_pos
  · exact (family id).run_whole_buf _ _ x hx.frameCount_pos

/-- Sends to stream `d` one after another, each completed or broken off: exactly the completed
messages are queued, in order; after a completed send the assembly is empty; and no frame that
the send paths emit is taken for a control message. The prior state of the stream is arbitrary,
and frames for other streams may come in between. -/
theorem sends_deliver_completed (dev : RxDevice) (d : UInt8) (s : Stream)
    (hs : dev.streams d = some s) (hopen : s.refcount ≠ 0) (sends : List Send)
    (hacc : ∀ x ∈ sends, x.Accepted) (evs : List RxEvent) (hem : ∀ e ∈ evs, e.emitted)
    (halloc : ∀ e ∈ evs, e.allocOk)
    (harr : evs.filterMap (RxEvent.arrivedAt d) = (sends.flatMap Send.frames).map TxFrame.wire)
    (hroom : dev.QueueRoom d evs) :
    (∃ t, (dev.run evs).1.streams d = some t ∧
      (dev.run evs).2.filterMap (RxAct.queuedOn d) =
        (sends.filter Send.succeeds).map Send.message ∧
      ((∀ e ∈ evs, ∀ bufLen copyFault, e ≠ .recv d bufLen copyFault) →
        t.rxQueue = s.rxQueue ++ (sends.filter Send.succeeds).map Send.message) ∧
      ∀ x, sends.getLast? = some x → x.succeeds = true → t.rxAsmBuf = none ∧ t.rxAsmLen = 0) ∧
    ∀ (dev' : RxDevice) (c : Completion) (env : RxEnv) (type : Nat), Emitted c.received →
      .control type ∉ (dev'.step (.complete c env)).2 := by
  have hc := carries_sendFrames hacc hem halloc harr
  -- any receiver will do: the first frame starts a message
  obtain ⟨t, ht, _, hqueued, hagrees⟩ := hc.run hs hopen (a := ⟨0, 0, false, []⟩)
    (Or.inr (sendFrames_head sends))
  have hq : (dev.run evs).2.filterMap (RxAct.queuedOn d) =
      (sends.filter Send.succeeds).map Send.message := by
    rw [hqueued (hroom.stream hc.wellSized hs), run_sendFrames hacc]
  refine ⟨⟨t, ht, hq, ?_, ?_⟩, fun dev' c env type h => dev'.step_no_control c env h.wellSized type⟩
  · intro hno
    rw [RxDevice.run_queue_of_no_recv hc.wellSized hs ht hno, hq]
  · intro x hx hok
    obtain ⟨init, rfl⟩ := List.getLast?_eq_some_iff.mp hx
    obtain ⟨hne, hbuf⟩ := run_sendFrames_buf (hacc x (by simp)) hok ⟨0, 0, false, []⟩
    have ha := hagrees (Or.inr hne)
    have hnone := ha.freed hbuf
    exact ⟨hnone, by rw [ha.len, hnone]; rfl⟩

def Send.frameNumber (x : Send) : Nat := x.frames.length

structure Send.Sent (x : Send) : Prop where
  accepted : x.Accepted
  succeeds : x.succeeds = true

theorem Send.Sent.frameNumber_eq {x : Send} (h : x.Sent) : x.frameNumber = frameCount x.data :=
  (Send.frames_eq h.accepted).2.2.mp h.succeeds

def latencySend (srcId dstId : UInt8) (data : List UInt8) (c : Nat) : Send :=
  ⟨.latency, srcId, dstId, data, ⟨true, List.replicate c .submitted ++ [.waitFailed 0], []⟩⟩

theorem latencySend_frameNumber (srcId dstId : UInt8) {data : List UInt8} {c : Nat}
    (hc : c ≤ frameCount data) : (latencySend srcId dstId data c).frameNumber = c :=
  latencyLoop_submitted srcId dstId data c (position_start data) (by rwa [Nat.zero_add])

theorem latencySend_sent {srcId dstId : UInt8} {data : List UInt8}
    (h : (latencySend srcId dstId data (frameCount data)).Accepted) :
    (latencySend srcId dstId data (frameCount data)).Sent :=
  ⟨h, (Send.frames_eq h).2.2.mpr (latencySend_frameNumber srcId dstId (Nat.le_refl _))⟩

def twoFrameData : List UInt8 := List.replicate streamPayloadMax 2 ++ [3]

theorem twoFrameData_length : twoFrameData.length = 4025 := by
  rw [twoFrameData, List.length_append, List.length_replicate]
  rfl

theorem twoFrameData_frameCount : frameCount twoFrameData = 2 := by
  rw [frameCount, twoFrameData_length]
  decide

def twoFrameSend (srcId dstId : UInt8) (c : Nat) : Send := latencySend srcId dstId twoFrameData c

section TwoFrameSends
variable {srcId dstId : UInt8} {c : Nat}

theorem twoFrameSend_accepted : (twoFrameSend srcId dstId c).Accepted := by
  unfold Send.Accepted
  change 0 < twoFrameData.length ∧ twoFrameData.length ≤ streamPayloadMax * streamMaxFrames
  rw [twoFrameData_length]
  decide

theorem twoFrameSend_length (hc : c ≤ 2) : (twoFrameSend srcId dstId c).frames.length = c :=
  latencySend_frameNumber srcId dstId (by rwa [twoFrameData_frameCount])

theorem twoFrameSend_succeeds (hc : c ≤ 2) :
    (twoFrameSend srcId dstId c).succeeds = true ↔ c = 2 := by
  rw [(Send.frames_eq twoFrameSend_accepted).2.2, twoFrameSend_length hc]
  exact Iff.of_eq (congrArg (c = ·) twoFrameData_frameCount)

end TwoFrameSends

/-- A send that is broken off after its first frame, and one of the same message that is not. -/
theorem sends_deliver_completed_demo :
    let sends := [twoFrameSend 20 1 1, twoFrameSend 20 1 2]
    ∃ t, ((RxDevice.opened 1).run (arriveAll (sendFrames sends))).1.streams 1 = some t ∧
      t.rxQueue = [⟨20, 2, twoFrameData⟩] ∧ t.rxAsmBuf = none := by
  intro sends
  have hacc : ∀ x ∈ sends, x.Accepted := by
    intro x hx
    simp only [sends, List.mem_cons, List.not_mem_nil, or_false] at hx
    rcases hx with rfl | rfl <;> exact twoFrameSend_accepted
  have hframes : sendFrames sends =
      [(twoFrameSend 20 1 1, 0), (twoFrameSend 20 1 2, 0), (twoFrameSend 20 1 2, 1)] := by
    simp [sendFrames, sends, twoFrameSend_length, Family.leading, List.range_succ]
  have hem := arriveAll_sendFrames_emitted hacc
  have hto : ∀ x ∈ sends, x.dstId = 1 := by simp [sends, twoFrameSend, latencySend]
  have hsucc : sends.filter Send.succeeds = [twoFrameSend 20 1 2] := by
    have h1 : (twoFrameSend 20 1 1).succeeds = false :=
      Bool.eq_false_iff.mpr (mt (twoFrameSend_succeeds (by decide)).mp (by decide))
    have h2 : (twoFrameSend 20 1 2).succeeds = true := (twoFrameSend_succeeds (by decide)).mpr rfl
    simp [sends, h1, h2]
  obtain ⟨⟨t, ht, _, hqueue, hasm⟩, _⟩ :=
    sends_deliver_completed (RxDevice.opened 1) 1 (streamCreate 1) (by decide) (by decide)
      sends hacc _ hem arriveAll_allocOk (arriveAll_sendFrames_arrived (by decide) hacc hto)
      (RxDevice.queueRoom_of_length (fun e he => (hem e he).wellSized) rfl (by rw [hframes]; decide))
  refine ⟨t, ht, ?_, (hasm _ rfl ((twoFrameSend_succeeds (by decide)).mpr rfl)).1⟩
  rw [hqueue, hsucc]
  · rfl
  · intro e he bufLen copyFault
    obtain ⟨x, -, rfl⟩ := List.mem_map.mp he
    simp

end OdinLink
