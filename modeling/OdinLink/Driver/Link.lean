import OdinLink.Driver.Assembly
import OdinLink.Driver.Fragments
import OdinLink.Driver.RxProjection

/-!
# From the send paths to a stream's queue

The frames of any number of sends, in the order in which they arrive at one stream, drive
its assembly as the fragments of a family of messages drive a reassembling receiver.
-/

namespace OdinLink

universe u

open Reassembly (Asm Family)

structure Send where
  mode : TxMode
  srcId : UInt8
  dstId : UInt8
  data : List UInt8
  env : SendEnv

namespace Send

def Accepted (x : Send) : Prop :=
  0 < x.data.length ∧ x.data.length ≤ streamPayloadMax * streamMaxFrames

def result (x : Send) : List TxFrame × SendEnd := streamSendIn x.mode x.srcId x.dstId x.data x.env

def frames (x : Send) : List TxFrame := x.result.1

def succeeds (x : Send) : Bool := x.result.2 == .ok

def message (x : Send) : RxMsg := ⟨x.srcId, shdrFMsgEnd, x.data⟩

def frame (x : Send) (k : Nat) : TxFrame := fragFrame x.srcId x.dstId x.data k

theorem Accepted.frameCount_pos {x : Send} (h : x.Accepted) : 0 < frameCount x.data :=
  Chunks.count_pos streamPayloadMax_pos h.1

theorem Accepted.frameCount_le {x : Send} (h : x.Accepted) :
    frameCount x.data ≤ streamMaxFrames :=
  Chunks.count_le streamPayloadMax_pos h.2

theorem frames_eq {x : Send} (h : x.Accepted) :
    x.frames.length ≤ frameCount x.data ∧
      x.frames = (List.range x.frames.length).map x.frame ∧
      (x.succeeds = true ↔ x.frames.length = frameCount x.data) := by
  obtain ⟨n, hn, hframes, hok⟩ := streamSendIn_emits x.mode x.srcId x.dstId x.data x.env h.1
  have hf : x.frames = (List.range n).map x.frame := by
    rw [frames, result, hframes, fragments, ← List.map_take, List.take_range, Nat.min_eq_left hn]
    rfl
  have hlen : x.frames.length = n := by simp [hf]
  rw [hlen]
  refine ⟨hn, hf, ?_⟩
  rw [← hok, succeeds, result, beq_iff_eq]

end Send

theorem exists_send_of_streamSend {dev : TxDevice} {srcId dstId : UInt8} {data : List UInt8}
    {env : SendEnv} {f : TxFrame} (hf : f ∈ (streamSend dev srcId dstId data env).2.1) :
    ∃ x : Send, x.Accepted ∧ x.dstId = dstId ∧ f ∈ x.frames := by
  unfold streamSend at hf
  split at hf
  · cases hf
  · split at hf
    · cases hf
    · rename_i hlen
      rw [not_or, Nat.not_lt] at hlen
      exact ⟨⟨(evaluateTxMode dev data.length).2, srcId, dstId, data, env⟩,
        ⟨Nat.pos_of_ne_zero hlen.1, hlen.2⟩, rfl, hf⟩

section Frame
variable (x : Send) (k : Nat)

theorem frame_payload_length :
    (x.frame k).payload.length = (x.frame k).hdr.payloadLen.toNat := by
  have hle : (Chunks.piece streamPayloadMax x.data k).length ≤ 4024 := by
    rw [Chunks.piece_length]
    exact Nat.min_le_left _ _
  simp only [Send.frame, fragFrame, buildFrame, UInt16.toNat_ofNat']
  omega

theorem frame_wire : (x.frame k).wire = (x.frame k).hdr.bytes ++ (x.frame k).payload := by
  apply List.take_of_length_le
  simp [Send.frame, fragFrame, buildFrame]

theorem frameHdr_wire : frameHdr (x.frame k).wire = (x.frame k).hdr := by
  rw [frameHdr, frame_wire, Mem.streamHdr_dmaWrite]

theorem framePayload_wire : framePayload (x.frame k).wire = (x.frame k).payload := by
  have hd : ((x.frame k).hdr.bytes ++ (x.frame k).payload).drop streamHdrSize =
      (x.frame k).payload := List.drop_left' (StreamHdr.bytes_length _)
  rw [framePayload, frameHdr_wire, frame_wire, ← frame_payload_length, hd, List.take_length]

theorem frame_isStart : (x.frame k).hdr.isStart = (k == 0) := by
  simp only [Send.frame, fragFrame, buildFrame, StreamHdr.isStart]
  cases (k == 0) <;> cases (k + 1 == frameCount x.data) <;> decide

theorem frame_isEnd : (x.frame k).hdr.isEnd = (k + 1 == frameCount x.data) := by
  simp only [Send.frame, fragFrame, buildFrame, StreamHdr.isEnd]
  cases (k == 0) <;> cases (k + 1 == frameCount x.data) <;> decide

theorem shdrFlags_le (first last : Bool) : (shdrFlags first last).toNat ≤ 3 := by
  cases first <;> cases last <;> decide

variable {x k}

theorem frame_payload_ne_nil (hk : k < frameCount x.data) : (x.frame k).payload ≠ [] :=
  Chunks.piece_ne_nil streamPayloadMax_pos hk

theorem wellSized_wire (hk : k < frameCount x.data) : WellSized (x.frame k).wire := by
  have hlen := frame_payload_length x k
  have hw : (x.frame k).wire.length = streamHdrSize + (x.frame k).payload.length := by
    rw [frame_wire, List.length_append, StreamHdr.bytes_length]
  have hmax : (x.frame k).payload.length ≤ streamPayloadMax := by
    change (Chunks.piece streamPayloadMax x.data k).length ≤ _
    rw [Chunks.piece_length]
    exact Nat.min_le_left _ _
  have hlt : (x.frame k).wire.length < frameSize := by
    simp only [hw, streamHdrSize, frameSize]
    simp only [streamPayloadMax] at hmax
    omega
  refine ⟨by rw [rxSize_of_lt hlt]; omega, ?_, ?_, ?_⟩
  · rw [frameHdr_wire]
    intro h0
    rw [h0] at hlen
    exact frame_payload_ne_nil hk (List.length_eq_zero_iff.mp hlen)
  · rw [frameHdr_wire]
    omega
  · rw [frameHdr_wire]
    exact shdrFlags_le _ _

theorem frame_fragIdx (h : x.Accepted) (hk : k < frameCount x.data) :
    (x.frame k).hdr.fragIdx.toNat = k := by
  have hle := h.frameCount_le
  simp only [Send.frame, fragFrame, buildFrame, UInt16.toNat_ofNat', streamMaxFrames] at *
  omega

end Frame

section Family
variable {ι : Type u} (sends : ι → Send)

def family : Family ι UInt8 UInt8 where
  src i := (sends i).srcId
  size i := frameCount (sends i).data
  body i k := Chunks.piece streamPayloadMax (sends i).data k

@[simp] theorem family_size (i : ι) : (family sends).size i = frameCount (sends i).data := rfl

theorem rxMsg_whole (i : ι) : rxMsg ((family sends).whole i) = (sends i).message := by
  simp only [rxMsg, Family.whole, family, Send.message, frameCount,
    Chunks.flatMap_pieces streamPayloadMax_pos]

variable {sends} in
theorem frameFrag_wire {e : ι × Nat} (h : (sends e.1).Accepted)
    (hk : e.2 < frameCount (sends e.1).data) :
    frameFrag (frameHdr ((sends e.1).frame e.2).wire) (framePayload ((sends e.1).frame e.2).wire) =
      (family sends).frag e := by
  rw [frameHdr_wire, framePayload_wire]
  simp only [frameFrag, frame_isStart, frame_isEnd, frame_fragIdx h hk]
  rfl

end Family

namespace RxDevice

def QueueRoom (dev : RxDevice) (d : UInt8) (es : List RxEvent) : Prop :=
  ∀ pre e post, es = pre ++ e :: post →
    ∀ t, (dev.run pre).1.streams d = some t → t.rxQueueLen < t.rxQueueMax

theorem QueueRoom.stream {dev : RxDevice} {d : UInt8} {es : List RxEvent} {s : Stream}
    (h : dev.QueueRoom d es) (hw : ∀ e ∈ es, e.wellSized) (hs : dev.streams d = some s) :
    s.QueueRoom (es.filterMap (RxEvent.forStream d)) := by
  intro pre e post hsplit
  obtain ⟨pre', rest, rfl, hpre, hrest⟩ := List.filterMap_eq_append_iff.mp hsplit
  obtain ⟨skip, e', post', rfl, hskip, he', hpost⟩ := List.filterMap_eq_cons_iff.mp hrest
  have hview := dev.run_view (pre' ++ skip)
    (fun e he => hw e (by simp only [List.mem_append] at he ⊢; exact he.imp_right Or.inl)) d
  have hnone : skip.filterMap (RxEvent.forStream d) = [] := List.filterMap_eq_nil_iff.mpr hskip
  rw [hs, List.filterMap_append, hpre, hnone, List.append_nil] at hview
  have hroom := h (pre' ++ skip) e' post' (by simp) _ (congrArg Prod.fst hview)
  simpa [Stream.hasRoom] using hroom

theorem queueRoom_of_length {dev : RxDevice} {d : UInt8} {es : List RxEvent} {s : Stream}
    (hw : ∀ e ∈ es, e.wellSized) (hs : dev.streams d = some s)
    (h : s.rxQueueLen + es.length ≤ s.rxQueueMax) : dev.QueueRoom d es := by
  rintro pre e post rfl t ht
  have hview := dev.run_view pre (fun e he => hw e (List.mem_append_left _ he)) d
  rw [hs] at hview
  have hrun : (dev.run pre).1.streams d = some (s.run (pre.filterMap (RxEvent.forStream d))).1 :=
    congrArg Prod.fst hview
  obtain rfl := Option.some.inj (ht.symm.trans hrun)
  obtain ⟨hlen, hmax⟩ := s.run_queueLen (pre.filterMap (RxEvent.forStream d))
  have hle := List.length_filterMap_le (RxEvent.forStream d) pre
  simp only [List.length_append, List.length_cons] at h
  omega

end RxDevice

namespace RxEvent

def allocOk : RxEvent → Prop
  | .complete _ env => env.alloc = .ok
  | .recv _ _ _ => True

theorem fragment_forStream (d : UInt8) (e : RxEvent) :
    (e.forStream d).bind StreamEvent.fragment =
      (e.arrivedAt d).map fun bs => frameFrag (frameHdr bs) (framePayload bs) := by
  cases e with
  | complete c env => cases h : c.arrivedAt d <;> simp [forStream, arrivedAt, h, StreamEvent.fragment]
  | recv id bufLen copyFault =>
    simp only [forStream, arrivedAt]
    split <;> rfl

end RxEvent

section Run
variable {ι : Type u} (sends : ι → Send)

/-- Frames of the sends arrive at stream `d` in the order `es`, with allocations granted; frames
for other streams and readers come in between. -/
structure Carries (d : UInt8) (es : List (ι × Nat)) (evs : List RxEvent) : Prop where
  accepted : ∀ e ∈ es, (sends e.1).Accepted
  inside : ∀ e ∈ es, e.2 < frameCount (sends e.1).data
  wellSized : ∀ e ∈ evs, e.wellSized
  allocOk : ∀ e ∈ evs, e.allocOk
  arrived : evs.filterMap (RxEvent.arrivedAt d) = es.map fun e => ((sends e.1).frame e.2).wire

variable {sends} {d : UInt8} {es : List (ι × Nat)} {evs : List RxEvent}

theorem Carries.fragments_eq (h : Carries sends d es evs) :
    (evs.filterMap (RxEvent.forStream d)).filterMap StreamEvent.fragment =
      es.map (family sends).frag := by
  rw [List.filterMap_filterMap]
  simp only [RxEvent.fragment_forStream]
  rw [← List.map_filterMap, h.arrived, List.map_map]
  exact List.map_congr_left fun e he => frameFrag_wire (h.accepted e he) (h.inside e he)

theorem Carries.granted (h : Carries sends d es evs) :
    ∀ e ∈ evs.filterMap (RxEvent.forStream d), e.granted := by
  intro se hse
  obtain ⟨e, he, hfor⟩ := List.mem_filterMap.mp hse
  cases e with
  | recv id bufLen copyFault =>
    simp only [RxEvent.forStream, Option.ite_none_right_eq_some, Option.some.injEq] at hfor
    rw [← hfor.2]
    trivial
  | complete c env =>
    obtain ⟨bs, hbs, rfl⟩ := Option.map_eq_some_iff.mp hfor
    have hmem : bs ∈ evs.filterMap (RxEvent.arrivedAt d) := List.mem_filterMap.mpr ⟨_, he, hbs⟩
    rw [h.arrived] at hmem
    obtain ⟨i, hi, rfl⟩ := List.mem_map.mp hmem
    have hcount := (h.accepted i hi).frameCount_le
    have hinside := h.inside i hi
    refine ⟨h.allocOk _ he, ?_, ?_⟩
    · rw [framePayload_wire]
      exact frame_payload_ne_nil hinside
    · rw [frameHdr_wire, frame_fragIdx (h.accepted i hi) hinside]
      simp only [streamMaxFrames] at hcount
      omega

theorem Carries.run (h : Carries sends d es evs) {dev : RxDevice} {s : Stream}
    (hs : dev.streams d = some s) (hopen : s.refcount ≠ 0) {a : Asm UInt8 UInt8}
    (hstart : s.Agrees a ∨ ∀ e ∈ es.head?, e.2 = 0) :
    ∃ t, (dev.run evs).1.streams d = some t ∧
      ((dev.run evs).2.filterMap (RxAct.queuedOn d)).Sublist
        (((family sends).run a es).2.map rxMsg) ∧
      (s.QueueRoom (evs.filterMap (RxEvent.forStream d)) →
        (dev.run evs).2.filterMap (RxAct.queuedOn d) = ((family sends).run a es).2.map rxMsg) ∧
      (s.Agrees a ∨ es ≠ [] → t.Agrees ((family sends).run a es).1) := by
  have hview := dev.run_view evs h.wellSized d
  rw [hs] at hview
  have hstart' : s.Agrees a ∨ ∀ f ∈ ((evs.filterMap (RxEvent.forStream d)).filterMap
      StreamEvent.fragment).head?, f.start = true := by
    refine hstart.imp_right fun hhead f hf => ?_
    rw [h.fragments_eq, List.head?_map] at hf
    obtain ⟨e, he, rfl⟩ := Option.map_eq_some_iff.mp hf
    simpa [Family.frag] using hhead e he
  obtain ⟨h1, h2, h3⟩ := Stream.run_agrees _ hopen h.granted hstart'
  rw [h.fragments_eq] at h1 h2 h3
  refine ⟨_, congrArg Prod.fst hview, ?_, ?_, ?_⟩
  · rw [show (dev.run evs).2.filterMap (RxAct.queuedOn d) = _ from congrArg Prod.snd hview]
    exact h1
  · intro hroom
    rw [show (dev.run evs).2.filterMap (RxAct.queuedOn d) = _ from congrArg Prod.snd hview]
    exact h2 hroom
  · intro hne
    exact h3 (hne.imp_right fun h => by simpa using h)

end Run

end OdinLink
