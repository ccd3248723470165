import OdinLink.Driver.FrameLoss

/-!
# Allocations that fail while a message is assembled

The receive callback allocates atomically: a larger assembly buffer when a payload does not fit, and
the queue entry at the end of a message. When the buffer is refused the payload alone is left out.
-/

namespace OdinLink

structure Buffer where
  bytes : List UInt8
  cap : Nat
  deriving DecidableEq, Repr

namespace Buffer

def empty : Buffer := ⟨[], 0⟩

def grows (b : Buffer) (payload : List UInt8) : Bool :=
  decide (b.cap < b.bytes.length + payload.length)

def put (b : Buffer) (payload : List UInt8) (granted : Bool) : Buffer :=
  if b.grows payload then
    if granted then
      ⟨b.bytes ++ payload, max 8192 (max (b.cap * 2) (b.bytes.length + payload.length))⟩
    else b
  else ⟨b.bytes ++ payload, b.cap⟩

def fill (b : Buffer) : List (List UInt8 × Bool) → Buffer × List Bool
  | [] => (b, [])
  | (payload, granted) :: ps =>
    let r := (b.put payload granted).fill ps
    (r.1, (if b.grows payload then [granted] else []) ++ r.2)

theorem put_cap_pos {b : Buffer} {payload : List UInt8} {granted : Bool} (hp : payload ≠ []) :
    0 < (b.put payload granted).cap ↔
      0 < b.cap ∨ true ∈ (if b.grows payload then [granted] else []) := by
  have hlen := List.length_pos_of_ne_nil hp
  unfold put
  by_cases hgrow : b.grows payload
  · simp only [hgrow, if_true, List.mem_singleton]
    cases granted with
    | true | false => simp
  · simp only [hgrow, Bool.false_eq_true, if_false, List.not_mem_nil, or_false]

theorem fill_cap_pos {ps : List (List UInt8 × Bool)} (hp : ∀ p ∈ ps, p.1 ≠ []) (b : Buffer) :
    0 < (b.fill ps).1.cap ↔ 0 < b.cap ∨ true ∈ (b.fill ps).2 := by
  induction ps generalizing b with
  | nil => simp [fill]
  | cons p ps ih =>
    obtain ⟨payload, granted⟩ := p
    have hrest := ih (fun q hq => hp q (List.mem_cons_of_mem _ hq)) (b.put payload granted)
    rw [fill, List.mem_append, hrest, put_cap_pos (hp _ List.mem_cons_self), or_assoc]

theorem fill_bytes {ps : List (List UInt8 × Bool)} {b : Buffer} (hall : false ∉ (b.fill ps).2) :
    (b.fill ps).1.bytes = b.bytes ++ ps.flatMap Prod.fst := by
  induction ps generalizing b with
  | nil => simp [fill]
  | cons p ps ih =>
    obtain ⟨payload, granted⟩ := p
    rw [fill, List.mem_append, not_or] at hall
    have hput : (b.put payload granted).bytes = b.bytes ++ payload := by
      unfold put
      by_cases hgrow : b.grows payload
      · have hgranted : granted = true := by
          cases granted with
          | true => rfl
          | false => simp [hgrow] at hall
        rw [if_pos hgrow, if_pos hgranted]
      · rw [if_neg hgrow]
    rw [fill, ih hall.2, hput, List.flatMap_cons, List.append_assoc]

theorem fill_asks {payload : List UInt8} {granted : Bool} {ps : List (List UInt8 × Bool)}
    (hp : payload ≠ []) : granted ∈ (empty.fill ((payload, granted) :: ps)).2 := by
  have hgrow : empty.grows payload = true := by
    have hlen := List.length_pos_of_ne_nil hp
    simpa [grows, empty] using hlen
  rw [fill, if_pos hgrow]
  exact List.mem_append_left _ (List.mem_singleton.mpr rfl)

end Buffer

def StreamEvent.arrival : StreamEvent → Option Arrival
  | .frame h payload env => some ⟨h, payload, env⟩
  | .recv _ _ => none

namespace Buffer

def feed (src : UInt8) (b : Buffer) (f : Arrival) : UInt8 × Buffer × Option RxMsg :=
  let src' := if f.hdr.isStart then f.hdr.srcId else src
  let b' := (if f.hdr.isStart then empty else b).put f.payload f.alloc.kmalloc
  if f.hdr.isEnd then
    (src', empty,
      if f.alloc.kzalloc && decide (0 < b'.cap) then some ⟨src', shdrFMsgEnd, b'.bytes⟩ else none)
  else (src', b', none)

def feedAll (src : UInt8) (b : Buffer) : List Arrival → List RxMsg
  | [] => []
  | f :: fs =>
    let r := feed src b f
    r.2.2.toList ++ feedAll r.1 r.2.1 fs

end Buffer

def InOrder : Nat → List Arrival → Prop
  | _, [] => True
  | k, f :: fs =>
    f.hdr.fragIdx.toNat = (if f.hdr.isStart then 0 else k) ∧ f.hdr.fragIdx.toNat < 65535 ∧
      f.payload ≠ [] ∧ InOrder (f.hdr.fragIdx.toNat + 1) fs

namespace Stream

structure Holds (s : Stream) (src : UInt8) (k : Nat) (b : Buffer) : Prop where
  src : s.rxAsmSrcId = src
  next : s.rxAsmNextFrag.toNat = k
  bad : s.rxAsmBad = false
  bytes : s.asmBytes = b.bytes
  len : s.rxAsmLen = b.bytes.length
  cap : s.rxAsmCap = b.cap
  buf : s.rxAsmBuf.isSome = decide (0 < b.cap)

section Frame
variable {s : Stream} {src : UInt8} {k : Nat} {b : Buffer} {h : StreamHdr} {payload : List UInt8}
  {env : AllocEnv}

theorem asmStart_holds (hst : h.isStart = true) : (s.asmStart h).Holds h.srcId 0 .empty := by
  rw [asmStart, if_pos hst]
  exact ⟨rfl, rfl, rfl, rfl, rfl, rfl, rfl⟩

theorem asmSequence_holds (hs : s.Holds src k b) {fidx : UInt16} (hidx : fidx.toNat = k)
    (hlt : fidx.toNat < 65535) : (s.asmSequence fidx).Holds src (fidx.toNat + 1) b := by
  have heq : fidx = s.rxAsmNextFrag := UInt16.toNat_inj.mp (hidx.trans hs.next.symm)
  have hsucc : (fidx + 1).toNat = fidx.toNat + 1 := by
    rw [UInt16.toNat_add]
    exact Nat.mod_eq_of_lt (Nat.succ_lt_succ hlt)
  rw [asmSequence, if_neg (not_not_intro heq)]
  exact ⟨hs.src, hsucc, hs.bad, hs.bytes, hs.len, hs.cap, hs.buf⟩

theorem asmStore_holds (env : AllocEnv) (hs : s.Holds src k b) (hp : payload ≠ []) :
    ((s.asmGrow env payload.length).asmAppend payload).Holds src k
      (b.put payload env.kmalloc) := by
  have hlen := List.length_pos_of_ne_nil hp
  have hbytes : s.asmBytes.length = s.rxAsmLen := by rw [hs.bytes, hs.len]
  have hgrow : b.grows payload = decide (s.rxAsmCap < s.rxAsmLen + payload.length) := by
    rw [Buffer.grows, hs.cap, hs.len]
  unfold Buffer.put asmGrow
  rw [hgrow]
  by_cases hneed : s.rxAsmCap < s.rxAsmLen + payload.length
  · rw [if_pos hneed, if_pos (decide_eq_true hneed)]
    cases env.kmalloc with
    | false =>
      have hfits : s.asmFits payload.length = false := by
        simp only [asmFits, Bool.and_eq_false_iff, decide_eq_false_iff_not]
        right
        omega
      rw [if_neg Bool.false_ne_true, if_neg Bool.false_ne_true, asmAppend, hfits,
        if_neg Bool.false_ne_true]
      exact hs
    | true =>
      rw [if_pos rfl, if_pos rfl, asmAppend, if_pos ?_]
      · refine ⟨hs.src, hs.next, hs.bad, ?_, ?_, ?_, ?_⟩
        · simp only [asmBytes, Option.getD_some]
          have hin : ((s.rxAsmBuf.getD []).take s.rxAsmLen).take s.rxAsmLen = s.asmBytes :=
            List.take_of_length_le (Nat.le_of_eq hbytes)
          rw [hin, List.take_of_length_le, hs.bytes]
          rw [List.length_append, hbytes]
        · simp only [List.length_append, hs.len]
        · simp only [hs.cap, hs.len]
        · simp
      · simp only [asmFits, Option.isSome_some, Bool.true_and, decide_eq_true_eq]
        omega
  · rw [if_neg hneed, if_neg (by simpa using hneed), asmAppend, if_pos ?_]
    · refine ⟨hs.src, hs.next, hs.bad, ?_, ?_, hs.cap, ?_⟩
      · simp only [asmBytes, Option.getD_some]
        rw [List.take_of_length_le, ← hs.bytes]
        · rfl
        · rw [List.length_append]
          exact Nat.add_le_add_right (Nat.le_of_eq hbytes) _
      · simp only [List.length_append, hs.len]
      · simp only [Option.isSome_some, true_eq_decide_iff]
        rw [← hs.cap]
        omega
    · simp only [asmFits, Bool.and_eq_true, decide_eq_true_eq, hs.buf]
      rw [← hs.cap]
      omega

theorem rxFinish_holds (hs : s.Holds src k b) :
    (s.rxFinish env).1.Holds src k .empty ∧
      (s.rxFinish env).2 = if s.hasRoom then
        (if env.kzalloc && decide (0 < b.cap) then some ⟨src, shdrFMsgEnd, b.bytes⟩ else none)
      else none := by
  unfold rxFinish
  rw [hs.bad, if_neg Bool.false_ne_true, hs.buf]
  by_cases hok : (env.kzalloc && decide (0 < b.cap)) = true
  · rw [if_pos hok, if_pos hok, hs.src, hs.bytes]
    unfold rxEnqueue hasRoom
    by_cases hroom : s.rxQueueLen < s.rxQueueMax
    · simp only [hroom, if_true, decide_true]
      exact ⟨⟨hs.src, hs.next, hs.bad, rfl, rfl, rfl, rfl⟩, trivial⟩
    · simp only [hroom, if_false, decide_false, Bool.false_eq_true]
      exact ⟨⟨hs.src, hs.next, hs.bad, rfl, rfl, rfl, rfl⟩, trivial⟩
  · rw [if_neg hok, if_neg hok, ite_self]
    exact ⟨⟨hs.src, hs.next, hs.bad, rfl, rfl, rfl, rfl⟩, rfl⟩

theorem rxFrame_holds (env : AllocEnv) (hs : s.Holds src k b)
    (hidx : h.fragIdx.toNat = if h.isStart then 0 else k) (hlt : h.fragIdx.toNat < 65535)
    (hp : payload ≠ []) :
    (s.rxFrame env h payload).1.Holds (Buffer.feed src b ⟨h, payload, env⟩).1
        (h.fragIdx.toNat + 1) (Buffer.feed src b ⟨h, payload, env⟩).2.1 ∧
      (s.rxFrame env h payload).2 =
        if s.hasRoom then (Buffer.feed src b ⟨h, payload, env⟩).2.2 else none := by
  have hstart : (s.asmStart h).Holds (if h.isStart then h.srcId else src)
      (if h.isStart then 0 else k) (if h.isStart then .empty else b) := by
    by_cases hst : h.isStart = true
    · simp only [hst, if_true]
      exact asmStart_holds hst
    · rw [asmStart, if_neg hst, if_neg hst, if_neg hst, if_neg hst]
      exact hs
  have hframe := asmStore_holds env (asmSequence_holds hstart hidx hlt) hp
  have hroom := hasRoom_congr (s.asmFrame_queueView env h payload)
  unfold rxFrame Buffer.feed
  by_cases hend : h.isEnd = true
  · simp only [hend, if_true]
    rw [← hroom]
    exact rxFinish_holds hframe
  · simp only [hend, Bool.false_eq_true, if_false, ite_self, and_true]
    exact hframe

theorem streamRecv_holds (hs : s.Holds src k b) (bufLen : Nat) (copyFault : Bool) :
    (streamRecv s bufLen copyFault).1.Holds src k b := by
  unfold streamRecv
  split
  · exact hs
  · split
    · exact hs
    · exact ⟨hs.src, hs.next, hs.bad, hs.bytes, hs.len, hs.cap, hs.buf⟩

end Frame

theorem run_holds (es : List StreamEvent) {s : Stream} {src : UInt8} {k : Nat} {b : Buffer}
    (hopen : s.refcount ≠ 0) (hs : s.Holds src k b)
    (hord : InOrder k (es.filterMap StreamEvent.arrival)) :
    (s.run es).2.Sublist (Buffer.feedAll src b (es.filterMap StreamEvent.arrival)) ∧
      (s.QueueRoom es → (s.run es).2 =
        Buffer.feedAll src b (es.filterMap StreamEvent.arrival)) := by
  induction es generalizing s src k b with
  | nil => exact ⟨List.Sublist.refl _, fun _ => rfl⟩
  | cons e es ih =>
    have hopen' : (s.step e).1.refcount ≠ 0 := by rwa [step_refcount]
    cases e with
    | recv bufLen copyFault =>
      obtain ⟨hsub, hall⟩ := ih hopen' (streamRecv_holds hs bufLen copyFault) hord
      exact ⟨hsub, fun hroom => hall hroom.tail⟩
    | frame h payload env =>
      obtain ⟨hidx, hlt, hp, hrest⟩ := hord
      obtain ⟨hnext, hq⟩ := rxFrame_holds env hs hidx hlt hp
      have hstep : s.step (.frame h payload env) = s.rxFrame env h payload := by
        simp only [step, hopen, if_false]
      rw [hstep] at hopen'
      obtain ⟨hsub, hall⟩ := ih hopen' hnext hrest
      simp only [run, hstep, List.filterMap_cons, StreamEvent.arrival, Buffer.feedAll]
      constructor
      · apply List.Sublist.append _ hsub
        rw [hq]
        split
        · exact List.Sublist.refl _
        · exact List.nil_sublist _
      · intro hroom
        have htail := hroom.tail
        rw [hstep] at htail
        rw [hall htail, hq, if_pos hroom.head]

theorem streamCreate_holds (d : UInt8) : (streamCreate d).Holds 0 0 .empty :=
  ⟨rfl, rfl, rfl, rfl, rfl, rfl, rfl⟩

end Stream

namespace Send
variable (x : Send) (alloc : Nat → AllocEnv)

def arrivals (k : Nat) : List Arrival :=
  (List.range' k (frameCount x.data - k)).map fun j =>
    ⟨(x.frame j).hdr, (x.frame j).payload, alloc j⟩

def payloads (k : Nat) : List (List UInt8 × Bool) :=
  (List.range' k (frameCount x.data - k)).map fun j =>
    ((x.frame j).payload, (alloc j).kmalloc)

def requests : List Bool := (Buffer.empty.fill (x.payloads alloc 0)).2

def entryGranted : Bool := (alloc (frameCount x.data - 1)).kzalloc

def hit : Bool := (x.requests alloc).contains false || !x.entryGranted alloc

def comesOut : Bool := (x.requests alloc).contains true && x.entryGranted alloc

def outcome (src : UInt8) (b : Buffer) (k : Nat) : Option RxMsg :=
  if x.entryGranted alloc && decide (0 < (b.fill (x.payloads alloc k)).1.cap) then
    some ⟨src, shdrFMsgEnd, (b.fill (x.payloads alloc k)).1.bytes⟩
  else none

variable {x} {k : Nat}

theorem range'_tail {m n : Nat} (h : m < n) :
    List.range' m (n - m) = m :: List.range' (m + 1) (n - (m + 1)) := by
  rw [show n - m = n - (m + 1) + 1 by omega, List.range'_succ]

theorem arrivals_eq_cons (hk : k < frameCount x.data) :
    x.arrivals alloc k =
      ⟨(x.frame k).hdr, (x.frame k).payload, alloc k⟩ :: x.arrivals alloc (k + 1) := by
  rw [arrivals, range'_tail hk]
  rfl

theorem payloads_eq_cons (hk : k < frameCount x.data) :
    x.payloads alloc k = ((x.frame k).payload, (alloc k).kmalloc) :: x.payloads alloc (k + 1) := by
  rw [payloads, range'_tail hk]
  rfl

theorem arrivals_count : x.arrivals alloc (frameCount x.data) = [] := by
  simp [arrivals]

theorem payloads_count : x.payloads alloc (frameCount x.data) = [] := by
  simp [payloads]

theorem payloads_ne_nil : ∀ p ∈ x.payloads alloc 0, p.1 ≠ [] := by
  intro p hp
  obtain ⟨j, hj, rfl⟩ := List.mem_map.mp hp
  rw [List.mem_range'_1] at hj
  exact frame_payload_ne_nil (by omega)

theorem payloads_flatMap : (x.payloads alloc 0).flatMap Prod.fst = x.data := by
  rw [payloads, List.flatMap_map, Nat.sub_zero, ← List.range_eq_range']
  exact Chunks.flatMap_pieces streamPayloadMax_pos x.data

theorem arrivals_inOrder (hx : x.Accepted) (hk : k ≤ frameCount x.data) {rest : List Arrival}
    (hrest : InOrder (frameCount x.data) rest) : InOrder k (x.arrivals alloc k ++ rest) := by
  induction hn : frameCount x.data - k generalizing k with
  | zero =>
    obtain rfl : k = frameCount x.data := by omega
    rw [arrivals_count]
    exact hrest
  | succ n ih =>
    have hlt : k < frameCount x.data := by omega
    have hcount := hx.frameCount_le
    have hidx := frame_fragIdx hx hlt
    simp only [streamMaxFrames] at hcount
    rw [arrivals_eq_cons alloc hlt, List.cons_append]
    refine ⟨?_, ?_, frame_payload_ne_nil hlt, ?_⟩
    · rw [hidx, frame_isStart]
      by_cases hzero : k = 0
      · simp [hzero]
      · simp [hzero]
    · rw [hidx]
      omega
    · rw [hidx]
      exact ih (by omega) (by omega)

theorem feedAll_arrivals {src : UInt8} {b : Buffer} (hk : k < frameCount x.data)
    (hb : k = 0 → b = .empty ∧ src = x.srcId) (rest : List Arrival) :
    Buffer.feedAll src b (x.arrivals alloc k ++ rest) =
      (x.outcome alloc src b k).toList ++ Buffer.feedAll src .empty rest := by
  induction hn : frameCount x.data - k generalizing k b with
  | zero => omega
  | succ n ih =>
    have hfeed : Buffer.feed src b ⟨(x.frame k).hdr, (x.frame k).payload, alloc k⟩ =
        if k + 1 = frameCount x.data then (src, .empty, x.outcome alloc src b k)
        else (src, b.put (x.frame k).payload (alloc k).kmalloc, none) := by
      have hsrc : (if (x.frame k).hdr.isStart then (x.frame k).hdr.srcId else src) = src := by
        rw [frame_isStart]
        by_cases hzero : k = 0
        · rw [if_pos (by simp [hzero]), (hb hzero).2]
          rfl
        · rw [if_neg (by simp [hzero])]
      have hbuf : (if (x.frame k).hdr.isStart then Buffer.empty else b) = b := by
        rw [frame_isStart]
        by_cases hzero : k = 0
        · rw [if_pos (by simp [hzero]), (hb hzero).1]
        · rw [if_neg (by simp [hzero])]
      unfold Buffer.feed
      simp only [hsrc, hbuf, frame_isEnd]
      by_cases hlast : k + 1 = frameCount x.data
      · have hentry : x.entryGranted alloc = (alloc k).kzalloc := by
          rw [entryGranted, ← hlast, Nat.add_sub_cancel]
        rw [if_pos (by simp [hlast]), if_pos hlast, outcome, hentry, payloads_eq_cons alloc hk,
          hlast, payloads_count]
        rfl
      · rw [if_neg (by simp [hlast]), if_neg hlast]
    rw [arrivals_eq_cons alloc hk, List.cons_append, Buffer.feedAll, hfeed]
    by_cases hlast : k + 1 = frameCount x.data
    · rw [if_pos hlast, hlast, arrivals_count]
      rfl
    · have hout : x.outcome alloc src b k =
          x.outcome alloc src (b.put (x.frame k).payload (alloc k).kmalloc) (k + 1) := by
        rw [outcome, payloads_eq_cons alloc hk]
        rfl
      rw [if_neg hlast, hout]
      exact ih (by omega) (by omega) (by omega)

theorem feedAll_message (hx : x.Accepted) (src : UInt8) (b : Buffer) (rest : List Arrival) :
    Buffer.feedAll src b (x.arrivals alloc 0 ++ rest) =
      (x.outcome alloc x.srcId .empty 0).toList ++ Buffer.feedAll x.srcId .empty rest := by
  have hreset : Buffer.feedAll src b (x.arrivals alloc 0 ++ rest) =
      Buffer.feedAll x.srcId .empty (x.arrivals alloc 0 ++ rest) := by
    have hstart : (x.frame 0).hdr.isStart = true := frame_isStart x 0
    rw [arrivals_eq_cons alloc hx.frameCount_pos, List.cons_append, Buffer.feedAll,
      Buffer.feedAll]
    simp only [Buffer.feed, hstart, if_true]
  rw [hreset]
  exact feedAll_arrivals alloc hx.frameCount_pos (fun _ => ⟨rfl, rfl⟩) rest

theorem outcome_isSome : (x.outcome alloc x.srcId .empty 0).isSome = x.comesOut alloc := by
  have hcap := Buffer.fill_cap_pos (payloads_ne_nil (x := x) alloc) .empty
  have hpos : decide (0 < (Buffer.empty.fill (x.payloads alloc 0)).1.cap) =
      (x.requests alloc).contains true := by
    rw [Bool.eq_iff_iff, decide_eq_true_eq, hcap, List.contains_iff_mem]
    simp [Buffer.empty, requests]
  rw [outcome, hpos, comesOut, Bool.and_comm]
  split <;> simp_all

theorem comesOut_of_not_hit (hx : x.Accepted) (hh : x.hit alloc = false) :
    x.comesOut alloc = true := by
  obtain ⟨hreq, hentry⟩ := Bool.or_eq_false_iff.mp hh
  have hfirst : (alloc 0).kmalloc ∈ x.requests alloc := by
    rw [requests, payloads_eq_cons alloc hx.frameCount_pos]
    exact Buffer.fill_asks (frame_payload_ne_nil hx.frameCount_pos)
  have hgranted : (alloc 0).kmalloc = true := by
    by_contra hnot
    rw [Bool.not_eq_true] at hnot
    rw [hnot, ← List.contains_iff_mem, hreq] at hfirst
    contradiction
  rw [comesOut, Bool.and_eq_true]
  refine ⟨?_, Bool.not_eq_eq_eq_not.mp hentry⟩
  rw [List.contains_iff_mem, ← hgranted]
  exact hfirst

theorem outcome_of_not_hit (hx : x.Accepted) (hh : x.hit alloc = false) :
    x.outcome alloc x.srcId .empty 0 = some x.message := by
  have hsome := outcome_isSome (x := x) alloc
  rw [comesOut_of_not_hit alloc hx hh] at hsome
  have hall : false ∉ (Buffer.empty.fill (x.payloads alloc 0)).2 := by
    rw [← List.contains_iff_mem]
    exact Bool.eq_false_iff.mp (Bool.or_eq_false_iff.mp hh).1
  have hbytes : (Buffer.empty.fill (x.payloads alloc 0)).1.bytes = x.data := by
    rw [Buffer.fill_bytes hall, payloads_flatMap]
    rfl
  unfold outcome at hsome ⊢
  split at hsome
  · rename_i hok
    rw [if_pos hok, hbytes]
    rfl
  · contradiction

end Send

section Messages
variable {sends : Nat → Send} (alloc : Nat → Nat → AllocEnv)

theorem messages_inOrder (hsent : ∀ i, (sends i).Accepted) (is : List Nat) (k : Nat) :
    InOrder k (is.flatMap fun i => (sends i).arrivals (alloc i) 0) := by
  induction is generalizing k with
  | nil => trivial
  | cons i is ih =>
    have hzero := Send.arrivals_inOrder (alloc i) (hsent i) (Nat.zero_le _) (ih _)
    have hstart : ((sends i).frame 0).hdr.isStart = true := frame_isStart _ 0
    rw [List.flatMap_cons]
    rw [Send.arrivals_eq_cons (alloc i) (hsent i).frameCount_pos, List.cons_append] at hzero ⊢
    simpa only [InOrder, hstart, if_true] using hzero

theorem feedAll_messages (hsent : ∀ i, (sends i).Accepted) (is : List Nat) (src : UInt8)
    (b : Buffer) :
    Buffer.feedAll src b (is.flatMap fun i => (sends i).arrivals (alloc i) 0) =
      is.flatMap fun i => ((sends i).outcome (alloc i) (sends i).srcId .empty 0).toList := by
  induction is generalizing src b with
  | nil => rfl
  | cons i is ih =>
    rw [List.flatMap_cons, Send.feedAll_message (alloc i) (hsent i), ih, List.flatMap_cons]

end Messages

namespace RxEvent

def arrivedWith (d : UInt8) : RxEvent → Option (List UInt8 × AllocEnv)
  | .complete c env => (c.arrivedAt d).map fun bs => (bs, env.alloc)
  | .recv _ _ _ => none

theorem arrival_forStream (d : UInt8) (e : RxEvent) :
    (e.forStream d).bind StreamEvent.arrival =
      (e.arrivedWith d).map fun p => ⟨frameHdr p.1, framePayload p.1, p.2⟩ := by
  cases e with
  | complete c env =>
    cases h : c.arrivedAt d <;> simp [forStream, arrivedWith, h, StreamEvent.arrival]
  | recv id bufLen copyFault =>
    simp only [forStream, arrivedWith]
    split <;> rfl

end RxEvent

def pressedFrames (sends : Nat → Send) (alloc : Nat → Nat → AllocEnv) (n : Nat) :
    List (List UInt8 × AllocEnv) :=
  (List.range n).flatMap fun i => (sends i).frames.mapIdx fun k f => (f.wire, alloc i k)

theorem pressedFrames_arrivals {sends : Nat → Send} (hsent : ∀ i, (sends i).Sent)
    (alloc : Nat → Nat → AllocEnv) (n : Nat) :
    (pressedFrames sends alloc n).map
        (fun p => (⟨frameHdr p.1, framePayload p.1, p.2⟩ : Arrival)) =
      (List.range n).flatMap fun i => (sends i).arrivals (alloc i) 0 := by
  rw [pressedFrames, List.map_flatMap]
  apply List.flatMap_congr
  intro i _
  have hframes : (sends i).frames = (List.range (frameCount (sends i).data)).map (sends i).frame := by
    rw [← (hsent i).frameNumber_eq]
    exact (Send.frames_eq (hsent i).accepted).2.1
  rw [hframes, Send.arrivals, Nat.sub_zero, ← List.range_eq_range']
  apply List.ext_getElem?
  intro k
  by_cases hk : k < frameCount (sends i).data
  · simp [List.getElem?_range hk, frameHdr_wire, framePayload_wire]
  · simp [List.getElem?_eq_none (l := List.range _) (i := k) (by simpa using hk)]

theorem pressure_queued (dev : RxDevice) {d : UInt8} (hs : dev.streams d = some (streamCreate d))
    {sends : Nat → Send} (hsent : ∀ i, (sends i).Sent) (alloc : Nat → Nat → AllocEnv) (n : Nat)
    {evs : List RxEvent} (hem : ∀ e ∈ evs, e.emitted)
    (harr : evs.filterMap (RxEvent.arrivedWith d) = pressedFrames sends alloc n) :
    ((dev.run evs).2.filterMap (RxAct.queuedOn d)).Sublist ((List.range n).flatMap fun i =>
        ((sends i).outcome (alloc i) (sends i).srcId .empty 0).toList) ∧
      ((streamCreate d).QueueRoom (evs.filterMap (RxEvent.forStream d)) →
        (dev.run evs).2.filterMap (RxAct.queuedOn d) = (List.range n).flatMap fun i =>
          ((sends i).outcome (alloc i) (sends i).srcId .empty 0).toList) := by
  have hview := dev.run_view evs (fun e he => (hem e he).wellSized) d
  rw [hs] at hview
  have hq : (dev.run evs).2.filterMap (RxAct.queuedOn d) = _ := congrArg Prod.snd hview
  have harrivals : (evs.filterMap (RxEvent.forStream d)).filterMap StreamEvent.arrival =
      (List.range n).flatMap fun i => (sends i).arrivals (alloc i) 0 := by
    rw [List.filterMap_filterMap]
    simp only [RxEvent.arrival_forStream]
    rw [← List.map_filterMap, harr, pressedFrames_arrivals hsent]
  have hacc (i : Nat) : (sends i).Accepted := (hsent i).accepted
  obtain ⟨hsub, hall⟩ := Stream.run_holds (evs.filterMap (RxEvent.forStream d)) Nat.one_ne_zero
    (Stream.streamCreate_holds d) (by rw [harrivals]; exact messages_inOrder alloc hacc _ _)
  rw [harrivals, feedAll_messages alloc hacc] at hsub hall
  rw [hq]
  exact ⟨hsub, hall⟩

/-- What is queued is a selection of the messages that no refusal hit, in the order of sending. -/
def PressureSafe (sends : Nat → Send) (alloc : Nat → Nat → AllocEnv) (n : Nat)
    (queued : List RxMsg) : Prop :=
  queued.Sublist (((List.range n).filter fun i => !(sends i).hit (alloc i)).map
    fun i => (sends i).message)

/-- A message that was refused a larger buffer has been refused it every time, or is refused the
queue entry too. -/
def RefusedWhole (sends : Nat → Send) (alloc : Nat → Nat → AllocEnv) (n : Nat) : Prop :=
  ∀ i < n, (sends i).hit (alloc i) = true → (sends i).comesOut (alloc i) = false

instance (sends : Nat → Send) (alloc : Nat → Nat → AllocEnv) (n : Nat) :
    Decidable (RefusedWhole sends alloc n) :=
  inferInstanceAs (Decidable (∀ i < n, _ → _))

section Selection
variable {α β : Type} {f : α → Option β}

theorem flatMap_toList_eq {p : α → Bool} {g : α → β} {l : List α}
    (h : ∀ a ∈ l, f a = if p a then some (g a) else none) :
    (l.flatMap fun a => (f a).toList) = (l.filter p).map g := by
  induction l with
  | nil => rfl
  | cons a l ih =>
    rw [List.flatMap_cons, ih fun b hb => h b (List.mem_cons_of_mem a hb), h a List.mem_cons_self]
    cases hp : p a <;> simp [hp]

theorem length_flatMap_toList (l : List α) :
    (l.flatMap fun a => (f a).toList).length = (l.filter fun a => (f a).isSome).length := by
  induction l with
  | nil => rfl
  | cons a l ih =>
    rw [List.flatMap_cons, List.length_append, ih]
    cases hf : f a <;> simp [hf, Nat.add_comm]

end Selection

section Pressure
variable {sends : Nat → Send} {alloc : Nat → Nat → AllocEnv} {n : Nat}

theorem RefusedWhole.outcomes (hacc : ∀ i, (sends i).Accepted)
    (hw : RefusedWhole sends alloc n) :
    ((List.range n).flatMap fun i =>
        ((sends i).outcome (alloc i) (sends i).srcId .empty 0).toList) =
      ((List.range n).filter fun i => !(sends i).hit (alloc i)).map fun i => (sends i).message := by
  apply flatMap_toList_eq
  intro i hi
  cases hh : (sends i).hit (alloc i) with
  | false => exact Send.outcome_of_not_hit (alloc i) (hacc i) hh
  | true =>
    have hnone := Send.outcome_isSome (x := sends i) (alloc i)
    rw [hw i (List.mem_range.mp hi) hh] at hnone
    exact Option.isNone_iff_eq_none.mp (by simpa using hnone)

theorem PressureSafe.refusedWhole (hacc : ∀ i, (sends i).Accepted)
    (hsafe : PressureSafe sends alloc n ((List.range n).flatMap fun i =>
      ((sends i).outcome (alloc i) (sends i).srcId .empty 0).toList)) :
    RefusedWhole sends alloc n := by
  have hlen := hsafe.length_le
  rw [length_flatMap_toList, List.length_map] at hlen
  simp only [Send.outcome_isSome] at hlen
  have hsub : ((List.range n).filter fun i => !(sends i).hit (alloc i)).Sublist
      ((List.range n).filter fun i => (sends i).comesOut (alloc i)) := by
    apply List.monotone_filter_right
    intro i hi
    exact Send.comesOut_of_not_hit (alloc i) (hacc i) (by simpa using hi)
  have heq := hsub.eq_of_length_le hlen
  intro i hi hhit
  by_contra hout
  have hmem : i ∈ (List.range n).filter fun i => (sends i).comesOut (alloc i) :=
    List.mem_filter.mpr ⟨List.mem_range.mpr hi, by simpa using hout⟩
  rw [← heq] at hmem
  simpa [hhit] using (List.mem_filter.mp hmem).2

end Pressure

/-- Failed allocations corrupt nothing exactly when each message is refused as a whole or not at
all; soundness does not depend on room on the queue. -/
theorem pressureSafe_iff (dev : RxDevice) (d : UInt8)
    (hs : dev.streams d = some (streamCreate d)) (sends : Nat → Send)
    (hsent : ∀ i, (sends i).Sent) (alloc : Nat → Nat → AllocEnv) (n : Nat) (evs : List RxEvent)
    (hem : ∀ e ∈ evs, e.emitted)
    (harr : evs.filterMap (RxEvent.arrivedWith d) = pressedFrames sends alloc n) :
    let queued := (dev.run evs).2.filterMap (RxAct.queuedOn d)
    (RefusedWhole sends alloc n → PressureSafe sends alloc n queued) ∧
      (dev.QueueRoom d evs → (PressureSafe sends alloc n queued ↔ RefusedWhole sends alloc n)) := by
  intro queued
  have hacc (i : Nat) : (sends i).Accepted := (hsent i).accepted
  obtain ⟨hsub, hall⟩ := pressure_queued _ hs hsent alloc n hem harr
  have hsound : RefusedWhole sends alloc n → PressureSafe sends alloc n queued := by
    intro hw
    rw [hw.outcomes hacc] at hsub
    exact hsub
  refine ⟨hsound, fun hroom => ⟨fun hsafe => ?_, hsound⟩⟩
  have hq : queued = _ := hall (hroom.stream (fun e he => (hem e he).wellSized) hs)
  rw [hq] at hsafe
  exact hsafe.refusedWhole hacc

def pressedSend (_ : Nat) : Send := latencySend 20 1 [7, 8, 9] 1

def pressedAlloc (i _ : Nat) : AllocEnv := ⟨decide (i ≠ 0), true⟩

def pressedEvents : List RxEvent :=
  [.complete (.good 3 [20, 1, 3, 0, 3, 0, 0, 0, 7, 8, 9]) ⟨⟨false, true⟩, fun _ => true⟩,
    .complete (.good 4 [20, 1, 3, 0, 3, 0, 0, 0, 7, 8, 9]) ⟨⟨true, true⟩, fun _ => true⟩]

theorem pressureSafe_iff_demo : RefusedWhole pressedSend pressedAlloc 2 ∧
    PressureSafe pressedSend pressedAlloc 2
      (((RxDevice.opened 1).run pressedEvents).2.filterMap (RxAct.queuedOn 1)) := by
  have hw : RefusedWhole pressedSend pressedAlloc 2 := by decide
  refine ⟨hw, (pressureSafe_iff (RxDevice.opened 1) 1 rfl pressedSend ?_ pressedAlloc 2
    pressedEvents ?_ (by decide)).1 hw⟩
  · intro _
    change (latencySend 20 1 [7, 8, 9] 1).Sent
    exact ⟨by unfold Send.Accepted; decide, by decide⟩
  · intro e he
    have hwire : [20, 1, 3, 0, 3, 0, 0, 0, 7, 8, 9] = ((pressedSend 0).frame 0).wire := by decide
    have hacc : (pressedSend 0).Accepted := by unfold Send.Accepted; decide
    simp only [pressedEvents, List.mem_cons, List.not_mem_nil, or_false] at he
    rcases he with rfl | rfl
    · rw [hwire]
      exact Send.emitted_complete hacc (by decide) 3 _
    · rw [hwire]
      exact Send.emitted_complete hacc (by decide) 4 _

def tornSend (_ : Nat) : Send := lossSends 1

def tornAlloc (_ k : Nat) : AllocEnv := ⟨decide (k ≠ 0), true⟩

def tornEvents : List RxEvent :=
  [.complete (.good 0 ((tornSend 0).frame 0).wire) ⟨⟨false, true⟩, fun _ => true⟩,
    .complete (.good 1 ((tornSend 0).frame 1).wire) ⟨⟨true, true⟩, fun _ => true⟩]

theorem tornSend_count : frameCount (tornSend 0).data = 2 :=
  (lossSends_sent 1).frameNumber_eq.symm.trans (lossSends_frameNumber 1)

theorem tornSend_outcome :
    (tornSend 0).outcome (tornAlloc 0) (tornSend 0).srcId .empty 0 = some ⟨20, 2, [3]⟩ := by
  have hpayload : ((tornSend 0).frame 1).payload = [3] := by
    have hwire := congrArg framePayload lossSends_wire.2
    rw [framePayload_wire] at hwire
    exact hwire.trans (by decide)
  have hfirst := frame_payload_ne_nil (x := tornSend 0) (k := 0) (by rw [tornSend_count]; decide)
  have hpos := List.length_pos_of_ne_nil hfirst
  have hcount := Send.payloads_count (x := tornSend 0) (tornAlloc 0)
  rw [tornSend_count] at hcount
  rw [Send.outcome, Send.payloads_eq_cons _ (by rw [tornSend_count]; decide),
    Send.payloads_eq_cons _ (by rw [tornSend_count]; decide), hcount, hpayload]
  have hput : Buffer.empty.put ((tornSend 0).frame 0).payload false = .empty := by
    rw [Buffer.put, if_pos (by simpa [Buffer.grows, Buffer.empty] using hpos)]
    rfl
  have hkmalloc : (tornAlloc 0 0).kmalloc = false := rfl
  simp only [Buffer.fill, hkmalloc, hput]
  rfl

/-- The first payload is left out and the rest is handed up as the message. -/
theorem pressure_tears_message :
    (RxDevice.opened 1).streams 1 = some (streamCreate 1) ∧ (∀ i, (tornSend i).Sent) ∧
      (∀ e ∈ tornEvents, e.emitted) ∧
      tornEvents.filterMap (RxEvent.arrivedWith 1) = pressedFrames tornSend tornAlloc 1 ∧
      ((RxDevice.opened 1).run tornEvents).2.filterMap (RxAct.queuedOn 1) = [⟨20, 2, [3]⟩] ∧
      (tornSend 0).data.length = 4025 ∧
      ¬ PressureSafe tornSend tornAlloc 1
        (((RxDevice.opened 1).run tornEvents).2.filterMap (RxAct.queuedOn 1)) := by
  have hsent (i : Nat) : (tornSend i).Sent := lossSends_sent 1
  have hlen : (tornSend 0).frames.length = 2 := lossSends_frameNumber 1
  have hem : ∀ e ∈ tornEvents, e.emitted := by
    intro e he
    simp only [tornEvents, List.mem_cons, List.not_mem_nil, or_false] at he
    rcases he with rfl | rfl
    · exact Send.emitted_complete (hsent 0).accepted (by omega) 0 _
    · exact Send.emitted_complete (hsent 0).accepted (by omega) 1 _
  have harr : tornEvents.filterMap (RxEvent.arrivedWith 1) = pressedFrames tornSend tornAlloc 1 := by
    have harrived (k slot : Nat) : (Completion.good slot ((tornSend 0).frame k).wire).arrivedAt 1 =
        some ((tornSend 0).frame k).wire := arrivedAt_good (by decide) slot k
    have hframes := (Send.frames_eq (hsent 0).accepted).2.1
    rw [hlen] at hframes
    simp only [tornEvents, List.filterMap_cons, RxEvent.arrivedWith, harrived, Option.map_some,
      List.filterMap_nil, pressedFrames, List.range_one, List.flatMap_singleton, hframes]
    rfl
  obtain ⟨-, hall⟩ := pressure_queued (RxDevice.opened 1) rfl hsent tornAlloc 1
    hem harr
  have hq : ((RxDevice.opened 1).run tornEvents).2.filterMap (RxAct.queuedOn 1) =
      [⟨20, 2, [3]⟩] := by
    rw [hall]
    · simp only [List.range_one, List.flatMap_singleton, tornSend_outcome, Option.toList_some]
    · apply Stream.queueRoom_of_length
      have hle := List.length_filterMap_le (RxEvent.forStream 1) tornEvents
      have hmax : (streamCreate 1).rxQueueLen + tornEvents.length ≤ (streamCreate 1).rxQueueMax := by
        decide
      omega
  refine ⟨rfl, hsent, hem, harr, hq, lossMessage_length 1, ?_⟩
  rw [hq]
  intro hsafe
  have hmem := hsafe.subset (List.mem_singleton.mpr rfl)
  obtain ⟨i, -, hmsg⟩ := List.mem_map.mp hmem
  have hdata := congrArg (fun m : RxMsg => m.data.length) hmsg
  have hlong : (tornSend i).message.data.length = 4025 := lossMessage_length 1
  simp only [hlong, List.length_singleton] at hdata
  omega

end OdinLink
