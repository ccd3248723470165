import OdinLink.Driver.Stream
import OdinLink.Lib.Reassembly

/-!
# The stream's assembly is a reassembling receiver

With its allocations granted, a stream's assembly state and what it queues follow the
receiver of `Reassembly`, up to messages dropped at a full queue.
-/

namespace OdinLink

open Reassembly (Frag Asm feed feedAll)

variable {s : Stream} {a : Asm UInt8 UInt8} {payload : List UInt8}

def rxMsg (m : UInt8 × List UInt8) : RxMsg := ⟨m.1, shdrFMsgEnd, m.2⟩

def frameFrag (h : StreamHdr) (payload : List UInt8) : Frag UInt8 UInt8 :=
  ⟨h.srcId, h.isStart, h.isEnd, h.fragIdx.toNat, payload⟩

namespace Stream

structure Agrees (s : Stream) (a : Asm UInt8 UInt8) : Prop where
  src : s.rxAsmSrcId = a.src
  next : s.rxAsmNextFrag.toNat = a.next
  bad : s.rxAsmBad = a.bad
  bytes : s.asmBytes = a.buf
  len : s.rxAsmLen = (s.rxAsmBuf.getD []).length
  cap : s.rxAsmBuf = none → s.rxAsmCap = 0
  freed : a.buf = [] → s.rxAsmBuf = none

theorem Agrees.asmBytes_length (h : s.Agrees a) :
    s.asmBytes.length = s.rxAsmLen := by
  rw [asmBytes, List.length_take, ← h.len, Nat.min_self]

theorem asmStart_agrees {h : StreamHdr} (hs : h.isStart = true ∨ s.Agrees a) :
    (s.asmStart h).Agrees (a.reset (frameFrag h payload)) := by
  by_cases hst : h.isStart
  · simp only [asmStart, hst, if_true, Asm.reset, frameFrag]
    exact ⟨rfl, rfl, rfl, rfl, rfl, fun _ => rfl, fun _ => rfl⟩
  · simp only [asmStart, hst, Asm.reset, frameFrag]
    exact hs.resolve_left hst

theorem asmSequence_agrees (ha : s.Agrees a) {fidx : UInt16} (hidx : fidx.toNat < 65535) :
    (s.asmSequence fidx).Agrees ⟨a.src, fidx.toNat + 1, a.bad || fidx.toNat != a.next, a.buf⟩ := by
  have hsucc : (fidx + 1).toNat = fidx.toNat + 1 := by
    rw [UInt16.toNat_add]
    exact Nat.mod_eq_of_lt (Nat.succ_lt_succ hidx)
  by_cases hne : fidx = s.rxAsmNextFrag
  · have hn : fidx.toNat = a.next := by rw [hne, ha.next]
    simp only [asmSequence, hne, ne_eq, not_true, if_false]
    rw [← hne]
    exact ⟨ha.src, hsucc, by simp [ha.bad, hn], ha.bytes, ha.len, ha.cap, ha.freed⟩
  · have hn : fidx.toNat ≠ a.next := fun h => hne (UInt16.toNat_inj.mp (h.trans ha.next.symm))
    simp only [asmSequence, ne_eq, hne, not_false_iff, if_true]
    exact ⟨ha.src, hsucc, by simp [hn], ha.bytes, ha.len, ha.cap, ha.freed⟩

theorem asmGrow_fits (ha : s.Agrees a) {len : Nat} (hlen : 0 < len) :
    (s.asmGrow .ok len).asmFits len = true ∧ (s.asmGrow .ok len).asmBytes = s.asmBytes := by
  by_cases hc : s.rxAsmCap < s.rxAsmLen + len
  · simp only [asmGrow, hc, if_true, AllocEnv.ok]
    refine ⟨?_, List.take_of_length_le (Nat.le_of_eq ha.asmBytes_length)⟩
    simp only [asmFits, Option.isSome_some, Bool.true_and, decide_eq_true_eq]
    omega
  · simp only [asmGrow, hc, if_false, and_true]
    -- a buffer is there: without one the capacity is zero and would have been exceeded
    have hbuf : s.rxAsmBuf ≠ none := by
      intro hnone
      have := ha.cap hnone
      omega
    simp only [asmFits, Option.isSome_iff_ne_none.mpr hbuf, Bool.true_and, decide_eq_true_eq]
    omega

theorem asmGrow_others (s : Stream) (env : AllocEnv) (len : Nat) :
    (s.asmGrow env len).rxAsmSrcId = s.rxAsmSrcId ∧
      (s.asmGrow env len).rxAsmNextFrag = s.rxAsmNextFrag ∧
      (s.asmGrow env len).rxAsmBad = s.rxAsmBad ∧ (s.asmGrow env len).rxAsmLen = s.rxAsmLen := by
  unfold asmGrow
  split
  · split <;> exact ⟨rfl, rfl, rfl, rfl⟩
  · exact ⟨rfl, rfl, rfl, rfl⟩

theorem asmStore_agrees (ha : s.Agrees a) (hp : payload ≠ []) :
    ((s.asmGrow .ok payload.length).asmAppend payload).Agrees
        ⟨a.src, a.next, a.bad, a.buf ++ payload⟩ ∧
      ((s.asmGrow .ok payload.length).asmAppend payload).rxAsmBuf.isSome := by
  obtain ⟨hfits, hbytes⟩ := asmGrow_fits ha (List.length_pos_of_ne_nil hp)
  obtain ⟨hsrc, hnext, hbad, hlen⟩ := s.asmGrow_others .ok payload.length
  have hl : s.rxAsmLen + payload.length = (s.asmBytes ++ payload).length := by
    rw [List.length_append, ha.asmBytes_length]
  simp only [asmAppend, hfits, if_true, hbytes]
  refine ⟨⟨hsrc.trans ha.src, hnext ▸ ha.next, hbad.trans ha.bad, ?_, ?_, by simp, ?_⟩, rfl⟩
  · rw [← ha.bytes, asmBytes, hlen]
    exact List.take_of_length_le (Nat.le_of_eq hl.symm)
  · rw [hlen]
    exact hl
  · intro h
    exact absurd (List.append_eq_nil_iff.mp h).2 hp

theorem asmFrame_agrees {h : StreamHdr}
    (hs : h.isStart = true ∨ s.Agrees a) (hidx : h.fragIdx.toNat < 65535) (hp : payload ≠ []) :
    (s.asmFrame .ok h payload).Agrees
        ((a.reset (frameFrag h payload)).accept (frameFrag h payload)) ∧
      (s.asmFrame .ok h payload).rxAsmBuf.isSome := by
  have h1 : (s.asmStart h).Agrees (a.reset (frameFrag h payload)) := asmStart_agrees hs
  have h2 := asmSequence_agrees h1 hidx
  exact asmStore_agrees h2 hp

def queueView (s : Stream) : List RxMsg × Nat × Nat × Int :=
  (s.rxQueue, s.rxQueueLen, s.rxQueueMax, s.rxComplete)

theorem asmFrame_queueView (s : Stream) (env : AllocEnv) (h : StreamHdr) (payload : List UInt8) :
    (s.asmFrame env h payload).queueView = s.queueView := by
  have h1 : (s.asmStart h).queueView = s.queueView := by
    unfold asmStart
    split <;> rfl
  have h2 : ∀ t : Stream, (t.asmSequence h.fragIdx).queueView = t.queueView := by
    intro t
    unfold asmSequence
    split <;> rfl
  have h3 : ∀ t : Stream, (t.asmGrow env payload.length).queueView = t.queueView := by
    intro t
    unfold asmGrow
    split
    · split <;> rfl
    · rfl
  have h4 : ∀ t : Stream, (t.asmAppend payload).queueView = t.queueView := by
    intro t
    unfold asmAppend
    split <;> rfl
  rw [asmFrame, h4, h3, h2, h1]

theorem rxFrame_queueView (s : Stream) (env : AllocEnv) (h : StreamHdr) (payload : List UInt8) :
    (s.rxFrame env h payload).1.queueView =
      match (s.rxFrame env h payload).2 with
      | none => s.queueView
      | some m => (s.rxQueue ++ [m], s.rxQueueLen + 1, s.rxQueueMax, s.rxComplete + 1) := by
  have hq := s.asmFrame_queueView env h payload
  simp only [queueView, Prod.mk.injEq] at hq
  obtain ⟨h1, h2, h3, h4⟩ := hq
  unfold rxFrame rxFinish rxEnqueue
  dsimp only
  split
  · split
    · simp [asmFree, queueView, h1, h2, h3, h4]
    · split
      · split <;> simp [asmFree, queueView, h1, h2, h3, h4]
      · simp [asmFree, queueView, h1, h2, h3, h4]
  · simp [queueView, h1, h2, h3, h4]

def hasRoom (s : Stream) : Bool := decide (s.rxQueueLen < s.rxQueueMax)

theorem hasRoom_congr {s t : Stream} (h : s.queueView = t.queueView) : s.hasRoom = t.hasRoom := by
  simp only [queueView, Prod.mk.injEq] at h
  rw [hasRoom, hasRoom, h.2.1, h.2.2.1]

theorem rxFinish_agrees (ha : s.Agrees a) (hbuf : s.rxAsmBuf.isSome) :
    (s.rxFinish .ok).1.Agrees a.close.1 ∧
      (s.rxFinish .ok).2 = if s.hasRoom then a.close.2.map rxMsg else none := by
  by_cases hb : s.rxAsmBad
  · have hab : a.bad = true := by rw [← ha.bad, hb]
    simp only [rxFinish, hb, if_true, Asm.close, hab, Option.map_none, ite_self, and_true]
    exact ⟨ha.src, rfl, rfl, rfl, rfl, fun _ => rfl, fun _ => rfl⟩
  · have hab : a.bad = false := by rw [← ha.bad]; exact Bool.not_eq_true _ ▸ hb
    have hmsg : (⟨s.rxAsmSrcId, shdrFMsgEnd, s.asmBytes⟩ : RxMsg) = rxMsg (a.src, a.buf) := by
      rw [rxMsg, ha.src, ha.bytes]
    simp only [rxFinish, hb, Bool.false_eq_true, if_false, AllocEnv.ok, hbuf, Bool.and_self, if_true,
      Asm.close, hab, Option.map_some, hmsg]
    by_cases hr : s.rxQueueLen < s.rxQueueMax
    · simp only [rxEnqueue, hasRoom, hr, if_true, decide_true, and_true]
      exact ⟨ha.src, ha.next, ha.bad.trans hab, rfl, rfl, fun _ => rfl, fun _ => rfl⟩
    · simp only [rxEnqueue, hasRoom, hr, if_false, decide_false, Bool.false_eq_true, and_true]
      exact ⟨ha.src, ha.next, ha.bad.trans hab, rfl, rfl, fun _ => rfl, fun _ => rfl⟩

theorem rxFrame_agrees {h : StreamHdr}
    (hs : h.isStart = true ∨ s.Agrees a) (hidx : h.fragIdx.toNat < 65535) (hp : payload ≠ []) :
    (s.rxFrame .ok h payload).1.Agrees (feed a (frameFrag h payload)).1 ∧
      (s.rxFrame .ok h payload).2 =
        if s.hasRoom then (feed a (frameFrag h payload)).2.map rxMsg else none := by
  obtain ⟨ha, hbuf⟩ := asmFrame_agrees hs hidx hp
  have hroom := hasRoom_congr (s.asmFrame_queueView .ok h payload)
  have hfin : (frameFrag h payload).fin = h.isEnd := rfl
  by_cases he : h.isEnd
  · simp only [rxFrame, feed, hfin, he, if_true]
    rw [← hroom]
    exact rxFinish_agrees ha hbuf
  · simp only [rxFrame, feed, hfin, he, Bool.false_eq_true, if_false, Option.map_none, ite_self,
      and_true]
    exact ha

theorem streamRecv_agrees (ha : s.Agrees a) (bufLen : Nat)
    (copyFault : Bool) : (streamRecv s bufLen copyFault).1.Agrees a := by
  unfold streamRecv
  split
  · exact ha
  · split
    · exact ha
    · exact ⟨ha.src, ha.next, ha.bad, ha.bytes, ha.len, ha.cap, ha.freed⟩

end Stream

namespace StreamEvent

def fragment : StreamEvent → Option (Frag UInt8 UInt8)
  | .frame h payload _ => some (frameFrag h payload)
  | .recv _ _ => none

def granted : StreamEvent → Prop
  | .frame h payload env => env = .ok ∧ payload ≠ [] ∧ h.fragIdx.toNat < 65535
  | .recv _ _ => True

end StreamEvent

namespace Stream

def QueueRoom (s : Stream) (es : List StreamEvent) : Prop :=
  ∀ pre e post, es = pre ++ e :: post → (s.run pre).1.hasRoom = true

theorem QueueRoom.head {e : StreamEvent} {es : List StreamEvent}
    (h : s.QueueRoom (e :: es)) : s.hasRoom = true := h [] e es rfl

theorem QueueRoom.tail {e : StreamEvent} {es : List StreamEvent}
    (h : s.QueueRoom (e :: es)) : (s.step e).1.QueueRoom es := by
  intro pre e' post hes
  exact h (e :: pre) e' post (by rw [hes]; rfl)

theorem QueueRoom.cons {e : StreamEvent} {es : List StreamEvent}
    (hs : s.hasRoom = true) (h : (s.step e).1.QueueRoom es) : s.QueueRoom (e :: es) := by
  intro pre e' post hes
  cases pre with
  | nil => exact hs
  | cons d pre =>
    obtain ⟨rfl, rfl⟩ := List.cons.inj hes
    exact h pre e' post rfl

theorem step_queueLen (s : Stream) (e : StreamEvent) :
    (s.step e).1.rxQueueLen ≤ s.rxQueueLen + 1 ∧ (s.step e).1.rxQueueMax = s.rxQueueMax := by
  cases e with
  | frame h payload env =>
    simp only [step]
    split
    · exact ⟨Nat.le_succ _, rfl⟩
    · have hq := s.rxFrame_queueView env h payload
      simp only [queueView] at hq
      split at hq <;> simp only [Prod.mk.injEq] at hq <;> exact ⟨by omega, hq.2.2.1⟩
  | recv bufLen copyFault =>
    simp only [step, streamRecv]
    split
    · exact ⟨Nat.le_succ _, rfl⟩
    · split
      · exact ⟨Nat.le_succ _, rfl⟩
      · exact ⟨by simp only; omega, rfl⟩

theorem run_queueLen (s : Stream) (es : List StreamEvent) :
    (s.run es).1.rxQueueLen ≤ s.rxQueueLen + es.length ∧
      (s.run es).1.rxQueueMax = s.rxQueueMax := by
  induction es generalizing s with
  | nil => exact ⟨Nat.le_refl _, rfl⟩
  | cons e es ih =>
    obtain ⟨hlen, hmax⟩ := s.step_queueLen e
    obtain ⟨hlen', hmax'⟩ := ih (s.step e).1
    rw [List.length_cons]
    refine ⟨?_, hmax'.trans hmax⟩
    change ((s.step e).1.run es).1.rxQueueLen ≤ _
    omega

theorem queueRoom_of_length {s : Stream} {es : List StreamEvent}
    (h : s.rxQueueLen + es.length ≤ s.rxQueueMax) : s.QueueRoom es := by
  rintro pre e post rfl
  obtain ⟨hlen, hmax⟩ := s.run_queueLen pre
  simp only [List.length_append, List.length_cons] at h
  rw [hasRoom, decide_eq_true_eq]
  omega

theorem run_agrees (es : List StreamEvent) (hopen : s.refcount ≠ 0) (hg : ∀ e ∈ es, e.granted)
    (hs : s.Agrees a ∨ ∀ f ∈ (es.filterMap StreamEvent.fragment).head?, f.start = true) :
    (s.run es).2.Sublist ((feedAll a (es.filterMap StreamEvent.fragment)).2.map rxMsg) ∧
      (s.QueueRoom es →
        (s.run es).2 = (feedAll a (es.filterMap StreamEvent.fragment)).2.map rxMsg) ∧
      (s.Agrees a ∨ es.filterMap StreamEvent.fragment ≠ [] →
        (s.run es).1.Agrees (feedAll a (es.filterMap StreamEvent.fragment)).1) := by
  induction es generalizing s a with
  | nil =>
    refine ⟨List.Sublist.refl _, fun _ => rfl, fun h => ?_⟩
    exact h.resolve_right fun h => h rfl
  | cons e es ih =>
    have hg' : ∀ e ∈ es, e.granted := fun e' he' => hg e' (List.mem_cons_of_mem e he')
    have hopen' : (s.step e).1.refcount ≠ 0 := by rwa [step_refcount]
    cases e with
    | recv bufLen copyFault =>
      -- a reader does not touch the assembly
      have hs' : (s.step (.recv bufLen copyFault)).1.Agrees a ∨
          ∀ f ∈ (es.filterMap StreamEvent.fragment).head?, f.start = true :=
        hs.imp_left fun h => streamRecv_agrees h bufLen copyFault
      obtain ⟨h1, h2, h3⟩ := ih hopen' hg' hs'
      refine ⟨h1, fun hr => h2 hr.tail, fun h => h3 ?_⟩
      exact h.imp_left fun h => streamRecv_agrees h bufLen copyFault
    | frame h payload env =>
      obtain ⟨rfl, hp, hidx⟩ := hg _ List.mem_cons_self
      -- a first frame that starts a message makes the stream agree, whatever it held
      have hst : h.isStart = true ∨ s.Agrees a :=
        hs.symm.imp_left fun hf => hf (frameFrag h payload) rfl
      obtain ⟨ha, hq⟩ := rxFrame_agrees hst hidx hp
      have hstep : s.step (.frame h payload .ok) = s.rxFrame .ok h payload := by
        simp only [step, hopen, if_false]
      obtain ⟨h1, h2, h3⟩ := ih hopen' hg' (Or.inl (by rw [hstep]; exact ha))
      rw [hstep] at h1 h2 h3
      simp only [run, hstep, List.filterMap_cons, StreamEvent.fragment, feedAll, List.map_append]
      refine ⟨?_, ?_, fun _ => h3 (Or.inl ha)⟩
      · apply List.Sublist.append _ h1
        rw [hq]
        split
        · cases (feed a (frameFrag h payload)).2 <;> simp
        · simp
      · intro hr
        have hroom := hr.head
        have htail := hr.tail
        rw [hstep] at htail
        rw [h2 htail, hq, hroom]
        cases (feed a (frameFrag h payload)).2 <;> simp

end Stream

end OdinLink
