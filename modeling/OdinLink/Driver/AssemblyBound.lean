import OdinLink.Driver.Assembly

/-!
# What a peer can make a stream hold

Nothing in the assembly limits it: a payload is appended whatever is held already, and it is
appended to a message that has lost a fragment as well.
-/

namespace OdinLink

def maxMessage : Nat := streamPayloadMax * streamMaxFrames

def StreamEvent.sent : StreamEvent → Option (StreamHdr × List UInt8)
  | .frame h payload _ => some (h, payload)
  | .recv _ _ => none

/-- Every frame has the index that is due, `next` or 0 at a start, and no message gets longer than
the largest one; `held` bytes of the message are there. -/
def orderly : UInt16 → Nat → List (StreamHdr × List UInt8) → Bool
  | _, _, [] => true
  | next, held, (h, payload) :: fs =>
    let total := (if h.isStart then 0 else held) + payload.length
    decide (h.fragIdx = if h.isStart then 0 else next) && decide (total ≤ maxMessage) &&
      orderly (h.fragIdx + 1) (if h.isEnd then 0 else total) fs

namespace Stream

/-- What a frame must not do: make the stream hold more than the largest message, or add payload to
a message marked bad. -/
def Restrained (s : Stream) : StreamEvent → Prop
  | .frame h payload env =>
    let marked := (s.asmStart h).asmSequence h.fragIdx
    (s.asmFrame env h payload).rxAsmLen ≤ maxMessage ∧
      (marked.rxAsmBad = true → (s.asmFrame env h payload).rxAsmLen = marked.rxAsmLen)
  | .recv _ _ => True

def RestrainedIn (s : Stream) (es : List StreamEvent) : Prop :=
  ∀ pre e post, es = pre ++ e :: post → (s.run pre).1.Restrained e

theorem restrainedIn_nil (s : Stream) : s.RestrainedIn [] := by
  intro pre e post h
  exact absurd h (by simp)

theorem restrainedIn_cons (s : Stream) (e : StreamEvent) (es : List StreamEvent) :
    s.RestrainedIn (e :: es) ↔ s.Restrained e ∧ (s.step e).1.RestrainedIn es := by
  constructor
  · intro h
    refine ⟨h [] e es rfl, fun pre e' post he => ?_⟩
    exact h (e :: pre) e' post (by rw [he, List.cons_append])
  · rintro ⟨h0, h⟩ pre e' post he
    cases pre with
    | nil =>
      obtain ⟨rfl, rfl⟩ := List.cons.inj he
      exact h0
    | cons e0 pre =>
      obtain ⟨rfl, hes⟩ := List.cons.inj he
      exact h pre e' post hes

section Fields
variable (s : Stream) (env : AllocEnv) (h : StreamHdr) (payload : List UInt8)

theorem asmAppend_others :
    (s.asmAppend payload).rxAsmNextFrag = s.rxAsmNextFrag ∧
      (s.asmAppend payload).rxAsmBad = s.rxAsmBad := by
  unfold asmAppend
  split <;> exact ⟨rfl, rfl⟩

theorem asmAppend_len :
    (s.asmAppend payload).rxAsmLen =
      if s.asmFits payload.length then s.rxAsmLen + payload.length else s.rxAsmLen := by
  unfold asmAppend
  split <;> rfl

theorem rxFinish_asm :
    (s.rxFinish env).1.rxAsmLen = 0 ∧ (s.rxFinish env).1.rxAsmBuf = none ∧
      (s.rxFinish env).1.rxAsmCap = 0 ∧
      (s.rxAsmBad = false → (s.rxFinish env).1.rxAsmNextFrag = s.rxAsmNextFrag ∧
        (s.rxFinish env).1.rxAsmBad = false) := by
  unfold rxFinish
  split
  · next hbad => exact ⟨rfl, rfl, rfl, fun hgood => absurd (hbad.symm.trans hgood) (by decide)⟩
  · next hbad =>
    have hgood : s.rxAsmBad = false := Bool.eq_false_iff.mpr hbad
    split
    · unfold rxEnqueue
      split <;> exact ⟨rfl, rfl, rfl, fun _ => ⟨rfl, hgood⟩⟩
    · exact ⟨rfl, rfl, rfl, fun _ => ⟨rfl, hgood⟩⟩

theorem recv_asm (bufLen : Nat) (copyFault : Bool) :
    let t := (s.step (.recv bufLen copyFault)).1
    t.rxAsmNextFrag = s.rxAsmNextFrag ∧ t.rxAsmLen = s.rxAsmLen ∧ t.rxAsmBad = s.rxAsmBad ∧
      t.rxAsmBuf = s.rxAsmBuf ∧ t.rxAsmCap = s.rxAsmCap := by
  simp only [step, streamRecv]
  split
  · exact ⟨rfl, rfl, rfl, rfl, rfl⟩
  · split <;> exact ⟨rfl, rfl, rfl, rfl, rfl⟩

end Fields

structure Amid (s : Stream) (next : UInt16) (held : Nat) : Prop where
  next : s.rxAsmNextFrag = next
  held : s.rxAsmLen ≤ held
  good : s.rxAsmBad = false
  live : s.refcount ≠ 0

structure AmidAll (s : Stream) (next : UInt16) (held : Nat) : Prop where
  amid : s.Amid next held
  all : s.rxAsmLen = held
  buf : s.rxAsmCap ≠ 0 → s.rxAsmBuf.isSome

theorem streamCreate_amid (d : UInt8) : (streamCreate d).AmidAll 0 0 :=
  ⟨⟨rfl, Nat.le_refl _, rfl, Nat.one_ne_zero⟩, rfl, fun h => absurd rfl h⟩

section Events
variable {s : Stream} {next : UInt16} {held : Nat}

theorem Amid.recv (hs : s.Amid next held) (bufLen : Nat) (copyFault : Bool) :
    (s.step (.recv bufLen copyFault)).1.Amid next held := by
  obtain ⟨hnext, hlen, hbad, -, -⟩ := s.recv_asm bufLen copyFault
  exact ⟨hnext.trans hs.next, hlen.trans_le hs.held, hbad.trans hs.good,
    (s.step_refcount _).trans_ne hs.live⟩

variable {h : StreamHdr}

theorem asmStart_amid (hs : s.Amid next held) :
    (s.asmStart h).Amid (if h.isStart then 0 else next) (if h.isStart then 0 else held) := by
  unfold asmStart
  split
  · exact ⟨rfl, Nat.le_refl _, rfl, hs.live⟩
  · exact hs

theorem asmStart_amidAll (hs : s.AmidAll next held) :
    (s.asmStart h).AmidAll (if h.isStart then 0 else next) (if h.isStart then 0 else held) := by
  refine ⟨asmStart_amid hs.amid, ?_, ?_⟩
  · unfold asmStart
    split
    · rfl
    · exact hs.all
  · unfold asmStart
    split
    · exact fun h0 => absurd rfl h0
    · exact hs.buf

theorem asmSequence_due (hs : s.Amid next held) :
    s.asmSequence next = {s with rxAsmNextFrag := next + 1} := by
  rw [asmSequence, if_neg (not_not_intro hs.next.symm)]

theorem asmFits_of_granted (hbuf : s.rxAsmCap ≠ 0 → s.rxAsmBuf.isSome) {n : Nat} (hn : 0 < n) :
    (s.asmGrow .ok n).asmFits n = true := by
  unfold asmGrow asmFits
  by_cases hc : s.rxAsmCap < s.rxAsmLen + n
  · rw [if_pos hc]
    simp only [AllocEnv.ok, if_true, Option.isSome_some, Bool.true_and, decide_eq_true_eq]
    omega
  · rw [if_neg hc]
    simp only [hbuf (by omega), Bool.true_and, decide_eq_true_eq]
    omega

theorem asmFrame_others (s : Stream) (env : AllocEnv) (h : StreamHdr) (payload : List UInt8) :
    let marked := (s.asmStart h).asmSequence h.fragIdx
    (s.asmFrame env h payload).rxAsmNextFrag = marked.rxAsmNextFrag ∧
      (s.asmFrame env h payload).rxAsmBad = marked.rxAsmBad ∧
      (s.asmFrame env h payload).rxAsmLen ≤ marked.rxAsmLen + payload.length := by
  intro marked
  obtain ⟨-, hnext, hbad, hlen⟩ := marked.asmGrow_others env payload.length
  obtain ⟨hnext', hbad'⟩ := (marked.asmGrow env payload.length).asmAppend_others payload
  refine ⟨hnext'.trans hnext, hbad'.trans hbad, ?_⟩
  rw [asmFrame, asmAppend_len, hlen]
  split
  · exact Nat.le_refl _
  · exact Nat.le_add_right _ _

theorem asmFrame_len_granted {s : Stream} {next : UInt16} {held : Nat} (hs : s.AmidAll next held)
    (h : StreamHdr) {payload : List UInt8} (hp : payload ≠ []) :
    (s.asmFrame .ok h payload).rxAsmLen = (if h.isStart then 0 else held) + payload.length ∧
      (s.asmFrame .ok h payload).rxAsmBuf.isSome := by
  have hstart : (s.asmStart h).AmidAll _ _ := asmStart_amidAll hs
  have hseq : ((s.asmStart h).asmSequence h.fragIdx).rxAsmLen = (if h.isStart then 0 else held) ∧
      (((s.asmStart h).asmSequence h.fragIdx).rxAsmCap ≠ 0 →
        ((s.asmStart h).asmSequence h.fragIdx).rxAsmBuf.isSome) := by
    unfold asmSequence
    split <;> exact ⟨hstart.all, hstart.buf⟩
  have hfits := asmFits_of_granted hseq.2 (List.length_pos_of_ne_nil hp)
  obtain ⟨-, -, -, hlen⟩ := ((s.asmStart h).asmSequence h.fragIdx).asmGrow_others .ok payload.length
  rw [asmFrame]
  constructor
  · rw [asmAppend_len, if_pos hfits, hlen, hseq.1]
  · rw [asmAppend, if_pos hfits]
    rfl

theorem Amid.asmFrame (hs : s.Amid next held) (env : AllocEnv) (payload : List UInt8)
    (hidx : h.fragIdx = if h.isStart then 0 else next) :
    (s.asmFrame env h payload).rxAsmNextFrag = h.fragIdx + 1 ∧
      (s.asmFrame env h payload).rxAsmLen ≤
        (if h.isStart then 0 else held) + payload.length ∧
      (s.asmFrame env h payload).rxAsmBad = false ∧
      ((s.asmStart h).asmSequence h.fragIdx).rxAsmBad = false := by
  have hstart : (s.asmStart h).Amid _ _ := asmStart_amid hs
  have hmark : (s.asmStart h).asmSequence h.fragIdx =
      {s.asmStart h with rxAsmNextFrag := h.fragIdx + 1} := by
    rw [hidx]
    exact asmSequence_due hstart
  obtain ⟨hnext, hbad, hlen⟩ := s.asmFrame_others env h payload
  rw [hmark] at hnext hbad hlen ⊢
  exact ⟨hnext, Nat.le_trans hlen (Nat.add_le_add_right hstart.held payload.length),
    hbad.trans hstart.good, hstart.good⟩

theorem Amid.restrained (hs : s.Amid next held) (env : AllocEnv) (payload : List UInt8)
    (hidx : h.fragIdx = if h.isStart then 0 else next)
    (hfit : (if h.isStart then 0 else held) + payload.length ≤ maxMessage) :
    s.Restrained (.frame h payload env) := by
  obtain ⟨-, hlen, -, hgood⟩ := hs.asmFrame env payload hidx
  refine ⟨Nat.le_trans hlen hfit, fun hmarked => ?_⟩
  exact absurd (hmarked.symm.trans hgood) (by decide)

theorem Amid.frame (hs : s.Amid next held) (env : AllocEnv) (payload : List UInt8)
    (hidx : h.fragIdx = if h.isStart then 0 else next) :
    (s.step (.frame h payload env)).1.Amid (h.fragIdx + 1)
      (if h.isEnd then 0 else (if h.isStart then 0 else held) + payload.length) := by
  obtain ⟨hnext, hlen, hgood, -⟩ := hs.asmFrame env payload hidx
  have hlive := (s.step_refcount (.frame h payload env)).trans_ne hs.live
  simp only [step, hs.live, if_false, rxFrame] at hlive ⊢
  by_cases hend : h.isEnd
  · simp only [hend, if_true] at hlive ⊢
    obtain ⟨hlen0, -, -, hkeep⟩ := (s.asmFrame env h payload).rxFinish_asm env
    obtain ⟨hnext', hgood'⟩ := hkeep hgood
    exact ⟨hnext'.trans hnext, Nat.le_of_eq hlen0, hgood', hlive⟩
  · simp only [hend, Bool.false_eq_true, if_false] at hlive ⊢
    exact ⟨hnext, hlen, hgood, hlive⟩

theorem AmidAll.frame (hs : s.AmidAll next held) {payload : List UInt8} (hp : payload ≠ [])
    (hidx : h.fragIdx = if h.isStart then 0 else next) :
    (s.step (.frame h payload .ok)).1.AmidAll (h.fragIdx + 1)
      (if h.isEnd then 0 else (if h.isStart then 0 else held) + payload.length) := by
  obtain ⟨hlen, hbuf⟩ := asmFrame_len_granted hs h hp
  refine ⟨hs.amid.frame .ok payload hidx, ?_, ?_⟩
  · simp only [step, hs.amid.live, if_false, rxFrame]
    split
    · exact ((s.asmFrame .ok h payload).rxFinish_asm .ok).1
    · exact hlen
  · simp only [step, hs.amid.live, if_false, rxFrame]
    split
    · obtain ⟨-, -, hcap, -⟩ := (s.asmFrame .ok h payload).rxFinish_asm .ok
      exact fun h0 => absurd hcap h0
    · exact fun _ => hbuf

theorem AmidAll.not_restrained (hs : s.AmidAll next held) {payload : List UInt8}
    (hp : payload ≠ [])
    (hbad : ¬ (h.fragIdx = (if h.isStart then 0 else next) ∧
      (if h.isStart then 0 else held) + payload.length ≤ maxMessage)) :
    ¬ s.Restrained (.frame h payload .ok) := by
  intro hres
  obtain ⟨hlen, -⟩ := asmFrame_len_granted hs h hp
  obtain ⟨hmax, hstill⟩ := hres
  rw [hlen] at hmax hstill
  have hstart : (s.asmStart h).AmidAll _ _ := asmStart_amidAll hs
  have hgap : h.fragIdx ≠ (if h.isStart then 0 else next) := fun hidx => hbad ⟨hidx, hmax⟩
  have hmark : (s.asmStart h).asmSequence h.fragIdx =
      {s.asmStart h with
        rxAsmBad := true, rxFragDrops := (s.asmStart h).rxFragDrops + 1,
        rxAsmNextFrag := h.fragIdx + 1} := by
    rw [asmSequence, if_pos]
    rw [hstart.amid.next]
    exact hgap
  rw [hmark] at hstill
  have hsame := hstill rfl
  rw [show _ = _ from hstart.all] at hsame
  have hpos := List.length_pos_of_ne_nil hp
  omega

end Events

theorem restrainedIn_of_orderly {s : Stream} {next : UInt16} {held : Nat} (hs : s.Amid next held)
    (es : List StreamEvent) (ho : orderly next held (es.filterMap StreamEvent.sent) = true) :
    s.RestrainedIn es := by
  induction es generalizing s next held with
  | nil => exact s.restrainedIn_nil
  | cons e es ih =>
    rw [restrainedIn_cons]
    cases e with
    | frame h payload env =>
      simp only [List.filterMap_cons, StreamEvent.sent, orderly, Bool.and_eq_true,
        decide_eq_true_eq] at ho
      obtain ⟨⟨hidx, hfit⟩, hrest⟩ := ho
      exact ⟨hs.restrained env payload hidx hfit, ih (hs.frame env payload hidx) hrest⟩
    | recv bufLen copyFault =>
      exact ⟨trivial, ih (hs.recv bufLen copyFault) ho⟩

theorem orderly_of_restrainedIn {s : Stream} {next : UInt16} {held : Nat}
    (hs : s.AmidAll next held) (fs : List (StreamHdr × List UInt8)) (hne : ∀ f ∈ fs, f.2 ≠ [])
    (hres : s.RestrainedIn (fs.map fun f => .frame f.1 f.2 .ok)) : orderly next held fs = true := by
  induction fs generalizing s next held with
  | nil => rfl
  | cons f fs ih =>
    obtain ⟨h, payload⟩ := f
    rw [List.map_cons, restrainedIn_cons] at hres
    have hp : payload ≠ [] := hne _ List.mem_cons_self
    by_cases hok : h.fragIdx = (if h.isStart then 0 else next) ∧
        (if h.isStart then 0 else held) + payload.length ≤ maxMessage
    · have hrest := ih (hs.frame hp hok.1) (fun f hf => hne f (List.mem_cons_of_mem _ hf))
        hres.2
      simp only [orderly, Bool.and_eq_true, decide_eq_true_eq]
      exact ⟨hok, hrest⟩
    · exact absurd hres.1 (hs.not_restrained hp hok)

end Stream

/-- Whatever is allocated and whenever messages are read, a new stream never holds more than the
largest message and adds nothing to a message marked bad, exactly when the frames sent to it are
orderly. -/
theorem assembly_restrained_iff_orderly (d : UInt8) (fs : List (StreamHdr × List UInt8))
    (hne : ∀ f ∈ fs, f.2 ≠ []) :
    (∀ es : List StreamEvent, es.filterMap StreamEvent.sent = fs →
      (streamCreate d).RestrainedIn es) ↔ orderly 0 0 fs = true := by
  constructor
  · intro hall
    refine Stream.orderly_of_restrainedIn (Stream.streamCreate_amid d) fs hne (hall _ ?_)
    rw [List.filterMap_map]
    exact List.filterMap_some
  · intro ho es hes
    rw [← hes] at ho
    exact Stream.restrainedIn_of_orderly (Stream.streamCreate_amid d).amid es ho

def pairOfFrames : List (StreamHdr × List UInt8) :=
  [(⟨9, 1, shdrFMsgStart, 0, 1, 0⟩, [7]), (⟨9, 1, shdrFMsgEnd, 0, 1, 1⟩, [8])]

theorem pair_of_frames_restrained :
    (∀ f ∈ pairOfFrames, f.2 ≠ []) ∧
      ∀ es : List StreamEvent, es.filterMap StreamEvent.sent = pairOfFrames →
        (streamCreate 1).RestrainedIn es :=
  ⟨by decide, (assembly_restrained_iff_orderly 1 pairOfFrames (by decide)).mpr (by decide)⟩

def endlessFrames (n : Nat) : List StreamEvent :=
  (List.range n).map fun i =>
    .frame ⟨9, 1, 0, 0, 4024, UInt16.ofNat i⟩ (List.replicate streamPayloadMax 0) .ok

theorem endlessFrames_held (d : UInt8) (n : Nat) :
    ((streamCreate d).run (endlessFrames n)).1.AmidAll (UInt16.ofNat n) (n * streamPayloadMax) := by
  induction n with
  | zero =>
    rw [Nat.zero_mul]
    exact Stream.streamCreate_amid d
  | succ n ih =>
    let h : StreamHdr := ⟨9, 1, 0, 0, 4024, UInt16.ofNat n⟩
    have hmid : h.isStart = false ∧ h.isEnd = false := by
      change ((0 : UInt8) &&& shdrFMsgStart != 0) = false ∧
        ((0 : UInt8) &&& shdrFMsgEnd != 0) = false
      decide
    have hp : List.replicate streamPayloadMax (0 : UInt8) ≠ [] := by
      apply List.ne_nil_of_length_pos
      rw [List.length_replicate]
      decide
    have hnext := ih.frame (h := h) hp (by rw [hmid.1, if_neg Bool.false_ne_true])
    rw [hmid.1, hmid.2, if_neg Bool.false_ne_true, if_neg Bool.false_ne_true,
      List.length_replicate] at hnext
    rw [endlessFrames, List.range_succ, List.map_append, Stream.run_append, Nat.succ_mul,
      UInt16.ofNat_add]
    exact hnext

/-- A frame that is missing marks the message bad, and the stream goes on holding what follows; and
a peer that ends no message makes it hold as much as it likes. -/
theorem peer_fills_the_assembly :
    (let frame (flags : UInt8) (fragIdx : UInt16) (payload : List UInt8) : StreamEvent :=
        .frame ⟨9, 1, flags, 0, 1, fragIdx⟩ payload .ok
      let s := ((streamCreate 1).run [frame shdrFMsgStart 0 [7], frame 0 5 [8]]).1
      s.rxAsmBad = true ∧ s.asmBytes = [7, 8] ∧ (s.step (frame 0 6 [9])).1.asmBytes = [7, 8, 9]) ∧
    ∃ es : List StreamEvent, maxMessage < ((streamCreate 1).run es).1.rxAsmLen := by
  refine ⟨by decide, endlessFrames (streamMaxFrames + 1), ?_⟩
  rw [(endlessFrames_held 1 (streamMaxFrames + 1)).all]
  decide

end OdinLink
