import OdinLink.Driver.RoundTrip

/-!
# What a frame can touch

A frame changes the stream it is addressed to and no other, so two runs that agree on the
frames for a stream leave it the same. Inside its own stream it should change nothing but
by the bytes it brought; the callback never compares the announced payload with the size
of the frame, so this holds as long as no frame announces more than arrived.
-/

namespace OdinLink

/-- Streams are isolated: two runs over frames of the send paths, with the same frames, allocation
outcomes and readers for stream `d`, leave `d` the same and queue the same messages on it. -/
theorem rx_stream_isolated (d : UInt8) (dev dev' : RxDevice) (evs evs' : List RxEvent)
    (hem : ∀ e ∈ evs, e.emitted) (hem' : ∀ e ∈ evs', e.emitted)
    (hinit : dev.streams d = dev'.streams d)
    (hsame : evs.filterMap (RxEvent.forStream d) = evs'.filterMap (RxEvent.forStream d)) :
    (dev.run evs).1.streams d = (dev'.run evs').1.streams d ∧
      (dev.run evs).2.filterMap (RxAct.queuedOn d) =
        (dev'.run evs').2.filterMap (RxAct.queuedOn d) := by
  have h := dev.run_view evs (fun e he => (hem e he).wellSized) d
  have h' := dev'.run_view evs' (fun e he => (hem' e he).wellSized) d
  rw [hinit, hsame] at h
  have heq := h.trans h'.symm
  exact ⟨congrArg Prod.fst heq, congrArg Prod.snd heq⟩

/-- In the second run, stream 2 is open as well, and the frames of two of its messages arrive before,
between and after those for stream 1. -/
theorem rx_stream_isolated_demo :
    let own := twoFrameSend 20 1 2
    let other := twoFrameSend 30 2 2
    let alone := arriveAll [(own, 0), (own, 1)]
    let mixed := arriveAll [(other, 0), (own, 0), (other, 1), (other, 0), (own, 1), (other, 1)]
    let dev := RxDevice.opened 1
    let dev' := dev.setStream 2 (streamCreate 2)
    (dev.run alone).1.streams 1 = (dev'.run mixed).1.streams 1 ∧
      (dev.run alone).2.filterMap (RxAct.queuedOn 1) =
        (dev'.run mixed).2.filterMap (RxAct.queuedOn 1) := by
  intro own other alone mixed dev dev'
  refine rx_stream_isolated 1 dev dev' alone mixed ?_ ?_ rfl ?_
  · apply arriveAll_emitted
    simp [own, twoFrameSend_accepted, twoFrameSend_length]
  · apply arriveAll_emitted
    simp [own, other, twoFrameSend_accepted, twoFrameSend_length]
  · have hown : own.dstId = 1 := rfl
    have hother : other.dstId = 2 := rfl
    refine (arriveAll_forStream (by decide)).trans (.trans ?_ (arriveAll_forStream (by decide)).symm)
    simp [hown, hother]

structure ReachesStream (dev : RxDevice) (c : Completion) (dst : UInt8) : Prop where
  slot : ∃ idx, c.frame = .slot idx
  unflagged : c.flagged = false
  hdr : streamHdrSize ≤ rxSize c.received
  data : ¬ (dmaHdrSize ≤ rxSize c.received ∧
    (Mem.dmaWrite (fun _ => 0) c.received).le32 0 = dmaMagic)
  dstId : (frameHdr c.received).dstId = dst
  notCtrl : dst ≠ streamIdCtrl
  payload : (frameHdr c.received).payloadLen ≠ 0
  opened : ∃ s, dev.streams dst = some s ∧ s.refcount ≠ 0

def Completion.overAnnounces (c : Completion) : Prop :=
  streamHdrSize ≤ c.received.length ∧
    c.received.length < streamHdrSize + (frameHdr c.received).payloadLen.toNat

def Overruns (dev : RxDevice) (c : Completion) : Prop :=
  c.overAnnounces ∧ ∃ dst, ReachesStream dev c dst

structure InBounds (dev : RxDevice) (c : Completion) (env : RxEnv) : Prop where
  copies : ∀ dst len, .append dst len ∈ (dev.step (.complete c env)).2 →
    streamHdrSize + len ≤ c.received.length
  drops : c.overAnnounces → ∀ dst, .accept dst ∉ (dev.step (.complete c env)).2

section Acts

theorem control_congr (mem mem' : Mem) (bs : List UInt8) :
    (dmaHdrSize ≤ rxSize bs ∧ (mem.dmaWrite bs).le32 0 = dmaMagic) ↔
      (dmaHdrSize ≤ rxSize bs ∧ (mem'.dmaWrite bs).le32 0 = dmaMagic) := by
  refine and_congr_right fun h => ?_
  have hlen : 0 + 4 ≤ bs.length := Nat.le_trans (Nat.le_trans (by decide) h) (rxSize_le bs)
  rw [le32_dmaWrite_congr mem mem' bs hlen]

namespace RxDevice

theorem step_acts (dev : RxDevice) (c : Completion) (env : RxEnv) :
    (∀ act ∈ (dev.step (.complete c env)).2, ∃ type, act = .control type) ∧
        (∀ dst, ¬ ReachesStream dev c dst) ∨
      ∃ idx, c.frame = .slot idx ∧ c.flagged = false ∧
        (dev.step (.complete c env)).2 =
          ((dev.dmaReceive c).countGood.rxGoodFrame ((dev.slotMem idx).dmaWrite c.received)
            (rxSize c.received) env.alloc).2 := by
  cases hf : c.frame with
  | legacy idx =>
    left
    refine ⟨fun act hact => ?_, fun dst hr => ?_⟩
    · simp only [step, rxCallback, hf, rxLegacyFrame] at hact
      split at hact
      · cases hact
      · split at hact
        · exact ⟨_, List.mem_singleton.mp hact⟩
        · cases hact
    · obtain ⟨i, hi⟩ := hr.slot
      rw [hf] at hi
      cases hi
  | slot idx =>
    simp only [step, rxCallback, hf]
    by_cases h : c.flagged
    · left
      rw [((dev.dmaReceive c).rxPoolFrame_flagged idx env h).2]
      refine ⟨by simp, fun dst hr => ?_⟩
      rw [hr.unflagged] at h
      cases h
    · rw [Bool.not_eq_true] at h
      right
      refine ⟨idx, rfl, h, ?_⟩
      rw [rxPoolFrame_unflagged _ idx env h, dmaReceive_slotMem dev hf]

theorem rxGoodFrame_acts (dev : RxDevice) (mem : Mem) (bs : List UInt8) (alloc : AllocEnv) :
    let acts := (dev.rxGoodFrame (mem.dmaWrite bs) (rxSize bs) alloc).2
    let h := frameHdr bs
    let taken := streamHdrSize ≤ rxSize bs ∧
      ¬ (dmaHdrSize ≤ rxSize bs ∧ (Mem.dmaWrite (fun _ => 0) bs).le32 0 = dmaMagic) ∧
      h.dstId ≠ streamIdCtrl ∧ h.payloadLen ≠ 0 ∧
      ∃ s, dev.streams h.dstId = some s ∧ s.refcount ≠ 0
    (∀ dst, .accept dst ∈ acts ↔ h.dstId = dst ∧ taken) ∧
      ∀ dst len, .append dst len ∈ acts → .accept dst ∈ acts ∧ len = h.payloadLen.toNat := by
  intro acts h taken
  have hctl := control_congr mem (fun _ => 0) bs
  by_cases h1 : dmaHdrSize ≤ rxSize bs ∧ (Mem.dmaWrite (fun _ => 0) bs).le32 0 = dmaMagic
  · have hacts : acts = [.control ((mem.dmaWrite bs).le32 4)] := by
      simp only [acts, rxGoodFrame, if_pos (hctl.mpr h1)]
    have hno : ¬ taken := fun ht => ht.2.1 h1
    simp [hacts, hno]
  by_cases h2 : streamHdrSize ≤ rxSize bs
  · have hacts : acts = (dev.rxStreamFrame (mem.dmaWrite bs) alloc).2 := by
      simp only [acts, rxGoodFrame, if_neg (mt hctl.mp h1), if_pos h2]
    have hh : (mem.dmaWrite bs).streamHdr = h :=
      Mem.streamHdr_dmaWrite_congr _ _ _ (h2.trans (rxSize_le bs))
    rw [hacts]
    simp only [rxStreamFrame, hh, taken, h2, h1, not_false_iff, true_and]
    by_cases h3 : h.dstId = streamIdCtrl
    · simp [h3]
    simp only [h3, if_false, ne_eq, not_false_iff, true_and, streamLookup]
    cases hs : dev.streams h.dstId with
    | none => simp
    | some s =>
      by_cases h4 : s.refcount = 0
      · simp [h4]
      by_cases h5 : h.payloadLen = 0
      · simp [h4, h5]
      · simp only [h4, h5, if_false]
        refine ⟨fun dst => ?_, fun dst len => ?_⟩
        · simp only [List.cons_append, List.mem_cons, RxAct.accept.injEq, List.mem_append,
            List.mem_map, reduceCtorEq, and_false, exists_false, or_false, not_false_iff,
            Option.some.injEq, exists_eq_left', and_self, and_true, h4]
          constructor
          · rintro (rfl | hm)
            · rfl
            · split at hm <;> simp at hm
          · exact fun hd => Or.inl hd.symm
        · simp only [List.cons_append, List.mem_cons, List.mem_append, List.mem_map, reduceCtorEq,
            and_false, exists_false, or_false, false_or, RxAct.accept.injEq]
          intro hm
          split at hm
          · obtain ⟨rfl, rfl⟩ := RxAct.append.inj (List.mem_singleton.mp hm)
            exact ⟨Or.inl rfl, rfl⟩
          · cases hm
  · have hacts : acts = [] := by
      simp only [acts, rxGoodFrame, if_neg (mt hctl.mp h1), if_neg h2]
    have hno : ¬ taken := fun ht => h2 ht.1
    simp [hacts, hno]

theorem accept_mem_iff (dev : RxDevice) (c : Completion) (env : RxEnv) (dst : UInt8) :
    .accept dst ∈ (dev.step (.complete c env)).2 ↔ ReachesStream dev c dst := by
  rcases dev.step_acts c env with ⟨hctl, hno⟩ | ⟨idx, hf, hfl, hacts⟩
  · refine ⟨fun hm => ?_, fun hr => absurd hr (hno dst)⟩
    obtain ⟨type, htype⟩ := hctl _ hm
    cases htype
  · have hstreams : (dev.dmaReceive c).countGood.streams = dev.streams := dmaReceive_streams dev c
    rw [hacts, (rxGoodFrame_acts _ _ _ _).1, hstreams]
    constructor
    · rintro ⟨rfl, h1, h2, h3, h4, h5⟩
      exact ⟨⟨idx, hf⟩, hfl, h1, h2, rfl, h3, h4, h5⟩
    · rintro ⟨_, _, h1, h2, rfl, h3, h4, h5⟩
      exact ⟨rfl, h1, h2, h3, h4, h5⟩

theorem append_mem (dev : RxDevice) (c : Completion) (env : RxEnv) {dst : UInt8} {len : Nat}
    (hm : .append dst len ∈ (dev.step (.complete c env)).2) :
    ReachesStream dev c dst ∧ len = (frameHdr c.received).payloadLen.toNat := by
  rw [← dev.accept_mem_iff c env dst]
  rcases dev.step_acts c env with ⟨hctl, _⟩ | ⟨idx, _, _, hacts⟩
  · obtain ⟨type, htype⟩ := hctl _ hm
    cases htype
  · rw [hacts] at hm ⊢
    exact (rxGoodFrame_acts _ _ _ _).2 dst len hm

theorem inBounds_iff (dev : RxDevice) (c : Completion) (env : RxEnv) :
    InBounds dev c env ↔ ¬ Overruns dev c := by
  constructor
  · rintro h ⟨hover, dst, hr⟩
    exact h.drops hover dst ((dev.accept_mem_iff c env dst).mpr hr)
  · intro h
    refine ⟨fun dst len hm => ?_, fun hover dst hm => ?_⟩
    · obtain ⟨hr, rfl⟩ := dev.append_mem c env hm
      by_contra hlt
      exact h ⟨⟨hr.hdr.trans (rxSize_le _), Nat.lt_of_not_le hlt⟩, dst, hr⟩
    · exact h ⟨hover, dst, (dev.accept_mem_iff c env dst).mp hm⟩

end RxDevice

end Acts

namespace RxDevice

def withSlotMem (dev : RxDevice) (mem : Nat → Mem) : RxDevice := {dev with slotMem := mem}

section SlotMem
variable (dev : RxDevice) (mem : Nat → Mem)

theorem rxRepostLoop_withSlotMem (ringRx : Nat → Bool) (k n : Nat) :
    rxRepostLoop ringRx k (dev.withSlotMem mem) n =
      (rxRepostLoop ringRx k dev n).withSlotMem mem := by
  induction n generalizing k dev with
  | zero => rfl
  | succ n ih =>
    have hpool : (dev.withSlotMem mem).framePool = dev.framePool := rfl
    simp only [rxRepostLoop, hpool]
    split
    · rfl
    · rename_i pool _
      split
      · exact ih {dev with framePool := pool, rxPosted := dev.rxPosted + 1} (k + 1)
      · rfl

theorem rxRepost_withSlotMem (ringRx : Nat → Bool) :
    (dev.withSlotMem mem).rxRepost ringRx = (dev.rxRepost ringRx).withSlotMem mem := by
  have hloop := dev.rxRepostLoop_withSlotMem mem ringRx 0 (dev.rxTarget - dev.rxPosted).toNat
  have htarget : (dev.withSlotMem mem).rxTarget - (dev.withSlotMem mem).rxPosted =
      dev.rxTarget - dev.rxPosted := rfl
  simp only [rxRepost, htarget, hloop]
  rfl

theorem rxControl_withSlotMem (type : Nat) :
    (dev.withSlotMem mem).rxControl type = (dev.rxControl type).withSlotMem mem := by
  unfold rxControl
  split <;> rfl

theorem rxLegacyFrame_withSlotMem (idx : Nat) (c : Completion) :
    (dev.withSlotMem mem).rxLegacyFrame idx c =
      ((dev.rxLegacyFrame idx c).1.withSlotMem mem, (dev.rxLegacyFrame idx c).2) := by
  have hmem : (dev.withSlotMem mem).legacyMem idx = dev.legacyMem idx := rfl
  have hstate : (dev.withSlotMem mem).state = dev.state := rfl
  simp only [rxLegacyFrame, hmem, hstate, rxControl_withSlotMem]
  split
  · rfl
  · split <;> rfl

theorem rxGoodFrame_withSlotMem (m : Mem) (size : Nat) (alloc : AllocEnv) :
    (dev.withSlotMem mem).rxGoodFrame m size alloc =
      ((dev.rxGoodFrame m size alloc).1.withSlotMem mem, (dev.rxGoodFrame m size alloc).2) := by
  unfold rxGoodFrame
  split
  · rw [rxControl_withSlotMem]
  · split
    · have hlookup : ∀ id, (dev.withSlotMem mem).streamLookup id = dev.streamLookup id :=
        fun _ => rfl
      simp only [rxStreamFrame, hlookup]
      split
      · rfl
      · split
        · rfl
        · split <;> rfl
    · rfl

theorem rxGoodFrame_stale {bs : List UInt8} (m m' : Mem) (alloc : AllocEnv)
    (h : ∀ dst, .accept dst ∈ (dev.rxGoodFrame (m.dmaWrite bs) (rxSize bs) alloc).2 →
      streamHdrSize + (frameHdr bs).payloadLen.toNat ≤ bs.length) :
    dev.rxGoodFrame (m.dmaWrite bs) (rxSize bs) alloc =
      dev.rxGoodFrame (m'.dmaWrite bs) (rxSize bs) alloc := by
  have hctl := control_congr m m' bs
  by_cases h1 : dmaHdrSize ≤ rxSize bs ∧ (m.dmaWrite bs).le32 0 = dmaMagic
  · have htype : (m.dmaWrite bs).le32 4 = (m'.dmaWrite bs).le32 4 :=
      le32_dmaWrite_congr m m' bs
        (Nat.le_trans (Nat.le_trans (by decide) h1.1) (rxSize_le bs))
    simp only [rxGoodFrame, if_pos h1, if_pos (hctl.mp h1), htype]
  by_cases h2 : streamHdrSize ≤ rxSize bs
  · have hlen := h2.trans (rxSize_le bs)
    have hh : (m.dmaWrite bs).streamHdr = frameHdr bs := Mem.streamHdr_dmaWrite_congr _ _ _ hlen
    have hh' : (m'.dmaWrite bs).streamHdr = frameHdr bs := Mem.streamHdr_dmaWrite_congr _ _ _ hlen
    simp only [rxGoodFrame, if_neg h1, if_neg (mt hctl.mpr h1), if_pos h2, rxStreamFrame, hh,
      hh'] at h ⊢
    split
    · rfl
    · rename_i hc
      rw [if_neg hc] at h
      cases hl : dev.streamLookup (frameHdr bs).dstId with
      | none => rfl
      | some s =>
        rw [hl] at h
        dsimp only at h ⊢
        by_cases h0 : (frameHdr bs).payloadLen = 0
        · rw [if_pos h0, if_pos h0]
        · rw [if_neg h0] at h
          -- the payload is the only read past the header, and it lies inside the received bytes
          have hle := h (frameHdr bs).dstId (by simp)
          rw [Mem.read_dmaWrite _ _ hle, Mem.read_dmaWrite _ _ hle]
  · simp only [rxGoodFrame, if_neg h1, if_neg (mt hctl.mpr h1), if_neg h2]

theorem rxPoolFrame_flagged_withSlotMem (idx : Nat) {c : Completion} (env : RxEnv)
    (h : c.flagged = true) :
    (dev.withSlotMem mem).rxPoolFrame idx c env =
      ((dev.rxPoolFrame idx c env).1.withSlotMem mem, (dev.rxPoolFrame idx c env).2) := by
  unfold rxPoolFrame
  split
  · rfl
  · split
    · rfl
    · split
      · rfl
      · simp_all [Completion.flagged]

theorem step_withSlotMem {e : RxEvent} (h : ∀ c env, e = .complete c env → ¬ Overruns dev c) :
    ∃ mem', (dev.withSlotMem mem).step e = ((dev.step e).1.withSlotMem mem', (dev.step e).2) := by
  cases e with
  | recv id bufLen copyFault =>
    have hst : (dev.withSlotMem mem).streams id = dev.streams id := rfl
    simp only [step, hst]
    split <;> exact ⟨mem, rfl⟩
  | complete c env =>
    cases hf : c.frame with
    | legacy idx =>
      have hd : (dev.withSlotMem mem).dmaReceive c = (dev.dmaReceive c).withSlotMem mem := by
        simp only [dmaReceive, hf]
        rfl
      simp only [step, rxCallback, hf, hd]
      exact ⟨mem, (dev.dmaReceive c).rxLegacyFrame_withSlotMem mem idx c⟩
    | slot idx =>
      -- the frame overwrites the start of its slot; the rest may still differ
      obtain ⟨mem', hd, hm⟩ : ∃ mem',
          (dev.withSlotMem mem).dmaReceive c = (dev.dmaReceive c).withSlotMem mem' ∧
            mem' idx = (mem idx).dmaWrite c.received := by
        refine ⟨Function.update mem idx ((mem idx).dmaWrite c.received), ?_, by simp⟩
        simp only [dmaReceive, hf]
        rfl
      refine ⟨mem', ?_⟩
      by_cases hfl : c.flagged
      · simp only [step, rxCallback, hf, hd]
        exact (dev.dmaReceive c).rxPoolFrame_flagged_withSlotMem mem' idx env hfl
      · rw [Bool.not_eq_true] at hfl
        have hacc : ∀ dst, .accept dst ∈ ((dev.dmaReceive c).countGood.rxGoodFrame
            ((dev.slotMem idx).dmaWrite c.received) (rxSize c.received) env.alloc).2 →
              streamHdrSize + (frameHdr c.received).payloadLen.toNat ≤ c.received.length := by
          intro dst hm'
          have hr : ReachesStream dev c dst := by
            rw [← dev.accept_mem_iff c env dst]
            simp only [step, rxCallback, hf]
            rwa [rxPoolFrame_unflagged _ idx env hfl, dmaReceive_slotMem dev hf]
          by_contra hlt
          exact h c env rfl ⟨⟨hr.hdr.trans (rxSize_le _), Nat.lt_of_not_le hlt⟩, dst, hr⟩
        have hstale := (dev.dmaReceive c).countGood.rxGoodFrame_stale (dev.slotMem idx) (mem idx)
          env.alloc hacc
        have hgood := (dev.dmaReceive c).countGood.rxGoodFrame_withSlotMem mem'
          ((mem idx).dmaWrite c.received) (rxSize c.received) env.alloc
        simp only [step, rxCallback, hf, hd]
        rw [rxPoolFrame_unflagged _ idx env hfl, rxPoolFrame_unflagged _ idx env hfl,
          dmaReceive_slotMem dev hf]
        have hcount : ((dev.dmaReceive c).withSlotMem mem').countGood =
            (dev.dmaReceive c).countGood.withSlotMem mem' := rfl
        have hslot : ((dev.dmaReceive c).withSlotMem mem').slotMem idx =
            (mem idx).dmaWrite c.received := hm
        simp only [hcount, hslot, hgood, hstale]
        rw [← rxRepost_withSlotMem]
        rfl

end SlotMem

theorem run_withSlotMem (dev : RxDevice) (es : List RxEvent)
    (h : ∀ pre c env post, es = pre ++ .complete c env :: post → ¬ Overruns (dev.run pre).1 c)
    (mem : Nat → Mem) :
    ∃ mem', (dev.withSlotMem mem).run es = ((dev.run es).1.withSlotMem mem', (dev.run es).2) := by
  induction es generalizing dev mem with
  | nil => exact ⟨mem, rfl⟩
  | cons e es ih =>
    obtain ⟨mem', hstep⟩ := dev.step_withSlotMem mem (e := e)
      (fun c env he => h [] c env es (by rw [he]; rfl))
    obtain ⟨mem'', hrun⟩ := ih (dev.step e).1
      (fun pre c env post hes => h (e :: pre) c env post (by rw [hes]; rfl)) mem'
    refine ⟨mem'', ?_⟩
    simp only [run, hstep, hrun]

end RxDevice

/-- Received bytes bound the payload exactly when no frame that announces more than arrived
reaches an open stream; and in a run of such frames no stream and no queued message depends on
bytes that earlier frames left in the slots. -/
theorem rx_bounds_iff (dev : RxDevice) :
    (∀ c env, InBounds dev c env ↔ ¬ Overruns dev c) ∧
      ∀ evs : List RxEvent,
        (∀ pre c env post, evs = pre ++ .complete c env :: post →
          ¬ Overruns (dev.run pre).1 c) →
        (∀ pre c env post, evs = pre ++ .complete c env :: post →
            InBounds (dev.run pre).1 c env) ∧
          ∀ mem, ((dev.withSlotMem mem).run evs).1.streams = (dev.run evs).1.streams ∧
            ((dev.withSlotMem mem).run evs).2 = (dev.run evs).2 := by
  refine ⟨dev.inBounds_iff, fun evs h => ⟨fun pre c env post hes => ?_, fun mem => ?_⟩⟩
  · exact ((dev.run pre).1.inBounds_iff c env).mpr (h pre c env post hes)
  · obtain ⟨mem', hrun⟩ := dev.run_withSlotMem evs h mem
    rw [hrun]
    exact ⟨rfl, rfl⟩

def staleEvents : List RxEvent :=
  [.complete (.good 0 [20, 9, 3, 0, 4, 0, 0, 0, 0xAA, 0xBB, 0xCC, 0xDD]) .ok,
    .complete (.good 0 [21, 1, 3, 0, 4, 0, 0, 0]) .ok]

theorem stale_bytes_queued :
    ((RxDevice.opened 1).run staleEvents).2 =
        [.accept 1, .append 1 4, .queued 1 ⟨21, 2, [0xAA, 0xBB, 0xCC, 0xDD]⟩] ∧
      ((RxDevice.opened 1).run staleEvents).1.rxErrLen = 0 ∧
      ¬ InBounds ((RxDevice.opened 1).run (staleEvents.take 1)).1
        (.good 0 [21, 1, 3, 0, 4, 0, 0, 0]) .ok := by
  refine ⟨by decide, by decide, fun h => ?_⟩
  have := h.copies 1 4 (by decide)
  revert this
  decide

end OdinLink
