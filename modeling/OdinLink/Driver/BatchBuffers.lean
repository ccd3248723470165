import OdinLink.Driver.TxMachine

/-!
# The batch buffers

A buffer that was taken is with its sender, with the ring and the callbacks, or on its way back. Its
counter is the number of its frames that are still to be submitted or to call back; whoever brings
it to zero has to put the buffer back.
-/

namespace OdinLink

open Threads History

theorem nframes_pos (rest : Nat) : 0 < nframes rest := by
  unfold nframes batchFrames
  omega

def RingFrame.inBuf (b : Nat) : RingFrame → Bool
  | .slot _ => false
  | .batch c _ => c == b

def TxMem.pendingBuf (m : TxMem) (b : Nat) : Int := (m.bufs b).framesPending

def TxMem.onRingBuf (m : TxMem) (b : Nat) : Int := m.ring.countP (·.inBuf b)

/-- The frames of buffer `b` that a position stands for: its callback's own, or those its sender
has yet to submit. -/
def TxPos.bufShare (b : Nat) : TxPos → Int
  | .batchCallback c _ | .batchFail c | .batchDec c _ => if c = b then 1 else 0
  | .addPending rest c => if c = b then nframes rest else 0
  | .submitBatch rest c i => if c = b then (nframes rest - i : Nat) else 0
  | .subBatch c unsub _ => if c = b then unsub else 0
  | _ => 0

def TxPos.bufCallback (b : Nat) : TxPos → Int
  | .batchCallback c _ | .batchFail c | .batchDec c _ => if c = b then 1 else 0
  | _ => 0

def TxPos.bufKeeps (b : Nat) : TxPos → Int
  | .fill _ c _ | .stage _ c | .putBack c | .batchPut c _ => if c = b then 1 else 0
  | .subMsg c _ i => if c = b ∧ i = 0 then 1 else 0
  | _ => 0

def TxPc.lift (w : TxPos → Int) : TxPc → Int
  | .on _ pos => w pos
  | _ => 0

@[simp] theorem TxPc.lift_on (w : TxPos → Int) (k : Nat) (pos : TxPos) :
    (TxPc.on k pos).lift w = w pos := rfl

@[simp] theorem TxPc.lift_returned (w : TxPos → Int) : TxPc.returned.lift w = 0 := rfl

def TxPos.BufKnown (m : TxMem) (k : Nat) : TxPos → Prop
  | .addPending rest b => m.pendingBuf b = nframes rest ∧ (m.bufs b).txMsg = some k
  | .submitBatch rest b i =>
    (i = 0 → m.pendingBuf b = nframes rest) ∧ (i < nframes rest → (m.bufs b).txMsg = some k)
  | .subBatch b unsub i => 0 < unsub ∧ (i = 0 → m.pendingBuf b = unsub)
  | .batchCallback b _ => (m.bufs b).txMsg = some k
  | _ => True

def TxPc.BufKnown (m : TxMem) : TxPc → Prop
  | .on k pos => pos.BufKnown m k
  | _ => True

def busy (n : Int) : Int := if 0 < n then 1 else 0

structure BufStep (m : TxMem) (pos : TxPos) (m' : TxMem) (p' : TxPc) (es : List TxEvent)
    (b : Nat) : Prop where
  frames : m'.pendingBuf b - m'.onRingBuf b + pos.bufShare b =
    m.pendingBuf b - m.onRingBuf b + p'.lift (TxPos.bufShare b)
  holder : (m.freeList.count b : Int) + busy (m.pendingBuf b) + pos.bufKeeps b =
    m'.freeList.count b + busy (m'.pendingBuf b) + p'.lift (TxPos.bufKeeps b) +
      es.count (.buf b .lost)
  known : p'.BufKnown m'
  same : m'.pendingBuf b = m.pendingBuf b ∨ 0 < pos.bufShare b ∨ 0 < pos.bufKeeps b
  named : (m'.bufs b).txMsg = (m.bufs b).txMsg ∨ 0 < pos.bufKeeps b
  ring : ∀ j, .batch b j ∈ m'.ring → .batch b j ∈ m.ring ∨ (m'.bufs b).txMsg = some j
  flying : (es.count (.buf b .submitted) : Int) - es.count (.buf b .called) - m'.onRingBuf b +
    pos.bufCallback b = p'.lift (TxPos.bufCallback b) - m.onRingBuf b
  listed : (m'.freeList.count b : Int) + es.count (.buf b .took) =
    m.freeList.count b + es.count (.buf b .put)
  length : m'.freeCount - m'.freeList.length = m.freeCount - m.freeList.length
  back : .buf b .put ∈ es → pos.bufKeeps b = 1 ∧ es = [.buf b .put]
  lost : .buf b .lost ∈ es → ∃ unsub i, pos = .subBatch b unsub i ∧ i ≠ 0 ∧ m.pendingBuf b = unsub

section Step
variable {m m' : TxMem} {k : Nat} {g : TxMsg} {ok : Bool} {pos : TxPos} {p' : TxPc}
  {es : List TxEvent} {b : Nat}

theorem BufStep.neutral (hshare : p'.lift (TxPos.bufShare b) = pos.bufShare b := by rfl)
    (hcallback : p'.lift (TxPos.bufCallback b) = pos.bufCallback b := by rfl)
    (hkeeps : p'.lift (TxPos.bufKeeps b) = pos.bufKeeps b := by rfl)
    (hknown : p'.BufKnown m' := by exact trivial)
    (hring : m'.ring = m.ring ∨ ∃ j, m'.ring = m.ring ++ [.slot j] := by exact .inl rfl)
    (hbufs : m'.bufs = m.bufs := by rfl) (hfree : m'.freeList = m.freeList := by rfl)
    (hcount : m'.freeCount = m.freeCount := by rfl)
    (hes : ∀ e, es.count (.buf b e) = 0 := by exact fun _ => rfl) :
    BufStep m pos m' p' es b := by
  have hpend : m'.pendingBuf b = m.pendingBuf b := by rw [TxMem.pendingBuf, hbufs]; rfl
  have hnone : ∀ e, .buf b e ∉ es := fun e hmem =>
    absurd (hes e) (List.count_pos_iff.mpr hmem).ne'
  have honRing : m'.onRingBuf b = m.onRingBuf b := by
    rcases hring with hring | ⟨j, hring⟩ <;> simp [TxMem.onRingBuf, hring, RingFrame.inBuf]
  refine ⟨?_, ?_, hknown, .inl hpend, .inl (by rw [hbufs]), fun j hj => .inl ?_, ?_, ?_, ?_,
    fun hmem => absurd hmem (hnone _), fun hmem => absurd hmem (hnone _)⟩
  · rw [hpend, honRing, hshare]
  · rw [hpend, hfree, hkeeps, hes]
    omega
  · rcases hring with hring | ⟨j, hring⟩ <;> simpa [hring] using hj
  · rw [honRing, hes, hes, hcallback]
    omega
  · rw [hfree, hes, hes]
  · rw [hfree, hcount]

theorem afterComplete_lift (w : TxPos → Int) (own : Bool) (hw : w .ownPut = 0) :
    (afterComplete k own).lift w = 0 := by
  cases own
  · rfl
  · exact hw

theorem afterBatch_lift (w : TxPos → Int) (live : Bool) (hw : w .dec = 0) :
    (afterBatch k live).lift w = 0 := by
  cases live
  · rfl
  · exact hw

theorem afterComplete_bufKnown (m : TxMem) (own : Bool) : (afterComplete k own).BufKnown m := by
  cases own <;> trivial

theorem afterBatch_bufKnown (m : TxMem) (live : Bool) : (afterBatch k live).BufKnown m := by
  cases live <;> trivial

theorem completeOp_buffers (own : Bool) (stage : CompleteStage)
    (ho : completeOp m k g own stage = (m', p', es)) :
    BufStep m (.complete own stage) m' p' es b := by
  have hshare := afterComplete_lift (k := k) (TxPos.bufShare b) own rfl
  have hcallback := afterComplete_lift (k := k) (TxPos.bufCallback b) own rfl
  have hkeeps := afterComplete_lift (k := k) (TxPos.bufKeeps b) own rfl
  cases stage with
  | loadDone | readPending | xchg =>
    cases ho
    split
    · exact .neutral
    · exact .neutral hshare hcallback hkeeps (afterComplete_bufKnown _ own)
  | put =>
    rw [completeOp, msgPut] at ho
    split at ho <;> cases ho
    · exact .neutral
    · exact .neutral hshare hcallback hkeeps (afterComplete_bufKnown _ own)

theorem releaseOp_buffers (own : Bool) (stage : ReleaseStage)
    (ho : releaseOp m k g own stage = (m', p', es)) :
    BufStep m (.release own stage) m' p' es b := by
  cases stage with
  | readFailed =>
    cases ho
    cases g.failed <;> exact .neutral
  | decInFlight | putStream =>
    cases ho
    exact .neutral
  | free =>
    cases ho
    exact .neutral (afterComplete_lift _ own rfl) (afterComplete_lift _ own rfl)
      (afterComplete_lift _ own rfl) (afterComplete_bufKnown _ own)

theorem pendingBuf_setBuf (m : TxMem) (c b : Nat) (r : BatchBuf) :
    (m.setBuf c r).pendingBuf b = if b = c then r.framesPending else m.pendingBuf b := by
  unfold TxMem.setBuf TxMem.pendingBuf
  split <;> simp_all

theorem pendingBuf_put (m : TxMem) (c b : Nat) :
    (m.batchPoolPut c).pendingBuf b = m.pendingBuf b := by
  show (m.setBuf c _).pendingBuf b = _
  rw [pendingBuf_setBuf]
  split
  · rename_i heq
    rw [heq]
    rfl
  · rfl

theorem BufStep.put {c : Nat} (hshare : pos.bufShare b = 0) (hcallback : pos.bufCallback b = 0)
    (hkeeps : pos.bufKeeps b = if c = b then 1 else 0)
    (hshare' : p'.lift (TxPos.bufShare b) = 0) (hcallback' : p'.lift (TxPos.bufCallback b) = 0)
    (hkeeps' : p'.lift (TxPos.bufKeeps b) = 0) (hknown : p'.BufKnown (m.batchPoolPut c)) :
    BufStep m pos (m.batchPoolPut c) p' [.buf c .put] b := by
  have hfree : ((m.batchPoolPut c).freeList.count b : Int) =
      m.freeList.count b + if c = b then 1 else 0 := by
    simp only [TxMem.batchPoolPut, List.count_append, List.count_singleton, beq_iff_eq]
    split <;> simp
  have hring : (m.batchPoolPut c).onRingBuf b = m.onRingBuf b := rfl
  refine ⟨?_, ?_, hknown, .inl (pendingBuf_put m c b), ?_, fun j hj => .inl hj, ?_, ?_, ?_, ?_,
    by simp⟩
  · rw [pendingBuf_put, hshare, hshare', hring]
  · rw [pendingBuf_put, hfree, hkeeps, hkeeps']
    simp only [List.count_cons, List.count_nil, beq_iff_eq, TxEvent.buf.injEq, reduceCtorEq,
      and_false, if_false]
    omega
  · by_cases hcb : c = b
    · exact .inr (by rw [hkeeps, if_pos hcb]; omega)
    · exact .inl (by simp [TxMem.batchPoolPut, TxMem.setBuf, Ne.symm hcb])
  · rw [hcallback, hcallback', hring]
    simp only [List.count_cons, List.count_nil, beq_iff_eq, TxEvent.buf.injEq, reduceCtorEq,
      and_false, if_false]
    omega
  · rw [hfree]
    simp only [List.count_cons, List.count_nil, beq_iff_eq, TxEvent.buf.injEq, reduceCtorEq,
      and_false, and_true, if_false]
    split <;> simp
  · simp only [TxMem.batchPoolPut, List.length_append, List.length_singleton]
    omega
  · intro hmem
    obtain rfl : b = c := by simpa using hmem
    exact ⟨by rw [hkeeps, if_pos rfl], rfl⟩

theorem busy_of_pos {n : Int} (hn : 0 < n) : busy n = 1 := if_pos hn

theorem busy_of_nonpos {n : Int} (hn : n ≤ 0) : busy n = 0 := if_neg (by omega)

theorem BufStep.setBuf {c : Nat} {r : BatchBuf}
    (hother : c ≠ b → pos.bufShare b = 0 ∧ pos.bufKeeps b = 0 ∧
      p'.lift (TxPos.bufShare b) = 0 ∧ p'.lift (TxPos.bufKeeps b) = 0 ∧
      es.count (.buf b .lost) = 0)
    (hchange : c = b → 0 < pos.bufShare b ∨ 0 < pos.bufKeeps b)
    (hown : c = b →
      r.framesPending + pos.bufShare b = m.pendingBuf b + p'.lift (TxPos.bufShare b) ∧
      busy (m.pendingBuf b) + pos.bufKeeps b =
        busy r.framesPending + p'.lift (TxPos.bufKeeps b) + es.count (.buf b .lost))
    (hnamed : c = b → r.txMsg = (m.bufs b).txMsg ∨ 0 < pos.bufKeeps b)
    (hes : es.count (.buf b .took) = 0 ∧ es.count (.buf b .put) = 0 ∧
      es.count (.buf b .submitted) = 0)
    (hcallback : pos.bufCallback b = p'.lift (TxPos.bufCallback b) + es.count (.buf b .called))
    (hlost : .buf b .lost ∈ es →
      ∃ unsub i, pos = .subBatch b unsub i ∧ i ≠ 0 ∧ m.pendingBuf b = unsub)
    (hknown : p'.BufKnown (m.setBuf c r)) : BufStep m pos (m.setBuf c r) p' es b := by
  have hring : (m.setBuf c r).onRingBuf b = m.onRingBuf b := rfl
  have hfree : (m.setBuf c r).freeList = m.freeList := rfl
  obtain ⟨htook, hput, hsub⟩ := hes
  have hpend : (m.setBuf c r).pendingBuf b + pos.bufShare b =
        m.pendingBuf b + p'.lift (TxPos.bufShare b) ∧
      busy (m.pendingBuf b) + pos.bufKeeps b =
        busy ((m.setBuf c r).pendingBuf b) + p'.lift (TxPos.bufKeeps b) +
          es.count (.buf b .lost) := by
    rw [pendingBuf_setBuf]
    by_cases hcb : c = b
    · rw [if_pos hcb.symm]
      exact hown hcb
    · obtain ⟨hs, hk, hs', hk', hl⟩ := hother hcb
      rw [if_neg (Ne.symm hcb), hs, hk, hs', hk', hl]
      simp
  refine ⟨?_, ?_, hknown, ?_, ?_, fun j hj => .inl hj, ?_, ?_, rfl, ?_, hlost⟩
  · rw [hring]
    omega
  · rw [hfree]
    omega
  · by_cases hcb : c = b
    · exact .inr (hchange hcb)
    · exact .inl ((pendingBuf_setBuf m c b r).trans (if_neg (Ne.symm hcb)))
  · by_cases hcb : c = b
    · simpa [TxMem.setBuf, hcb] using hnamed hcb
    · exact .inl (by simp [TxMem.setBuf, Ne.symm hcb])
  · rw [hring]
    omega
  · rw [hfree, htook, hput]
  · exact fun hmem => absurd hput (List.count_pos_iff.mpr hmem).ne'

theorem batchDec_buffers {c : Nat} {live : Bool}
    (hle : (TxPos.batchDec c live).bufShare b ≤ m.pendingBuf b) :
    BufStep m (.batchDec c live)
      (m.setBuf c {m.bufs c with framesPending := (m.bufs c).framesPending - 1})
      (if (m.bufs c).framesPending = 1 then .on k (.batchPut c live) else afterBatch k live)
      [.buf c .called] b := by
  have hshare := afterBatch_lift (k := k) (TxPos.bufShare b) live rfl
  have hkeeps := afterBatch_lift (k := k) (TxPos.bufKeeps b) live rfl
  apply BufStep.setBuf
  · intro hcb
    split
    · simp [TxPos.bufShare, TxPos.bufKeeps, hcb]
    · simp [TxPos.bufShare, TxPos.bufKeeps, hcb, hshare, hkeeps]
  · intro hcb
    simp [TxPos.bufShare, hcb]
  · rintro rfl
    have hpend : m.pendingBuf c = (m.bufs c).framesPending := rfl
    simp only [TxPos.bufShare, if_true] at hle
    simp only [TxPos.bufShare, TxPos.bufKeeps, if_true]
    by_cases hone : (m.bufs c).framesPending = 1
    · simp [hone, hpend, TxPos.bufShare, TxPos.bufKeeps, busy]
    · rw [if_neg hone, hshare, hkeeps, busy_of_pos (by omega), busy_of_pos (by omega)]
      simp
      omega
  · rintro rfl
    exact .inl rfl
  · simp
  · have hcallback := afterBatch_lift (k := k) (TxPos.bufCallback b) live rfl
    split <;> simp only [hcallback, TxPc.lift_on, TxPos.bufCallback, List.count_singleton,
      beq_iff_eq, TxEvent.buf.injEq, and_true] <;> split <;> rfl
  · simp
  · split
    · trivial
    · exact afterBatch_bufKnown _ live

theorem subBatch_buffers {c unsub i : Nat} (hknown : (TxPos.subBatch c unsub i).BufKnown m k)
    (hle : (TxPos.subBatch c unsub i).bufShare b ≤ m.pendingBuf b) :
    BufStep m (.subBatch c unsub i)
      (m.setBuf c {m.bufs c with framesPending := (m.bufs c).framesPending - unsub})
      (.on k (.subMsg c unsub i))
      (if i ≠ 0 ∧ (m.bufs c).framesPending = unsub then [.buf c .lost] else []) b := by
  obtain ⟨hpos, hfirst⟩ := hknown
  apply BufStep.setBuf
  · intro hcb
    split <;> simp [TxPos.bufShare, TxPos.bufKeeps, hcb]
  · intro hcb
    simp [TxPos.bufShare, hcb, hpos]
  · rintro rfl
    have hpend : m.pendingBuf c = (m.bufs c).framesPending := rfl
    simp only [TxPos.bufShare, if_true] at hle
    simp only [TxPos.bufShare, TxPos.bufKeeps, if_true, TxPc.lift_on, true_and]
    refine ⟨by omega, ?_⟩
    rw [busy_of_pos (by omega)]
    by_cases hi : i = 0
    · have hall := hfirst hi
      rw [busy_of_nonpos (by omega), if_pos hi, if_neg (fun hl => hl.1 hi)]
      rfl
    · by_cases hlast : (m.bufs c).framesPending = unsub
      · rw [busy_of_nonpos (by omega), if_neg hi, if_pos ⟨hi, hlast⟩]
        simp
      · rw [busy_of_pos (by omega), if_neg hi, if_neg (fun hl => hlast hl.2)]
        rfl
  · rintro rfl
    exact .inl rfl
  · split <;> simp
  · split <;> simp [TxPos.bufCallback]
  · intro hmem
    split at hmem
    · rename_i hl
      obtain rfl : b = c := by simpa using hmem
      exact ⟨unsub, i, rfl, hl⟩
    · contradiction
  · trivial

theorem BufStep.push {c : Nat} (hown : (m.bufs c).txMsg = some k)
    (hknown : p'.BufKnown (m.push (.batch c k)))
    (hkeeps : p'.lift (TxPos.bufKeeps b) = pos.bufKeeps b)
    (hcallback : p'.lift (TxPos.bufCallback b) = pos.bufCallback b)
    (hshare : p'.lift (TxPos.bufShare b) + (if c = b then 1 else 0) = pos.bufShare b) :
    BufStep m pos (m.push (.batch c k)) p' [.msg k .accepted, .buf c .submitted] b := by
  have hring : (m.push (.batch c k)).onRingBuf b = m.onRingBuf b + if c = b then 1 else 0 := by
    simp only [TxMem.onRingBuf, TxMem.push, List.countP_append, List.countP_singleton,
      RingFrame.inBuf, beq_iff_eq]
    split <;> simp
  have hpend : (m.push (.batch c k)).pendingBuf b = m.pendingBuf b := rfl
  refine ⟨?_, ?_, hknown, .inl rfl, .inl rfl, fun j hj => ?_, ?_, by simp [TxMem.push], rfl,
    by simp, by simp⟩
  · rw [hring, hpend]
    omega
  · rw [hkeeps]
    simp [TxMem.push, TxMem.pendingBuf]
  · rcases List.mem_append.mp hj with hj | hj
    · exact .inl hj
    · rw [List.mem_singleton, RingFrame.batch.injEq] at hj
      obtain ⟨rfl, rfl⟩ := hj
      exact .inr hown
  · rw [hring, hcallback]
    simp only [List.count_cons, List.count_nil, beq_iff_eq, TxEvent.buf.injEq, reduceCtorEq,
      and_true, and_false, if_false]
    split <;> simp <;> omega

theorem stage_buffers {rest c : Nat}
    (hkeep : 0 < (TxPos.stage rest c).bufKeeps b → m.pendingBuf b = 0) :
    BufStep m (.stage rest c) (m.setBuf c ⟨some k, nframes rest⟩) (.on k (.addPending rest c)) []
      b := by
  apply BufStep.setBuf
  · intro hcb
    simp [TxPos.bufShare, TxPos.bufKeeps, hcb]
  · intro hcb
    simp [TxPos.bufKeeps, hcb]
  · rintro rfl
    have hpos := nframes_pos rest
    have hzero : m.pendingBuf c = 0 := hkeep (by simp [TxPos.bufKeeps])
    rw [busy_of_nonpos (by omega), busy_of_pos (by simpa using hpos), hzero]
    simp [TxPos.bufShare, TxPos.bufKeeps]
  · intro hcb
    exact .inr (by simp [TxPos.bufKeeps, hcb])
  · exact ⟨rfl, rfl, rfl⟩
  · rfl
  · simp
  · simp [TxPc.BufKnown, TxPos.BufKnown, TxMem.pendingBuf, TxMem.setBuf]

theorem submitBatch_buffers {rest c i : Nat} (hknown : (TxPos.submitBatch rest c i).BufKnown m k)
    (ho : onOp m k g ok (.submitBatch rest c i) = some (m', p', es)) :
    BufStep m (.submitBatch rest c i) m' p' es b := by
  rw [onOp] at ho
  split at ho
  · rename_i hi
    split at ho <;> cases ho
    · refine .push (hknown.2 hi) ⟨fun hzero => absurd hzero (by omega), fun _ => hknown.2 hi⟩ rfl rfl ?_
      simp only [TxPc.lift_on, TxPos.bufShare]
      split <;> omega
    · refine .neutral rfl rfl rfl ⟨by omega, fun hzero => ?_⟩
      rw [hknown.1 hzero, hzero, Nat.sub_zero]
  · rename_i hi
    cases ho
    refine .neutral ?_
    have hnone : nframes rest - i = 0 := by omega
    simp [TxPos.bufShare, hnone]

theorem batchGet_buffers {rest : Nat} (ho : onOp m k g ok (.batchGet rest) = some (m', p', es)) :
    BufStep m (.batchGet rest) m' p' es b := by
  rw [onOp] at ho
  split at ho
  · cases ho
    exact .neutral
  · rename_i c free hfree
    cases ho
    have hcount : (m.freeList.count b : Int) = free.count b + if c = b then 1 else 0 := by
      rw [hfree, List.count_cons]
      simp only [beq_iff_eq]
      split <;> simp
    refine ⟨?_, ?_, trivial, .inl rfl, .inl rfl, fun j hj => .inl hj, ?_, ?_, ?_, by simp, by simp⟩
    · simp [TxMem.pendingBuf, TxMem.onRingBuf, TxPos.bufShare]
    · rw [hcount]
      simp [TxPos.bufKeeps, TxMem.pendingBuf]
      omega
    · simp [TxPos.bufCallback, TxMem.onRingBuf]
    · rw [hcount]
      simp only [List.count_cons, List.count_nil, beq_iff_eq, TxEvent.buf.injEq, reduceCtorEq,
        and_true, and_false, if_false]
      split <;> simp
    · rw [hfree]
      simp only [List.length_cons]
      omega

theorem onOp_buffers (hknown : pos.BufKnown m k) (hle : pos.bufShare b ≤ m.pendingBuf b)
    (hkeep : 0 < pos.bufKeeps b → m.pendingBuf b = 0)
    (ho : onOp m k g ok pos = some (m', p', es)) : BufStep m pos m' p' es b := by
  cases pos with
  | addPending rest c =>
    cases ho
    exact .neutral rfl rfl rfl ⟨fun _ => hknown.1, fun _ => hknown.2⟩
  | hold mode left | arm rest | disarm | fail | drain | setDone | batchFail c =>
    cases ho
    exact .neutral
  | get rest | copy rest =>
    cases ho
    cases ok <;> exact .neutral
  | count mode left =>
    cases ho
    cases mode <;> exact .neutral
  | wait left =>
    cases left with
    | zero =>
      cases ho
      exact .neutral
    | succ rest =>
      cases ho
      cases ok <;> exact .neutral
  | submit rest =>
    cases ok <;> cases ho
    · exact .neutral
    · exact .neutral rfl rfl rfl trivial (.inr ⟨k, rfl⟩)
  | batchWait left =>
    cases left with
    | zero =>
      cases ho
      exact .neutral
    | succ rest =>
      rw [onOp] at ho
      split at ho
      · cases ho
        exact .neutral
      · split at ho <;> cases ho
        exact .neutral
  | batchGet rest => exact batchGet_buffers ho
  | fill rest c i =>
    rw [onOp] at ho
    split at ho
    · cases ho
      cases ok <;> exact .neutral
    · cases ho
      exact .neutral
  | stage rest c =>
    cases ho
    exact stage_buffers hkeep
  | submitBatch rest c i => exact submitBatch_buffers hknown ho
  | subBatch c unsub i =>
    cases ho
    exact subBatch_buffers hknown hle
  | subMsg c unsub i =>
    cases ho
    split
    · rename_i hi
      exact .neutral rfl rfl (by simp [TxPos.bufKeeps, hi])
    · rename_i hi
      exact .neutral rfl rfl (by simp [TxPos.bufKeeps, hi])
  | putBack c =>
    cases ho
    exact .put rfl rfl rfl rfl rfl rfl trivial
  | callback canceled =>
    cases canceled <;> cases ho <;> exact .neutral
  | batchCallback c canceled =>
    rw [onOp] at ho
    split at ho <;> cases ho
    · exact .neutral
    · cases canceled <;> exact .neutral
  | batchDec c live =>
    cases ho
    exact batchDec_buffers hle
  | batchPut c live =>
    cases ho
    exact .put rfl rfl rfl (afterBatch_lift _ live rfl) (afterBatch_lift _ live rfl)
      (afterBatch_lift _ live rfl) (afterBatch_bufKnown _ live)
  | dec =>
    cases ho
    split <;> exact .neutral
  | complete own stage => exact completeOp_buffers own stage (Option.some.inj ho)
  | ownPut =>
    rw [onOp, Option.some.injEq, msgPut] at ho
    split at ho <;> cases ho <;> exact .neutral
  | release own stage => exact releaseOp_buffers own stage (Option.some.inj ho)

end Step

end OdinLink
