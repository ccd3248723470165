import OdinLink.Driver.RxQueue

/-!
# Every message is received once, in order

The counter the readers wait for agrees with the list up to the callbacks and readers that are
between the list and the counter.
-/

namespace OdinLink

open Threads History

@[simp] def QueueEvent.queued? : QueueEvent → Option QueuedMsg
  | .queued q => some q
  | _ => none

@[simp] def QueueEvent.dequeued? : QueueEvent → Option QueuedMsg
  | .dequeued q => some q
  | _ => none

@[simp] def QueueEvent.freed? : QueueEvent → Option QueuedMsg
  | .freed q => some q
  | _ => none

@[simp] def QueueEvent.receives (q : QueuedMsg) : QueueEvent → Bool
  | .received r _ => r == q
  | _ => false

@[simp] def QueueEvent.settles (q : QueuedMsg) : QueueEvent → Bool
  | .received r _ | .faulted r => r == q
  | _ => false

@[simp] def QueuePc.refs : QueuePc → Bool
  | .callbackGet _ | .recvGet _ | .returned => false
  | _ => true

@[simp] def QueuePc.inCallback : QueuePc → Bool
  | .callbackGet _ | .lock _ | .inc _ | .callbackPut => true
  | _ => false

@[simp] def QueuePc.receiving : QueuePc → Bool
  | .recvGet _ | .recv _ _ | .recvPut => true
  | _ => false

@[simp] def QueuePc.holds (q : QueuedMsg) : QueuePc → Bool
  | .recv _ (.dec r) | .recv _ (.copy r) => r == q
  | _ => false

@[simp] def QueuePc.enqueuing : QueuePc → Bool
  | .inc _ => true
  | _ => false

@[simp] def QueuePc.counts (q : QueuedMsg) : QueuePc → Bool
  | .inc r => r == q
  | _ => false

@[simp] def QueuePc.dequeuing : QueuePc → Bool
  | .recv _ (.dec _) => true
  | _ => false

inductive QueueAccount where
  | refs
  | callback
  | complete
  | taken (q : QueuedMsg)
  | counted (q : QueuedMsg)

def QueueAccount.value : QueueAccount → QueueMem → List QueueEvent → Int
  | .refs, m, _ => m.refcount - one !m.closing
  | .callback, m, _ => one m.callback
  | .complete, m, _ => m.rxComplete - m.rxQueue.length
  | .taken q, _, h => (h.count (.dequeued q) : Int) - h.countP (·.settles q)
  | .counted q, _, h => (h.count (.queued q) : Int) - h.count (.counted q)

def QueueAccount.part : QueueAccount → QueuePc → Int
  | .refs, p => one p.refs
  | .callback, p => one p.inCallback
  | .complete, p => one p.dequeuing - one p.enqueuing
  | .taken q, p => one (p.holds q)
  | .counted q, p => one (p.counts q)

def QueuePc.Knows (m : QueueMem) : QueuePc → Prop
  | .inc q => q.seq + 1 = m.nextSeq
  | .recv _ .testComplete => m.dying = true
  | _ => True

structure QueueRecord (m : QueueMem) (h : List QueueEvent) : Prop where
  fifo : h.filterMap (·.queued?) = h.filterMap (·.dequeued?) ++ m.rxQueue
  seqs : (h.filterMap (·.queued?)).map QueuedMsg.seq = List.range m.nextSeq
  len : m.rxQueueLen = m.rxQueue.length
  freed : h.filterMap (·.freed?) = if m.freed then m.rxQueue else []
  live : m.freed = true ↔ m.refcount = 0
  dying : m.dying = true → .dying ∈ h

structure QueueStep (m : QueueMem) (p : QueuePc) (m' : QueueMem) (p' : QueuePc)
    (es : List QueueEvent) : Prop where
  refs : m'.refcount + one p.refs = m.refcount + one p'.refs
  closing : m'.closing = m.closing
  callback : one m'.callback + one p.inCallback = one m.callback + one p'.inCallback
  complete : m'.rxComplete - m'.rxQueue.length + (one p.dequeuing - one p.enqueuing) =
    m.rxComplete - m.rxQueue.length + (one p'.dequeuing - one p'.enqueuing)
  taken : ∀ q, (es.count (.dequeued q) : Int) + one (p.holds q) =
    es.countP (·.settles q) + one (p'.holds q)
  counted : ∀ q, (es.count (.queued q) : Int) + one (p.counts q) =
    es.count (.counted q) + one (p'.counts q)
  fifo : m.rxQueue ++ es.filterMap (·.queued?) = es.filterMap (·.dequeued?) ++ m'.rxQueue
  seqs : List.range m'.nextSeq =
    List.range m.nextSeq ++ (es.filterMap (·.queued?)).map QueuedMsg.seq
  len : m'.rxQueueLen - m'.rxQueue.length = m.rxQueueLen - m.rxQueue.length
  freed : es.filterMap (·.freed?) = [] ∧ m'.freed = m.freed ∧ (m'.refcount = 0 ↔ m.refcount = 0) ∧
      (m.refcount = 0 → m'.rxQueue = m.rxQueue) ∨
    es.filterMap (·.freed?) = m'.rxQueue ∧ m'.freed = true ∧ m'.refcount = 0 ∧ m.refcount ≠ 0
  dying : m'.dying = true ↔ m.dying = true ∨ .dying ∈ es
  known : p'.Knows m'
  seq : m'.nextSeq = m.nextSeq ∨ p.inCallback = true
  again : .again ∈ es → ∃ n, p = .recv n .dequeue ∧ m.rxQueue = []
  shutdown : .shutdown ∈ es → es = [.shutdown] ∧ m.rxComplete ≤ 0 ∧ m.dying = true
  queue : m'.rxQueue = [] → m.rxQueue = [] ∨ p.receiving = true
  reading : p'.receiving = true → p.receiving = true
  found : ∀ n, p' = .recv n .testDying → m' = m ∧ p.receiving = true ∧ p.dequeuing = false ∧
    (0 < m.rxComplete ∨ m.dying = true)
  goes : ∀ n, p' = .recv n .dequeue → m' = m ∧ p.receiving = true ∧ p.dequeuing = false ∧
    (0 < m.rxComplete ∨ p = .recv n .testDying ∧ m.dying = false)

section Step
variable {m m' : QueueMem} {p p' : QueuePc} {ok : Bool} {es : List QueueEvent}

theorem count_freed (e : QueueEvent) (he : ∀ q, e ≠ .freed q) (qs : List QueuedMsg) :
    (qs.map QueueEvent.freed).count e = 0 := by
  refine List.count_eq_zero.mpr fun hmem => ?_
  obtain ⟨q, -, hq⟩ := List.mem_map.mp hmem
  exact he q hq.symm

theorem krefPut_step {b : Bool} (hpos : 0 < m.refcount)
    (hp : p = .callbackPut ∧ m.callback = true ∧ b = false ∨
      (p = .recvPut ∨ p = .dropInitial) ∧ b = m.callback) :
    QueueStep m p {(krefPut m).1 with callback := b} .returned (krefPut m).2 := by
  have hcount (q : QueuedMsg) : (m.rxQueue.map QueueEvent.freed).count (.dequeued q) = 0 ∧
      (m.rxQueue.map QueueEvent.freed).count (.queued q) = 0 ∧
      (m.rxQueue.map QueueEvent.freed).count (.counted q) = 0 :=
    ⟨count_freed _ (by simp) _, count_freed _ (by simp) _, count_freed _ (by simp) _⟩
  rw [krefPut]
  split
  · rename_i hone
    rcases hp with ⟨rfl, hcb, rfl⟩ | ⟨rfl | rfl, rfl⟩ <;> constructor <;>
      simp [QueuePc.Knows, List.filterMap_map, Function.comp_def, List.countP_map, *]
  · rename_i hone
    rcases hp with ⟨rfl, hcb, rfl⟩ | ⟨rfl | rfl, rfl⟩ <;> constructor <;>
      simp [QueuePc.Knows, *] <;> omega

theorem krefPut_callback : {(krefPut m).1 with callback := m.callback} = (krefPut m).1 := by
  rw [krefPut]
  split <;> rfl

theorem recvOp_step {n : Nat} {pc : RecvPc} (hne : m.refcount ≠ 0)
    (hknown : (QueuePc.recv n pc).Knows m) (ho : recvOp m ok n pc = (m', p', es)) :
    QueueStep m (.recv n pc) m' p' es := by
  cases pc with
  | waitComplete =>
    cases ho
    by_cases hpos : 0 < m.rxComplete <;> constructor <;> simp [QueuePc.Knows, *]
  | waitDying =>
    rw [recvOp] at ho
    split at ho
    · cases ho
      constructor <;> simp [QueuePc.Knows, *]
    · split at ho <;> cases ho <;> constructor <;> simp [QueuePc.Knows, *]
  | testDying =>
    cases ho
    cases hdying : m.dying <;> constructor <;> simp [QueuePc.Knows, *]
  | testComplete =>
    rw [recvOp] at ho
    split at ho <;> cases ho <;> constructor <;> simp [QueuePc.Knows, *]
    · exact hknown
    · omega
  | dequeue =>
    rw [recvOp] at ho
    split at ho <;> cases ho <;> constructor <;>
      simp [QueuePc.Knows, List.count_singleton, *] <;> omega
  | dec q =>
    cases ho
    constructor <;> simp [QueuePc.Knows, *]
    omega
  | copy q =>
    cases ho
    cases ok <;> constructor <;> simp [QueuePc.Knows, *]

theorem queueOp_step (hnonneg : 0 ≤ m.refcount) (hrefs : p.refs = true → 0 < m.refcount)
    (hcallback : p.inCallback = true → m.callback = true)
    (hknown : p.Knows m) (ho : queueOp m p ok = some (m', p', es)) :
    QueueStep m p m' p' es := by
  cases p with
  | callbackGet msg =>
    have hcb := hcallback rfl
    by_cases hzero : m.refcount = 0
    · rw [queueOp, krefGet, if_pos hzero] at ho
      cases ho
      constructor <;> simp [QueuePc.Knows, *]
    · rw [queueOp, krefGet, if_neg hzero] at ho
      cases ho
      constructor <;> simp [QueuePc.Knows, *]
      omega
  | lock msg =>
    have hne : m.refcount ≠ 0 := by simpa using (hrefs rfl).ne'
    rw [queueOp] at ho
    split at ho <;> cases ho <;> constructor <;>
      simp [QueuePc.Knows, List.count_singleton, List.range_succ, *]
    all_goals omega
  | inc q =>
    have hne : m.refcount ≠ 0 := by simpa using (hrefs rfl).ne'
    cases ho
    constructor <;> simp [QueuePc.Knows, List.count_singleton, *]
    omega
  | callbackPut =>
    cases ho
    exact krefPut_step (hrefs rfl) (.inl ⟨rfl, hcallback rfl, rfl⟩)
  | recvGet n =>
    by_cases hzero : m.refcount = 0
    · rw [queueOp, krefGet, if_pos hzero] at ho
      cases ho
      constructor <;> simp [QueuePc.Knows, *]
    · rw [queueOp, krefGet, if_neg hzero] at ho
      cases ho
      constructor <;> simp [QueuePc.Knows, *]
      omega
  | recv n pc => exact recvOp_step (hrefs rfl).ne' hknown (Option.some.inj ho)
  | recvPut =>
    cases ho
    have hs := krefPut_step (p := .recvPut) (hrefs rfl) (.inr ⟨.inl rfl, rfl⟩)
    rwa [krefPut_callback] at hs
  | setDying | unhash =>
    have hne : m.refcount ≠ 0 := by simpa using (hrefs rfl).ne'
    cases ho
    constructor <;> simp [QueuePc.Knows, *]
  | dropInitial =>
    cases ho
    have hs := krefPut_step (p := .dropInitial) (hrefs rfl) (.inr ⟨.inr rfl, rfl⟩)
    rwa [krefPut_callback] at hs
  | returned => cases ho

end Step

section Runs
variable {ok : Sys QueueMem QueuePc → List QueueEvent → Move QueueStart Bool → Prop}
  {s : Sys QueueMem QueuePc} {h : List QueueEvent}

def QueueBalanced (s : Sys QueueMem QueuePc) (h : List QueueEvent) : Prop :=
  ∀ a : QueueAccount, a.value s.mem h = tally a.part s.pcs

theorem QueueBalanced.refs_pos (hb : QueueBalanced s h) {p : QueuePc} (hp : p ∈ s.pcs)
    (hrefs : p.refs = true) : 0 < s.mem.refcount := by
  have hle := le_tally (w := QueueAccount.refs.part) (fun q => one_nonneg q.refs) hp
  rw [← hb .refs, QueueAccount.part, QueueAccount.value, hrefs, one, if_pos rfl] at hle
  have hinit := one_nonneg !s.mem.closing
  omega

theorem QueueBalanced.refs_nonneg (hb : QueueBalanced s h) : 0 ≤ s.mem.refcount := by
  have hle := tally_nonneg (w := QueueAccount.refs.part) (fun q => one_nonneg q.refs) s.pcs
  rw [← hb .refs, QueueAccount.value] at hle
  have hinit := one_nonneg !s.mem.closing
  omega

theorem QueueBalanced.callback_set (hb : QueueBalanced s h) {p : QueuePc} (hp : p ∈ s.pcs)
    (hin : p.inCallback = true) : s.mem.callback = true :=
  flag_of_mem (c := QueuePc.inCallback) (hb .callback) hp hin

theorem QueueBalanced.callback_alone (hb : QueueBalanced s h) {i j : Nat} {p q : QueuePc}
    (hij : i ≠ j) (hp : s.pcs[i]? = some p) (hq : s.pcs[j]? = some q)
    (hin : p.inCallback = true) : q.inCallback = false :=
  flag_alone (c := QueuePc.inCallback) (hb .callback) hij hp hq hin

theorem step_queue (hb : QueueBalanced s h) (hknown : ∀ p ∈ s.pcs, p.Knows s.mem) {i : Nat}
    {x : Bool} {p p' : QueuePc} {m : QueueMem} {es : List QueueEvent} (hp : s.pcs[i]? = some p)
    (ho : queueOp s.mem p x = some (m, p', es)) : QueueStep s.mem p m p' es :=
  have hmem := List.mem_of_getElem? hp
  queueOp_step hb.refs_nonneg (hb.refs_pos hmem) (hb.callback_set hmem) (hknown p hmem) ho

theorem QueueStep.record {m m' : QueueMem} {p p' : QueuePc} {es : List QueueEvent}
    (hs : QueueStep m p m' p' es) (hrec : QueueRecord m h) : QueueRecord m' (h ++ es) where
  fifo := by
    rw [List.filterMap_append, List.filterMap_append, hrec.fifo, List.append_assoc, hs.fifo,
      List.append_assoc]
  seqs := by rw [List.filterMap_append, List.map_append, hrec.seqs, hs.seqs]
  len := by
    have hlen := hrec.len
    have hkept := hs.len
    omega
  freed := by
    rw [List.filterMap_append, hrec.freed]
    rcases hs.freed with ⟨hnone, hsame, -, hqueue⟩ | ⟨hall, hfreed, -, hlive⟩
    · rw [hnone, hsame, List.append_nil]
      split
      · rw [hqueue (hrec.live.mp ‹_›)]
      · rfl
    · rw [if_neg (fun hf => hlive (hrec.live.mp hf)), hall, hfreed, if_pos rfl, List.nil_append]
  live := by
    rcases hs.freed with ⟨-, hsame, hzero, -⟩ | ⟨-, hfreed, hzero, -⟩
    · rw [hsame, hzero, hrec.live]
    · simp [hfreed, hzero]
  dying hdying := by
    rw [List.mem_append]
    exact (hs.dying.mp hdying).imp_left hrec.dying

theorem queueStart_step {m m' : QueueMem} {x : QueueStart} {o : Option QueuePc}
    {es : List QueueEvent} (hx : queueStart m x = some (m', o, es)) :
    es = [] ∧ m'.rxQueue = m.rxQueue ∧ m'.rxQueueLen = m.rxQueueLen ∧ m'.freed = m.freed ∧
      m'.refcount = m.refcount ∧ m'.dying = m.dying ∧ m'.nextSeq = m.nextSeq ∧
      (∀ p ∈ o, p.Knows m') ∧
      ∀ (a : QueueAccount) h, a.value m' h = a.value m h + (o.map a.part).getD 0 := by
  cases x with
  | callback msg =>
    rw [queueStart] at hx
    split at hx <;> cases hx
    rename_i hfree
    rw [Bool.and_eq_true, Bool.not_eq_true'] at hfree
    refine ⟨rfl, rfl, rfl, rfl, rfl, rfl, rfl, by simp [QueuePc.Knows], fun a h => ?_⟩
    cases a <;> simp [QueueAccount.value, QueueAccount.part, hfree.2]
  | recv n =>
    rw [queueStart] at hx
    split at hx <;> cases hx
    refine ⟨rfl, rfl, rfl, rfl, rfl, rfl, rfl, by simp [QueuePc.Knows], fun a h => ?_⟩
    cases a <;> simp [QueueAccount.value, QueueAccount.part]
  | destroy =>
    rw [queueStart] at hx
    split at hx <;> cases hx
    rename_i hopen
    refine ⟨rfl, rfl, rfl, rfl, rfl, rfl, rfl, by simp [QueuePc.Knows], fun a h => ?_⟩
    cases a <;> simp [QueueAccount.value, QueueAccount.part, hopen]

theorem queueBalanced (hr : Reaches queueProg.step ok ⟨.init, []⟩ s h) :
    QueueBalanced s h ∧ (∀ p ∈ s.pcs, p.Knows s.mem) ∧ QueueRecord s.mem h := by
  refine accounted QueueAccount.value QueueAccount.part (fun m p => p.Knows m) QueueRecord ?_ ?_
    ?_ ?_ hr
  · intro a
    cases a <;> simp [QueueAccount.value, QueueMem.init]
  · constructor <;> simp [QueueMem.init]
  · intro s h x m o es _ _ _ hrec hx
    obtain ⟨rfl, hqueue, hlen, hfreed, hrefs, hdying, hseq, hnew, hvalue⟩ := queueStart_step hx
    rw [List.append_nil]
    refine ⟨fun a => hvalue a h, hnew, fun q _ hq => ?_, ?_⟩
    · unfold QueuePc.Knows at hq ⊢
      rwa [hseq, hdying]
    · obtain ⟨hfifo, hseqs, hlen', hfreed', hlive, hdying'⟩ := hrec
      constructor <;> simp only [hqueue, hlen, hfreed, hrefs, hdying, hseq] <;> assumption
  · intro s h i x p m p' es _ _ hb hknown hrec hp ho
    have hs := step_queue hb hknown hp ho
    refine ⟨fun a => ?_, hs.known, fun j q hij hq => ?_, hs.record hrec⟩
    · have hrefs := hs.refs
      have hcallback := hs.callback
      have hcomplete := hs.complete
      cases a with
      | refs | callback | complete =>
        simp only [QueueAccount.value, QueueAccount.part, hs.closing]
        omega
      | taken q =>
        have htaken := hs.taken q
        simp only [QueueAccount.value, QueueAccount.part, List.count_append, List.countP_append]
        omega
      | counted q =>
        have hcounted := hs.counted q
        simp only [QueueAccount.value, QueueAccount.part, List.count_append]
        omega
    · have hk := hknown q (List.mem_of_getElem? hq)
      unfold QueuePc.Knows at hk ⊢
      split at hk
      · rcases hs.seq with hseq | hin
        · rw [hseq]
          exact hk
        · have hout := QueueBalanced.callback_alone hb (Ne.symm hij) hp hq hin
          simp at hout
      · exact hs.dying.mpr (.inl hk)
      · trivial

section Places
variable (hr : Reaches queueProg.step ok ⟨.init, []⟩ s h)

theorem count_filterMap_iff {f : QueueEvent → Option QueuedMsg} {c : QueuedMsg → QueueEvent}
    (hf : ∀ e q, f e = some q ↔ e = c q) (q : QueuedMsg) :
    h.count (c q) = (h.filterMap f).count q := by
  rw [List.count_filterMap, List.count]
  refine List.countP_congr fun e _ => ?_
  rw [beq_iff_eq, beq_iff_eq, hf]

theorem count_queued (q : QueuedMsg) :
    h.count (.queued q) = (h.filterMap (·.queued?)).count q :=
  count_filterMap_iff (fun e q => by cases e <;> simp) q

theorem count_dequeued (q : QueuedMsg) :
    h.count (.dequeued q) = (h.filterMap (·.dequeued?)).count q :=
  count_filterMap_iff (fun e q => by cases e <;> simp) q

theorem count_freed_events (q : QueuedMsg) :
    h.count (.freed q) = (h.filterMap (·.freed?)).count q :=
  count_filterMap_iff (fun e q => by cases e <;> simp) q

def QueueMem.waiting (m : QueueMem) : List QueuedMsg := if m.freed then [] else m.rxQueue

include hr

theorem queued_le_one (q : QueuedMsg) : h.count (.queued q) ≤ 1 := by
  obtain ⟨-, -, hrec⟩ := queueBalanced hr
  rw [count_queued]
  refine List.nodup_iff_count_le_one.mp (List.Nodup.of_map QueuedMsg.seq ?_) q
  rw [hrec.seqs]
  exact List.nodup_range

theorem queued_place (q : QueuedMsg) :
    h.count (.queued q) = s.mem.waiting.count q + s.pcs.countP (·.holds q) +
      h.countP (·.settles q) + h.count (.freed q) := by
  obtain ⟨hb, -, hrec⟩ := queueBalanced hr
  have htaken := hb (.taken q)
  have hfifo := congrArg (List.count q) hrec.fifo
  rw [List.count_append, ← count_queued, ← count_dequeued] at hfifo
  have hholds : tally (QueueAccount.taken q).part s.pcs = s.pcs.countP (·.holds q) :=
    tally_ite (QueuePc.holds q) s.pcs
  rw [hholds, QueueAccount.value] at htaken
  rw [count_freed_events, hrec.freed, QueueMem.waiting]
  split
  · rw [List.count_nil]
    omega
  · rw [List.count_nil]
    omega

theorem complete_eq (hidle : ∀ p ∈ s.pcs, p.enqueuing = false ∧ p.dequeuing = false) :
    s.mem.rxComplete = s.mem.rxQueue.length := by
  have hcomplete := (queueBalanced hr).1 .complete
  rw [tally_eq_zero _ fun p hp => by
    simp only [QueueAccount.part, (hidle p hp).1, (hidle p hp).2]
    rfl] at hcomplete
  rw [QueueAccount.value] at hcomplete
  omega

theorem freed_of_quiet (hclosing : s.mem.closing = true) (hquiet : ∀ p ∈ s.pcs, p = .returned) :
    s.mem.freed = true := by
  obtain ⟨hb, -, hrec⟩ := queueBalanced hr
  have hrefs := hb .refs
  rw [tally_eq_zero _ fun p hp => by rw [hquiet p hp]; rfl] at hrefs
  rw [QueueAccount.value, hclosing] at hrefs
  exact hrec.live.mpr (by simpa using hrefs)

theorem enqueuing_le_one : s.pcs.countP QueuePc.enqueuing ≤ 1 := by
  have hle := tally_le_tally (w := fun p => one (QueuePc.enqueuing p))
    (v := QueueAccount.callback.part) (fun p => by cases p <;> simp [QueueAccount.part]) s.pcs
  rw [← (queueBalanced hr).1 .callback, QueueAccount.value] at hle
  have hcount := tally_ite QueuePc.enqueuing s.pcs
  have hmax : one s.mem.callback ≤ 1 := by cases s.mem.callback <;> simp
  simp only [one] at hle hmax
  omega

theorem waiting_of_complete (hcomplete : s.mem.rxComplete ≤ 0) (q : QueuedMsg)
    (hq : .counted q ∈ h) : .dequeued q ∈ h := by
  obtain ⟨hb, hknown, hrec⟩ := queueBalanced hr
  by_contra hwait
  have hcounted := hb (.counted q)
  have hone := queued_le_one hr q
  have hpos := List.count_pos_iff.mpr hq
  have hnone : tally (QueueAccount.counted q).part s.pcs = 0 := by
    have hnonneg := tally_nonneg (w := (QueueAccount.counted q).part)
      (fun p => one_nonneg (p.counts q)) s.pcs
    rw [QueueAccount.value] at hcounted
    omega
  have hqueued : q ∈ h.filterMap (·.queued?) := by
    rw [QueueAccount.value] at hcounted
    rw [← List.count_pos_iff, ← count_queued]
    omega
  have hmem : q ∈ s.mem.rxQueue := by
    rw [hrec.fifo, List.mem_append] at hqueued
    refine hqueued.resolve_left fun hdeq => hwait ?_
    rw [← List.count_pos_iff, count_dequeued]
    exact List.count_pos_iff.mpr hdeq
  -- some callback is between the list and the counter, and only one message is on the list
  have hsum : s.mem.rxComplete - s.mem.rxQueue.length =
      s.pcs.countP QueuePc.dequeuing - s.pcs.countP QueuePc.enqueuing := by
    rw [← tally_ite, ← tally_ite, ← tally_sub]
    exact hb .complete
  have hcallback := enqueuing_le_one hr
  have hlen := List.length_pos_of_mem hmem
  obtain ⟨p, hp, henq⟩ := List.countP_pos_iff.mp
    (show 0 < s.pcs.countP QueuePc.enqueuing by omega)
  obtain ⟨r, hsingle⟩ := List.length_eq_one_iff.mp (show s.mem.rxQueue.length = 1 by omega)
  obtain rfl : q = r := by
    rw [hsingle] at hmem
    exact List.mem_singleton.mp hmem
  cases p with
  | inc r =>
    have hseq : r.seq + 1 = s.mem.nextSeq := hknown _ hp
    have hrange := hrec.seqs
    rw [hrec.fifo, hsingle, ← hseq, List.range_succ, List.map_append, List.map_singleton] at hrange
    have hlast : q.seq = r.seq := by simpa using (List.append_inj' hrange rfl).2
    have hcounts := le_tally (w := (QueueAccount.counted r).part)
      (fun p => one_nonneg (p.counts r)) hp
    rw [← hb (.counted r), QueueAccount.value, QueueAccount.part, QueuePc.counts,
      beq_self_eq_true, one, if_pos rfl] at hcounts
    have hr : r ∈ h.filterMap (·.queued?) := by
      rw [← List.count_pos_iff, ← count_queued]
      omega
    have hnodup : ((h.filterMap (·.queued?)).map QueuedMsg.seq).Nodup := by
      rw [hrec.seqs]
      exact List.nodup_range
    obtain rfl := List.inj_on_of_nodup_map hnodup hqueued hr hlast
    omega
  | _ => simp at henq

theorem counted_dequeued {u v : List QueueEvent} (hsplit : h = u ++ .shutdown :: v) :
    .dying ∈ u ∧ ∀ q, .counted q ∈ u → .dequeued q ∈ u := by
  refine hr.before .shutdown (fun u => .dying ∈ u ∧ ∀ q, .counted q ∈ u → .dequeued q ∈ u) ?_
    u v hsplit
  intro s h a s' es hr _ hs u v hes
  have hmem : .shutdown ∈ es := by simp [hes]
  obtain ⟨hb, hknown, hrec⟩ := queueBalanced hr
  cases a with
  | start x =>
    obtain ⟨m, o, hx, -⟩ := step_start.mp hs
    rw [(queueStart_step hx).1] at hmem
    contradiction
  | run i x =>
    obtain ⟨p, m, p', hp, ho, -⟩ := step_run.mp hs
    obtain ⟨hone, hcomplete, hdying⟩ := (step_queue hb hknown hp ho).shutdown hmem
    obtain rfl := eq_nil_of_only hone hes
    rw [List.append_nil]
    exact ⟨hrec.dying hdying, waiting_of_complete hr hcomplete⟩

end Places

/-- A reader starts only when no other one is inside. -/
def recvAlone (s : Sys QueueMem QueuePc) : Move QueueStart Bool → Bool
  | .start (.recv _) => s.pcs.all fun p => !p.receiving
  | _ => true

section Single
variable (hok : ∀ s h a, ok s h a → recvAlone s a = true)
  (hr : Reaches queueProg.step ok ⟨.init, []⟩ s h)
include hok hr

theorem receiving_le_one : s.pcs.countP QueuePc.receiving ≤ 1 := by
  refine at_most_one QueuePc.receiving ?_ ?_ hr
  · intro s h x m p es _ ha hx hp
    cases x with
    | recv n =>
      rw [List.countP_eq_zero]
      simpa [recvAlone] using hok s h _ ha
    | callback msg | destroy =>
      simp only [queueProg, queueStart] at hx
      split at hx <;> cases hx
      simp at hp
  · intro s h i x p m p' es hr _ hp ho
    obtain ⟨hb, hknown, -⟩ := queueBalanced hr
    exact fun hread => .inl ((step_queue hb hknown hp ho).reading hread)

theorem complete_le {i : Nat} {p : QueuePc} (hp : s.pcs[i]? = some p) (hrecv : p.receiving = true)
    (hdeq : p.dequeuing = false) : s.mem.rxComplete ≤ s.mem.rxQueue.length := by
  have hsum := (queueBalanced hr).1 .complete
  have hnone : s.pcs.countP QueuePc.dequeuing = 0 := by
    rw [List.countP_eq_zero]
    intro q hq hq'
    obtain ⟨j, hj⟩ := List.mem_iff_getElem?.mp hq
    have hreads : q.receiving = true := by
      cases q <;> simp at hq' ⊢
    obtain rfl := eq_of_countP_le_one (receiving_le_one hok hr) hp hj hrecv hreads
    rw [Option.some.inj (hp.symm.trans hj), hq'] at hdeq
    contradiction
  have hsplit : tally QueueAccount.complete.part s.pcs =
      s.pcs.countP QueuePc.dequeuing - s.pcs.countP QueuePc.enqueuing := by
    rw [← tally_ite, ← tally_ite, ← tally_sub]
    rfl
  rw [hsplit, QueueAccount.value] at hsum
  omega

omit hok hr in
theorem queue_ne_nil {m : QueueMem} (hle : m.rxComplete ≤ m.rxQueue.length)
    (hpos : 0 < m.rxComplete) : m.rxQueue ≠ [] := by
  intro hnil
  rw [hnil, List.length_nil] at hle
  omega

def QueuePc.Finds (m : QueueMem) : QueuePc → Prop
  | .recv _ .testDying => m.rxQueue ≠ [] ∨ m.dying = true
  | .recv _ .dequeue => m.rxQueue ≠ []
  | _ => True

theorem recv_finds : ∀ p ∈ s.pcs, p.Finds s.mem := by
  refine known (fun m p => QueuePc.Finds m p) ?_ ?_ hr
  · intro s h x m o es _ _ hx
    obtain ⟨-, hqueue, -, -, -, hdying, -, -⟩ := queueStart_step hx
    refine ⟨fun p hp => ?_, fun q _ hq => ?_⟩
    · cases x <;> simp only [queueProg, queueStart] at hx <;> split at hx <;> cases hx <;>
        cases hp <;> trivial
    · unfold QueuePc.Finds at hq ⊢
      rwa [hqueue, hdying]
  · intro s h i x p m p' es hr _ hp ho hI
    obtain ⟨hb, hknown, -⟩ := queueBalanced hr
    have hs := step_queue hb hknown hp ho
    refine ⟨?_, fun j q hj hq hF => ?_⟩
    · cases p' with
      | recv n pc =>
        cases pc with
        | testDying =>
          obtain ⟨rfl, hrecv, hdeq, hpos | hdying⟩ := hs.found n rfl
          · exact .inl (queue_ne_nil (complete_le hok hr hp hrecv hdeq) hpos)
          · exact .inr hdying
        | dequeue =>
          obtain ⟨rfl, hrecv, hdeq, hpos | ⟨rfl, hdying⟩⟩ := hs.goes n rfl
          · exact queue_ne_nil (complete_le hok hr hp hrecv hdeq) hpos
          · exact hI.resolve_right (by simp [hdying])
        | _ => trivial
      | _ => trivial
    · have hother : q.receiving = true → m.rxQueue = [] → s.mem.rxQueue = [] := by
        intro hrecv hnil
        refine (hs.queue hnil).resolve_right fun hrecv' => hj ?_
        exact eq_of_countP_le_one (receiving_le_one hok hr) hq hp hrecv hrecv'
      cases q with
      | recv n pc =>
        cases pc with
        | testDying =>
          exact hF.imp (fun hne hnil => hne (hother rfl hnil)) fun hd => hs.dying.mpr (.inl hd)
        | dequeue => exact fun hnil => hF (hother rfl hnil)
        | _ => trivial
      | _ => trivial

theorem never_again : .again ∉ h := by
  refine hr.invariant (fun _ h => .again ∉ h) (by simp) ?_
  intro s h a s' es hr hI _ hs hmem
  rcases List.mem_append.mp hmem with hold | hnew
  · exact hI hold
  · cases a with
    | start x =>
      obtain ⟨m, o, hx, -⟩ := step_start.mp hs
      rw [(queueStart_step hx).1] at hnew
      contradiction
    | run i x =>
      obtain ⟨p, m, p', hp, ho, -⟩ := step_run.mp hs
      obtain ⟨hb, hknown, -⟩ := queueBalanced hr
      obtain ⟨n, rfl, hnil⟩ := (step_queue hb hknown hp ho).again hnew
      exact recv_finds hok hr _ (List.mem_of_getElem? hp) hnil

end Single

/-- Every message is received by one reader, lost by one whose copy faults, or freed with the
stream; messages leave the list in the order they came, and the counters agree with the list. -/
theorem recv_queue_exactly_once (hr : Reaches queueProg.step ok ⟨.init, []⟩ s h) :
    (∀ q, h.count (.queued q) ≤ 1 ∧
      h.count (.queued q) = s.mem.waiting.count q + s.pcs.countP (·.holds q) +
        h.countP (·.settles q) + h.count (.freed q)) ∧
    (s.mem.closing = true → (∀ p ∈ s.pcs, p = .returned) → ∀ q, .queued q ∈ h →
      h.countP (·.settles q) + h.count (.freed q) = 1) ∧
    h.filterMap (·.queued?) = h.filterMap (·.dequeued?) ++ s.mem.rxQueue ∧
    s.mem.rxQueueLen = s.mem.rxQueue.length ∧
    ((∀ p ∈ s.pcs, p.enqueuing = false ∧ p.dequeuing = false) →
      s.mem.rxComplete = s.mem.rxQueue.length) ∧
    ((∀ s h a, ok s h a → recvAlone s a = true) → .again ∉ h) ∧
    ∀ u v, h = u ++ .shutdown :: v → .dying ∈ u ∧ ∀ q, .counted q ∈ u → .dequeued q ∈ u := by
  obtain ⟨hb, hknown, hrec⟩ := queueBalanced hr
  refine ⟨fun q => ⟨queued_le_one hr q, queued_place hr q⟩, fun hclosing hquiet q hq => ?_,
    hrec.fifo, hrec.len, complete_eq hr, fun hok => never_again hok hr,
    fun u v hsplit => counted_dequeued hr hsplit⟩
  have hone := queued_le_one hr q
  have hplace := queued_place hr q
  have hpos := List.count_pos_iff.mpr hq
  have hholds : s.pcs.countP (·.holds q) = 0 := by
    rw [List.countP_eq_zero]
    intro p hp
    rw [hquiet p hp]
    simp
  rw [QueueMem.waiting, if_pos (freed_of_quiet hr hclosing hquiet), List.count_nil, hholds] at hplace
  omega

end Runs

def faultedRead : List (Move QueueStart Bool) :=
  Move.start (QueueStart.callback ⟨1, 0, [7]⟩) :: List.replicate 4 (.run 0 true) ++
    Move.start (QueueStart.recv 8) :: List.replicate 5 (.run 1 true) ++
    [Move.run 1 false, .run 1 true] ++ Move.start QueueStart.destroy :: List.replicate 3 (.run 2 true)

theorem faulted_read_loses_message : ∃ s h q,
    Reaches queueProg.step (fun _ _ _ => True) ⟨.init, []⟩ s h ∧ .queued q ∈ h ∧
      s.mem.freed = true ∧ (∀ p ∈ s.pcs, p = .returned) ∧ h.countP (·.receives q) = 0 ∧
      h.count (.freed q) = 0 :=
  ⟨_, _, ⟨0, 1, 0, [7]⟩, .of_free faultedRead (by decide +kernel),
    by decide +kernel⟩

def readAndClose : List (Move QueueStart Bool) :=
  Move.start (QueueStart.callback ⟨1, 0, [7]⟩) :: List.replicate 4 (.run 0 true) ++
    Move.start (QueueStart.callback ⟨1, 0, [8, 9]⟩) :: List.replicate 4 (.run 1 true) ++
    Move.start (QueueStart.recv 8) :: List.replicate 7 (.run 2 true) ++
    Move.start QueueStart.destroy :: List.replicate 3 (.run 3 true)

theorem recv_queue_exactly_once_readAndClose : ∃ s h,
    Reaches queueProg.step (fun s _ a => recvAlone s a = true) ⟨.init, []⟩ s h ∧
      .received ⟨0, 1, 0, [7]⟩ [7] ∈ h ∧ .freed ⟨1, 1, 0, [8, 9]⟩ ∈ h ∧ .again ∉ h ∧
      s.mem.rxQueueLen = s.mem.rxQueue.length := by
  have hr : Reaches queueProg.step (fun s _ a => recvAlone s a = true) ⟨.init, []⟩ _ _ :=
    .of_acts readAndClose (by decide +kernel)
  obtain ⟨-, -, -, hlen, -, hagain, -⟩ := recv_queue_exactly_once hr
  exact ⟨_, _, hr, by decide +kernel, by decide +kernel, hagain fun _ _ _ ha => ha, hlen⟩

end OdinLink
