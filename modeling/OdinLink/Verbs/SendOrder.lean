import OdinLink.Verbs.SendQueue

/-!
# Sends are ordered and happen once

What is accepted is what is finished followed by what is queued, whatever the ring indices are.
The worker leaves the request it tries at the head, so the queue is not empty while it sends and
no thread sends inline past it.
-/

namespace OdinLink

open Threads History

section Copy
variable (src : Mem)

theorem Mem.read_add (off a b : Nat) :
    src.read off (a + b) = src.read off a ++ src.read (off + a) b := by
  rw [Mem.read, List.range_add, List.map_append, List.map_map]
  simp only [Mem.read, Function.comp_def, Nat.add_assoc]

theorem read_lines (off n : Nat) :
    (List.range n).flatMap (fun i => src.read (off + i * 64) 64) = src.read off (n * 64) := by
  induction n with
  | zero => simp [Mem.read]
  | succ n ih =>
    rw [List.range_succ, List.flatMap_append, ih, Nat.succ_mul, Mem.read_add, List.flatMap_singleton]

theorem bounceCopy_eq (enabled : Bool) (addr bytes : Nat) :
    bounceCopy enabled src addr bytes = src.read addr bytes := by
  have hcopy : (wcStreamCopy src addr bytes).getD (src.read addr bytes) = src.read addr bytes := by
    simp only [wcStreamCopy]
    generalize (if addr % 64 = 0 then 0 else 64 - addr % 64) = lead
    split
    · have hbody : (bytes - lead) / 64 * 64 ≤ bytes - lead := Nat.div_mul_le_self _ _
      generalize hn : (bytes - lead) / 64 = n at hbody
      have hsplit : bytes = lead + n * 64 + (bytes - lead - n * 64) := by omega
      rw [Option.getD_some, Nat.mul_div_cancel _ (by omega), read_lines, ← Mem.read_add,
        Nat.add_assoc addr, ← Mem.read_add]
      exact congrArg (src.read addr) hsplit.symm
    · rfl
  rw [bounceCopy]
  split
  · exact hcopy
  · rfl

end Copy

@[simp] def SendPc.locks : SendPc → Bool
  | .post (.inlineSend _ _) | .post (.inlineUnlock _ _) | .post (.loop _) | .post (.unlock _) => true
  | _ => false

@[simp] def SendPc.works : SendPc → Bool
  | .worker _ => true
  | _ => false

@[simp] def SendPc.sending : SendPc → Bool
  | .post (.inlineSend _ _) | .worker (.sending _) => true
  | _ => false

@[simp] def SendPc.reporting (n : Nat) : SendPc → Bool
  | .post (.inlineUnlock seq _) | .post (.inlineReport seq _) | .worker (.report seq _) => seq == n
  | _ => false

@[simp] def SendPc.succeeded (n : Nat) : SendPc → Bool
  | .post (.inlineUnlock seq wc) | .post (.inlineReport seq wc) | .worker (.dequeue seq wc)
  | .worker (.report seq wc) => seq == n && wc.status == .success
  | _ => false

theorem SendPc.of_succeeded {n : Nat} {p : SendPc} (hp : p.succeeded n = true) :
    p.reporting n = true ∨ ∃ wc, p = .worker (.dequeue n wc) := by
  rcases p with (_ | _ | _ | _ | _ | _) | (_ | _ | _ | _ | ⟨seq, wc⟩ | _) | _ <;>
    simp_all

@[simp] def SendEvent.about (n : Nat) : SendEvent → Bool
  | .reported seq _ | .lost seq _ _ => seq == n

@[simp] def SendEvent.succeeds (n : Nat) : SendEvent → Bool
  | .reported seq wc | .lost seq wc _ => seq == n && wc.status == .success

def SendRequest.wc (r : SendRequest) (qpNum : Nat) (sent : Bool) : Wc :=
  ⟨r.wrId, if sent then .success else .generalErr, .send, if sent then r.bytes.length else 0, qpNum⟩

def SendEntry.request (e : SendEntry) : SendRequest :=
  ⟨e.seq, e.wrId, e.bounceStorage.take e.len⟩

def SendWr.hostSge (cfg : QpConfig) (wr : SendWr) : Bool :=
  match wr.sgList with
  | [sge] => (cfg.lookupDmabuf sge.lkey).isNone
  | _ => false

def hostSends (cfg : QpConfig) : Move SendStart SendRet → Bool
  | .start (.post wrs) => wrs.all (·.hostSge cfg)
  | _ => true

namespace QpMem

def finished (m : QpMem) : List SendRequest := m.accepted.take (m.accepted.length - m.sq.count)

def Completes (cfg : QpConfig) (m : QpMem) (seq : Nat) (wc : Wc) : Prop :=
  ∃ r ∈ m.accepted, r.seq = seq ∧ ∃ sent, wc = r.wc cfg.qpNum sent

def Told (cfg : QpConfig) (m : QpMem) (h : List SendEvent) : Prop :=
  ∀ e ∈ h, ∃ seq wc, m.Completes cfg seq wc ∧ (e = .reported seq wc ∨ ∃ why, e = .lost seq wc why)

theorem Completes.mono {cfg : QpConfig} {m m' : QpMem} {seq : Nat} {wc : Wc}
    (hc : m.Completes cfg seq wc) (hacc : m.accepted ⊆ m'.accepted) : m'.Completes cfg seq wc := by
  obtain ⟨r, hr, hseq⟩ := hc
  exact ⟨r, hacc hr, hseq⟩

theorem Told.append {cfg : QpConfig} {m m' : QpMem} {h es : List SendEvent} (hold : m.Told cfg h)
    (hacc : m.accepted ⊆ m'.accepted) (hnew : m'.Told cfg es) : m'.Told cfg (h ++ es) := by
  intro e he
  rcases List.mem_append.mp he with he | he
  · obtain ⟨seq, wc, hc, hes⟩ := hold e he
    exact ⟨seq, wc, hc.mono hacc, hes⟩
  · exact hnew e he

theorem finished_eq {m : QpMem} {fin : List SendRequest}
    (hacc : m.accepted = fin ++ m.sq.contents.map SendEntry.request) : m.finished = fin := by
  have hlen : m.accepted.length - m.sq.count = fin.length := by simp [hacc]
  rw [finished, hlen, hacc, List.take_left]

theorem finished_of_empty {m : QpMem} (hempty : m.sq.count = 0) : m.finished = m.accepted := by
  rw [finished, hempty, Nat.sub_zero, List.take_length]

theorem finished_sublist (m : QpMem) : m.finished.Sublist m.accepted := List.take_sublist _ _

end QpMem

structure SendInv (cfg : QpConfig) (m : QpMem) : Prop where
  wf : m.sq.WF
  queue : m.accepted = m.finished ++ m.sq.contents.map SendEntry.request
  slots : ∀ j, cfg.lookupDmabuf (m.sq.slot j).lkey = none ∧
    ((m.sq.slot j).addr = .bounce j ∨ (m.sq.slot j).len = 0)
  entries : ∀ e ∈ m.sq.contents, e.numSge = 1 ∧ e.len ≤ e.bounceStorage.length
  seqs : m.accepted.map SendRequest.seq = List.range m.accepted.length
  order : m.stream.Sublist m.accepted
  idle : m.workerRunning = false → m.stream.Sublist m.finished

/-- What a thread knows. Until the worker has sent the request at the head, everything handed to
the stream is off the queue. -/
def SendPc.Knows (cfg : QpConfig) (m : QpMem) : SendPc → Prop
  | .post (.lock wrs) | .post (.loop wrs) => ∀ wr ∈ wrs, wr.hostSge cfg = true
  | .post (.inlineSend wr sge) =>
    wr.sgList = [sge] ∧ cfg.lookupDmabuf sge.lkey = none ∧ m.sq.count = 0
  | .post (.inlineUnlock seq wc) | .post (.inlineReport seq wc) => m.Completes cfg seq wc
  | .worker (.poll w) | .worker (.sending w) =>
    m.stream.Sublist m.finished ∧ 0 < m.sq.count ∧ w = m.sq.front.peeked
  | .worker (.dequeue seq wc) =>
    0 < m.sq.count ∧ seq = m.sq.front.seq ∧ ∃ sent, wc = m.sq.front.request.wc cfg.qpNum sent ∧
      m.stream.Sublist (m.finished ++ if sent then [m.sq.front.request] else [])
  | .worker (.report seq wc) => m.Completes cfg seq wc ∧ m.stream.Sublist m.finished
  | .worker .peek | .worker .retain => m.stream.Sublist m.finished
  | _ => True

section Fill
variable {cfg : QpConfig} {m : QpMem} {wr : SendWr} {e : SendEntry} {ok : Bool}

theorem SendWr.hostSge_iff : wr.hostSge cfg = true ↔
    ∃ sge, wr.sgList = [sge] ∧ cfg.lookupDmabuf sge.lkey = none := by
  rw [SendWr.hostSge]
  split
  · rename_i sge hsge
    simp [hsge]
  · rename_i hne
    constructor
    · simp
    · rintro ⟨sge, hsge, -⟩
      exact absurd hsge (hne sge)

theorem reserve_same {e' : SendEntry} {n : Nat} (hres : e.reserve n ok = some e') :
    e'.seq = e.seq ∧ e'.wrId = e.wrId ∧ e'.numSge = e.numSge := by
  rw [SendEntry.reserve] at hres
  split at hres
  · split at hres
    · cases hres
      exact ⟨rfl, rfl, rfl⟩
    · contradiction
  · cases hres
    exact ⟨rfl, rfl, rfl⟩

theorem fillEntry_spec (hdirect : cfg.directSend = false) (hhost : wr.hostSge cfg = true)
    (hfill : m.fillEntry cfg wr ok = some e) :
    e.request = ⟨m.accepted.length, wr.wrId, m.buffered cfg wr⟩ ∧
      e.numSge = 1 ∧ e.len ≤ e.bounceStorage.length ∧ cfg.lookupDmabuf e.lkey = none ∧
      (e.addr = .bounce m.sq.tail ∨ e.len = 0) := by
  obtain ⟨sge, hsge, hnone⟩ := SendWr.hostSge_iff.mp hhost
  have hbuf : m.buffered cfg wr = m.user.read sge.addr sge.length := by
    simp [QpMem.buffered, hsge, hnone]
  have hread : (m.user.read sge.addr sge.length).length = sge.length := Mem.read_length _ _ _
  simp only [QpMem.fillEntry, hsge, hnone, hdirect, bounceCopy_eq] at hfill
  rw [hbuf]
  by_cases hpos : 0 < sge.length
  · simp only [hpos, Option.isNone_none, decide_true, Bool.not_false, Bool.and_self, if_true,
      Option.map_eq_some_iff] at hfill
    obtain ⟨e', hres, rfl⟩ := hfill
    obtain ⟨hseq, hwr, hnum⟩ := reserve_same hres
    refine ⟨?_, hnum, ?_, hnone, .inl rfl⟩
    · rw [SendEntry.request, SendRequest.mk.injEq]
      exact ⟨hseq, hwr, List.take_left' hread⟩
    · change sge.length ≤ _
      rw [List.length_append, hread]
      exact Nat.le_add_right _ _
  · have hzero : sge.length = 0 := by omega
    simp only [hzero, Option.isNone_none, lt_self_iff_false, decide_false, Bool.and_false,
      Bool.false_and, Bool.false_eq_true, if_false, Option.some.injEq] at hfill
    subst hfill
    refine ⟨?_, rfl, Nat.zero_le _, hnone, .inr rfl⟩
    simp [SendEntry.request, hzero, Mem.read]

end Fill

section Step
variable {cfg : QpConfig} {m m' : QpMem} {p p' q : SendPc} {x : SendRet} {es : List SendEvent}
variable {wr : SendWr} {wrs : List SendWr} {pc : WorkerPc} {e : SendEntry} {sge : Sge} {seq : Nat}
  {wc : Wc}

theorem SendPc.Knows.of_same (hk : q.Knows cfg m) (hsq : m'.sq = m.sq)
    (hacc : m'.accepted = m.accepted) (hstream : m'.stream = m.stream) : q.Knows cfg m' := by
  have hfin : m'.finished = m.finished := by rw [QpMem.finished, QpMem.finished, hsq, hacc]
  rcases q with pc | pc | _
  · cases pc with
    | unlock badWr => trivial
    | _ => simpa only [SendPc.Knows, QpMem.Completes, hsq, hacc] using hk
  · cases pc <;> simpa only [SendPc.Knows, QpMem.Completes, hsq, hacc, hstream, hfin] using hk
  · trivial

theorem SendPc.Knows.of_poster (hk : q.Knows cfg m) (hw : q.works = false)
    (hlocks : q.locks = true → m'.sq.count = m.sq.count) (hacc : m.accepted ⊆ m'.accepted) :
    q.Knows cfg m' := by
  rcases q with pc | pc | _
  · cases pc with
    | inlineSend wr sge => exact ⟨hk.1, hk.2.1, (hlocks rfl).trans hk.2.2⟩
    | inlineUnlock seq wc | inlineReport seq wc => exact QpMem.Completes.mono hk hacc
    | lock wrs | loop wrs => exact hk
    | unlock badWr => trivial
  · simp at hw
  · trivial

theorem SendInv.of_same (hi : SendInv cfg m) (hsq : m'.sq = m.sq)
    (hacc : m'.accepted = m.accepted) (hstream : m'.stream = m.stream)
    (hw : m'.workerRunning = false → m.workerRunning = false) : SendInv cfg m' := by
  have hfin : m'.finished = m.finished := by rw [QpMem.finished, QpMem.finished, hsq, hacc]
  constructor
  · exact hsq ▸ hi.wf
  · rw [hfin, hacc, hsq]
    exact hi.queue
  · exact hsq ▸ hi.slots
  · exact hsq ▸ hi.entries
  · exact hacc ▸ hi.seqs
  · rw [hstream, hacc]
    exact hi.order
  · rw [hstream, hfin]
    exact fun h => hi.idle (hw h)

theorem SendInv.payload_front (hi : SendInv cfg m) :
    m.payload m.sq.front.peeked = m.sq.front.request.bytes := by
  have haddr : m.sq.front.addr = _ ∨ m.sq.front.len = 0 := (hi.slots m.sq.head).2
  simp only [QpMem.payload, SendEntry.peeked, SendEntry.request]
  rcases haddr with haddr | hlen
  · rw [haddr]
    rfl
  · rw [hlen]
    split <;> simp [Mem.read]

theorem SendInv.front_length (hi : SendInv cfg m) (hpos : 0 < m.sq.count) :
    m.sq.front.numSge = 1 ∧ m.sq.front.request.bytes.length = m.sq.front.len := by
  obtain ⟨hnum, hlen⟩ := hi.entries _ (hi.wf.front_mem hpos)
  exact ⟨hnum, List.length_take_of_le hlen⟩

/-- What an operation of thread `p` keeps: the invariant, what `p` knows, what the other threads
know, and the truth of the events. -/
structure SendStep (cfg : QpConfig) (m : QpMem) (p : SendPc) (m' : QpMem) (p' : SendPc)
    (es : List SendEvent) : Prop where
  inv : SendInv cfg m'
  own : p'.Knows cfg m'
  others : ∀ q : SendPc, q.Knows cfg m → (p.works = true → q.works = false) →
    (p.locks = true → q.locks = false) → (q.locks = true → m.sqLock = true) → q.Knows cfg m'
  told : m'.Told cfg es
  accepted : m.accepted ⊆ m'.accepted

theorem told_nil : m.Told cfg [] := by
  simp [QpMem.Told]

theorem SendStep.of_same (hi : SendInv cfg m) (hown : p'.Knows cfg m := by exact trivial)
    (htold : m.Told cfg es := by exact told_nil) (hsq : m'.sq = m.sq := by rfl)
    (hacc : m'.accepted = m.accepted := by rfl) (hstream : m'.stream = m.stream := by rfl)
    (hw : m'.workerRunning = m.workerRunning := by rfl) : SendStep cfg m p m' p' es where
  inv := hi.of_same hsq hacc hstream fun h => hw.symm.trans h
  own := hown.of_same hsq hacc hstream
  others _ hq _ _ _ := hq.of_same hsq hacc hstream
  told e he := by
    obtain ⟨seq, wc, hc, hes⟩ := htold e he
    exact ⟨seq, wc, hc.mono (hacc ▸ List.Subset.refl _), hes⟩
  accepted := hacc ▸ List.Subset.refl _

theorem seqs_append {l : List SendRequest} (hl : l.map SendRequest.seq = List.range l.length)
    {r : SendRequest} (hr : r.seq = l.length) :
    (l ++ [r]).map SendRequest.seq = List.range (l ++ [r]).length := by
  rw [List.map_append, hl, List.length_append, List.map_singleton, hr, List.length_singleton,
    List.range_succ]

theorem inlineSend_step (hi : SendInv cfg m)
    (hk : (SendPc.post (.inlineSend wr sge)).Knows cfg m) {r : SendRequest}
    (hr : r = ⟨m.accepted.length, wr.wrId, m.user.read sge.addr sge.length⟩)
    (hsq : m'.sq = m.sq) (hacc : m'.accepted = m.accepted ++ [r])
    (hstream : m'.stream = m.stream ++ [r]) :
    SendStep cfg m (.post (.inlineSend wr sge)) m'
      (.post (.inlineUnlock r.seq ⟨wr.wrId, .success, .send, sge.length, cfg.qpNum⟩)) [] := by
  obtain ⟨-, -, hempty⟩ := hk
  have hnil : m.sq.contents = [] := List.length_eq_zero_iff.mp (by simp [hempty])
  have hfin : m'.finished = m'.accepted := QpMem.finished_of_empty (hsq ▸ hempty)
  have horder : m'.stream.Sublist m'.accepted := by
    rw [hstream, hacc]
    exact hi.order.append_right [r]
  have hidle : m'.stream.Sublist m'.finished := hfin ▸ horder
  have hsub : m.accepted ⊆ m'.accepted := hacc ▸ List.subset_append_left _ _
  refine ⟨⟨hsq ▸ hi.wf, ?_, hsq ▸ hi.slots, hsq ▸ hi.entries, ?_, horder, fun _ => hidle⟩, ?_, ?_,
    told_nil, hsub⟩
  · rw [hfin, hsq, hnil, List.map_nil, List.append_nil]
  · rw [hacc]
    exact seqs_append hi.seqs (by rw [hr])
  · refine ⟨r, hacc ▸ List.mem_append_right _ List.mem_cons_self, rfl, true, ?_⟩
    rw [hr]
    simp [SendRequest.wc]
  · intro q hq _ _ _
    rcases q with pc | pc | _
    · exact hq.of_poster rfl (fun _ => congrArg _ hsq) hsub
    · cases pc with
      | peek | retain => exact hidle
      | report seq wc => exact ⟨hq.1.mono hsub, hidle⟩
      | poll w | sending w => exact absurd hempty hq.2.1.ne'
      | dequeue seq wc => exact absurd hempty hq.1.ne'
    · trivial

theorem SendPc.Knows.of_worker (hk : (SendPc.worker pc).Knows cfg m)
    (hcount : 0 < m.sq.count → 0 < m'.sq.count ∧ m'.sq.front = m.sq.front)
    (hfin : m'.finished = m.finished) (hacc : m.accepted ⊆ m'.accepted)
    (hstream : m'.stream = m.stream) : (SendPc.worker pc).Knows cfg m' := by
  have hidle (hk : m.stream.Sublist m.finished) : m'.stream.Sublist m'.finished := by
    rwa [hfin, hstream]
  cases pc with
  | peek | retain => exact hidle hk
  | report seq wc => exact ⟨hk.1.mono hacc, hidle hk.2⟩
  | poll w | sending w =>
    obtain ⟨hpos', hfront⟩ := hcount hk.2.1
    exact ⟨hidle hk.1, hpos', hfront ▸ hk.2.2⟩
  | dequeue seq wc =>
    obtain ⟨hpos, hrest⟩ := hk
    obtain ⟨hpos', hfront⟩ := hcount hpos
    refine ⟨hpos', ?_⟩
    rw [hfront, hfin, hstream]
    exact hrest

theorem push_step {ok : Bool}
    (hdirect : cfg.directSend = false) (hi : SendInv cfg m) (hroom : m.sq.count < m.sq.depth)
    (hk : (SendPc.post (.loop (wr :: wrs))).Knows cfg m) (hfill : m.fillEntry cfg wr ok = some e)
    (hsq : m'.sq = m.sq.push e) (hacc : m'.accepted = m.accepted ++ [e.request])
    (hstream : m'.stream = m.stream) (hw : m'.workerRunning = m.workerRunning) :
    SendStep cfg m (.post (.loop (wr :: wrs))) m' (.post (.loop wrs)) [] := by
  obtain ⟨hreq, hnum, hlen, hlkey, haddr⟩ :=
    fillEntry_spec hdirect (hk wr List.mem_cons_self) hfill
  have hcontents : m'.sq.contents = m.sq.contents ++ [e] := by
    rw [hsq, hi.wf.contents_push hroom]
  have hqueue : m'.accepted = m.finished ++ m'.sq.contents.map SendEntry.request := by
    rw [hacc, hcontents, List.map_append, ← List.append_assoc, ← hi.queue]
    rfl
  have hfin : m'.finished = m.finished := QpMem.finished_eq hqueue
  have hsub : m.accepted ⊆ m'.accepted := hacc ▸ List.subset_append_left _ _
  refine ⟨⟨hsq ▸ hi.wf.push hroom e, hfin.symm ▸ hqueue, ?_, ?_, ?_, ?_, ?_⟩, ?_, ?_, told_nil, hsub⟩
  · rw [hsq]
    exact CircularBuffer.write_slots (P := fun j (s : SendEntry) => cfg.lookupDmabuf s.lkey = none ∧
      (s.addr = .bounce j ∨ s.len = 0)) hi.slots ⟨hlkey, haddr⟩
  · intro e' he'
    rw [hcontents] at he'
    rcases List.mem_append.mp he' with he' | he'
    · exact hi.entries e' he'
    · rw [List.mem_singleton.mp he']
      exact ⟨hnum, hlen⟩
  · rw [hacc]
    exact seqs_append hi.seqs (by rw [hreq])
  · rw [hstream, hacc]
    exact hi.order.trans (List.sublist_append_left _ _)
  · rw [hstream, hfin, hw]
    exact hi.idle
  · exact fun wr' hwr' => hk wr' (List.mem_cons_of_mem wr hwr')
  · intro q hq _ hlocks _
    rcases q with pc | pc | _
    · exact hq.of_poster rfl (fun hl => absurd hl (by rw [hlocks rfl]; decide)) hsub
    · refine hq.of_worker (fun hpos => ?_) hfin hsub hstream
      rw [hsq]
      exact ⟨Nat.succ_pos _, hi.wf.front_push hpos hroom e⟩
    · trivial

theorem write_step (hi : SendInv cfg m)
    (hroom : m.sq.count < m.sq.depth) (haddr : e.addr = (m.sq.slot m.sq.tail).addr)
    (hlen : e.len = (m.sq.slot m.sq.tail).len) (hlkey : e.lkey = (m.sq.slot m.sq.tail).lkey)
    (hsq : m'.sq = m.sq.write e) (hacc : m'.accepted = m.accepted)
    (hstream : m'.stream = m.stream) (hw : m'.workerRunning = m.workerRunning) :
    SendStep cfg m (.post (.loop (wr :: wrs))) m' (.post (.unlock (some wr))) [] := by
  have hcontents : m'.sq.contents = m.sq.contents := by
    rw [hsq, hi.wf.contents_write hroom]
  have hcount : m'.sq.count = m.sq.count := by
    rw [hsq]
    rfl
  have hfin : m'.finished = m.finished := by
    rw [QpMem.finished, QpMem.finished, hacc, hcount]
  have hsub : m.accepted ⊆ m'.accepted := hacc ▸ List.Subset.refl _
  refine ⟨⟨hsq ▸ hi.wf.write e, ?_, ?_, hcontents ▸ hi.entries, hacc ▸ hi.seqs, ?_, ?_⟩, trivial, ?_,
    told_nil, hsub⟩
  · rw [hacc, hfin, hcontents]
    exact hi.queue
  · rw [hsq]
    refine CircularBuffer.write_slots (P := fun j (s : SendEntry) => cfg.lookupDmabuf s.lkey = none ∧
      (s.addr = .bounce j ∨ s.len = 0)) hi.slots ?_
    rw [haddr, hlen, hlkey]
    exact hi.slots m.sq.tail
  · rw [hstream, hacc]
    exact hi.order
  · rw [hstream, hfin, hw]
    exact hi.idle
  · intro q hq _ _ _
    rcases q with pc | pc | _
    · exact hq.of_poster rfl (fun _ => hcount) hsub
    · refine hq.of_worker (fun hpos => ?_) hfin hsub hstream
      rw [hsq]
      exact ⟨hpos, hi.wf.front_write hpos hroom e⟩
    · trivial

theorem sent_step {w : PeekedWr} (hi : SendInv cfg m)
    (hk : (SendPc.worker (.sending w)).Knows cfg m) (hrunning : m.workerRunning = true)
    (hsq : m'.sq = m.sq) (hacc : m'.accepted = m.accepted)
    (hstream : m'.stream = m.stream ++ [⟨w.seq, w.wrId, m.payload w⟩])
    (hw : m'.workerRunning = m.workerRunning) :
    SendStep cfg m (.worker (.sending w)) m'
      (.worker (.dequeue w.seq ⟨w.wrId, .success, .send, w.len, cfg.qpNum⟩)) [] := by
  obtain ⟨hidle, hpos, rfl⟩ := hk
  have hreq : m'.stream = m.stream ++ [m.sq.front.request] := by
    rw [hstream, hi.payload_front]
    rfl
  have hfin : m'.finished = m.finished := by rw [QpMem.finished, QpMem.finished, hsq, hacc]
  have hsent : m'.stream.Sublist (m.finished ++ [m.sq.front.request]) := by
    rw [hreq]
    exact hidle.append_right _
  have horder : m'.stream.Sublist m'.accepted := by
    refine hsent.trans ?_
    rw [hacc, hi.queue, hi.wf.contents_eq_cons hpos, List.map_cons]
    exact List.Sublist.append_left (List.singleton_sublist.mpr List.mem_cons_self) _
  have hsub : m.accepted ⊆ m'.accepted := hacc ▸ List.Subset.refl _
  refine ⟨⟨hsq ▸ hi.wf, ?_, hsq ▸ hi.slots, hsq ▸ hi.entries, hacc ▸ hi.seqs, horder, ?_⟩, ?_, ?_,
    told_nil, hsub⟩
  · rw [hacc, hfin, hsq]
    exact hi.queue
  · rw [hw, hrunning]
    exact fun h => Bool.noConfusion h
  · rw [← hsq] at hpos hsent
    refine ⟨hpos, by rw [hsq]; rfl, true, ?_, hfin ▸ hsent⟩
    rw [hsq, SendRequest.wc, (hi.front_length (hsq ▸ hpos)).2]
    rfl
  · intro q hq hworks _ _
    exact hq.of_poster (hworks rfl) (fun _ => congrArg _ hsq) hsub

theorem dequeue_step (hi : SendInv cfg m)
    (hk : (SendPc.worker (.dequeue seq wc)).Knows cfg m) (hfree : m.sqLock = false)
    (hsq : m'.sq = m.sq.pop) (hacc : m'.accepted = m.accepted) (hstream : m'.stream = m.stream) :
    SendStep cfg m (.worker (.dequeue seq wc)) m' (.worker (.report seq wc)) [] := by
  obtain ⟨hpos, rfl, sent, rfl, hsent⟩ := hk
  have hcontents : m.sq.contents = m.sq.front :: m'.sq.contents := by
    rw [hsq, hi.wf.contents_eq_cons hpos]
  have hqueue : m'.accepted =
      (m.finished ++ [m.sq.front.request]) ++ m'.sq.contents.map SendEntry.request := by
    rw [hacc, List.append_assoc, List.singleton_append, ← List.map_cons, ← hcontents]
    exact hi.queue
  have hfin : m'.finished = m.finished ++ [m.sq.front.request] := QpMem.finished_eq hqueue
  have hidle : m'.stream.Sublist m'.finished := by
    rw [hstream, hfin]
    cases sent with
    | true => exact hsent
    | false => exact hsent.trans (List.Sublist.append_left (List.nil_sublist _) _)
  have hsub : m.accepted ⊆ m'.accepted := hacc ▸ List.Subset.refl _
  have hfront : m.sq.front.request ∈ m'.accepted := by
    rw [hqueue]
    simp
  refine ⟨⟨hsq ▸ hi.wf.pop hpos, hfin.symm ▸ hqueue, hsq ▸ hi.slots, ?_, hacc ▸ hi.seqs,
    hidle.trans m'.finished_sublist, fun _ => hidle⟩, ⟨⟨_, hfront, rfl, sent, rfl⟩, hidle⟩, ?_,
    told_nil, hsub⟩
  · intro e he
    exact hi.entries e (hcontents ▸ List.mem_cons_of_mem _ he)
  · intro q hq hworks _ hlock
    refine hq.of_poster (hworks rfl) (fun hl => ?_) hsub
    exact Bool.noConfusion (hfree.symm.trans (hlock hl))

theorem cqPost_same (seq : Nat) (wc : Wc) : (cqPost m seq wc).1.sq = m.sq ∧
    (cqPost m seq wc).1.accepted = m.accepted ∧ (cqPost m seq wc).1.stream = m.stream ∧
    (cqPost m seq wc).1.workerRunning = m.workerRunning ∧ (cqPost m seq wc).1.sqLock = m.sqLock := by
  rw [cqPost]
  split
  · exact ⟨rfl, rfl, rfl, rfl, rfl⟩
  · split <;> exact ⟨rfl, rfl, rfl, rfl, rfl⟩

theorem cqPost_events (seq : Nat) (wc : Wc) : (cqPost m seq wc).2 = [.reported seq wc] ∨
    ∃ why, (cqPost m seq wc).2 = [.lost seq wc why] := by
  rw [cqPost]
  split
  · exact .inr ⟨_, rfl⟩
  · split
    · exact .inr ⟨_, rfl⟩
    · exact .inl rfl

theorem cqPost_told (hc : m.Completes cfg seq wc) :
    m.Told cfg (cqPost m seq wc).2 := by
  intro e he
  refine ⟨seq, wc, hc, ?_⟩
  rcases cqPost_events (m := m) seq wc with hes | ⟨why, hes⟩
  · rw [hes] at he
    exact .inl (List.mem_singleton.mp he)
  · rw [hes] at he
    exact .inr ⟨why, List.mem_singleton.mp he⟩

theorem inlineSge_spec (hinline : inlineSge cfg m wrs = some (wr, sge)) :
    wr.sgList = [sge] ∧ cfg.lookupDmabuf sge.lkey = none ∧ m.sq.count = 0 := by
  rw [inlineSge.eq_def] at hinline
  split at hinline
  · split at hinline
    · rename_i htests
      cases hinline
      simp only [Bool.and_eq_true, beq_iff_eq, Option.isNone_iff_eq_none] at htests
      exact ⟨rfl, htests.2, htests.1.1.1.2⟩
    · contradiction
  · contradiction

structure SendBalance (m : QpMem) (p : SendPc) (m' : QpMem) (p' : SendPc)
    (es : List SendEvent) : Prop where
  lock : one m'.sqLock + one p.locks = one m.sqLock + one p'.locks
  worker : m'.workerRunning = m.workerRunning ∧ p'.works = p.works
  request : ∀ n, (m'.accepted.countP (·.seq == n) : Int) - m'.sq.contents.countP (·.seq == n) -
      es.countP (·.about n) + one (p.reporting n) =
    m.accepted.countP (·.seq == n) - m.sq.contents.countP (·.seq == n) + one (p'.reporting n)
  outcome : ∀ n, (m'.stream.countP (·.seq == n) : Int) - es.countP (·.succeeds n) +
      one (p.succeeded n) = m.stream.countP (·.seq == n) + one (p'.succeeded n)

theorem cqPost_counts (seq : Nat) (wc : Wc) (n : Nat) :
    ((cqPost m seq wc).2.countP (·.about n) : Int) = one (seq == n) ∧
      ((cqPost m seq wc).2.countP (·.succeeds n) : Int) =
        one (seq == n && wc.status == .success) := by
  rcases cqPost_events (m := m) seq wc with hes | ⟨why, hes⟩ <;>
    simp [hes, List.countP_singleton]

theorem postOp_step {pc : PostPc} (hdirect : cfg.directSend = false) (hi : SendInv cfg m)
    (hk : (SendPc.post pc).Knows cfg m) (hlock : (SendPc.post pc).locks = true → m.sqLock = true)
    (ho : postOp cfg m pc x = some (m', p', es)) :
    SendStep cfg m (.post pc) m' p' es ∧ SendBalance m (.post pc) m' p' es := by
  cases pc with
  | lock wrs =>
    rw [postOp] at ho
    split at ho
    · contradiction
    · cases ho
      constructor
      · refine .of_same hi ?_
        split
        · exact inlineSge_spec ‹_›
        · exact hk
      · split <;> constructor <;> simp [*]
  | inlineSend wr sge =>
    rw [postOp] at ho
    split at ho
    · cases ho
      refine ⟨inlineSend_step hi hk rfl rfl rfl rfl, ?_⟩
      constructor <;> simp [List.countP_singleton]
      omega
    · cases ho
      refine ⟨.of_same hi (fun wr' hwr' => ?_), ?_⟩
      · rw [List.mem_singleton.mp hwr']
        exact SendWr.hostSge_iff.mpr ⟨sge, hk.1, hk.2.1⟩
      · constructor <;> simp
  | inlineUnlock seq wc =>
    cases ho
    refine ⟨.of_same hi hk, ?_⟩
    constructor <;> simp [hlock rfl]
  | inlineReport seq wc =>
    cases ho
    obtain ⟨hsq, hacc, hstream, hw, hl⟩ := cqPost_same (m := m) seq wc
    refine ⟨.of_same hi trivial (cqPost_told hk) hsq hacc hstream hw, ?_⟩
    constructor
    · simp [hl]
    · simp [hw]
    · intro n
      rw [hsq, hacc, (cqPost_counts seq wc n).1]
      simp
    · intro n
      rw [hstream, (cqPost_counts seq wc n).2]
      simp
  | loop wrs =>
    cases wrs with
    | nil =>
      cases ho
      refine ⟨.of_same hi, ?_⟩
      constructor <;> simp
    | cons wr wrs =>
      rw [postOp] at ho
      split at ho
      · cases ho
        refine ⟨.of_same hi, ?_⟩
        constructor <;> simp
      · have hroom : m.sq.count < m.sq.depth := by omega
        split at ho
        · cases ho
          refine ⟨write_step hi hroom ?_ ?_ ?_ rfl rfl rfl rfl, ?_⟩
          iterate 3 rfl
          constructor <;> simp [hi.wf.contents_write hroom]
        · rename_i e hfill
          cases ho
          have hreq := (fillEntry_spec hdirect (hk wr List.mem_cons_self) hfill).1
          have hseq : e.seq = m.accepted.length := congrArg SendRequest.seq hreq
          refine ⟨push_step hdirect hi hroom hk hfill rfl (by rw [hreq]) rfl rfl, ?_⟩
          constructor <;> simp [hi.wf.contents_push hroom, List.countP_singleton, hseq]
  | unlock badWr =>
    cases ho
    refine ⟨.of_same hi, ?_⟩
    constructor <;> simp [hlock rfl]

theorem workerOp_step (hi : SendInv cfg m) (hk : (SendPc.worker pc).Knows cfg m)
    (hrunning : m.workerRunning = true) (ho : workerOp cfg m pc x = some (m', p', es)) :
    SendStep cfg m (.worker pc) m' p' es ∧ SendBalance m (.worker pc) m' p' es := by
  cases pc with
  | peek =>
    rw [workerOp] at ho
    split at ho
    · contradiction
    · split at ho
      · rename_i hpos
        cases ho
        refine ⟨.of_same hi ⟨hk, hpos, rfl⟩, ?_⟩
        constructor <;> simp
      · cases ho
        refine ⟨.of_same hi hk, ?_⟩
        constructor <;> simp
  | poll w =>
    rw [workerOp] at ho
    split at ho
    · cases ho
      refine ⟨.of_same hi hk, ?_⟩
      constructor <;> simp
    · rename_i hzero
      obtain ⟨-, hpos, rfl⟩ := hk
      have hone : m.sq.front.peeked.numSge = 1 := (hi.front_length hpos).1
      omega
  | sending w =>
    cases x with
    | ok =>
      have hnone : cfg.lookupDmabuf w.lkey = none := by
        obtain ⟨-, -, rfl⟩ := hk
        exact (hi.slots m.sq.head).1
      rw [workerOp, hnone, if_neg (by simp)] at ho
      cases ho
      refine ⟨sent_step hi hk hrunning rfl rfl rfl rfl, ?_⟩
      constructor <;> simp [List.countP_singleton]
    | again =>
      cases ho
      refine ⟨.of_same hi hk.1, ?_⟩
      constructor <;> simp
    | err =>
      cases ho
      obtain ⟨hidle, hpos, rfl⟩ := hk
      refine ⟨.of_same hi ⟨hpos, rfl, false, rfl, ?_⟩, ?_⟩
      · simpa using hidle
      · constructor <;> simp
  | retain =>
    rw [workerOp] at ho
    split at ho
    · contradiction
    · cases ho
      refine ⟨.of_same hi hk, ?_⟩
      constructor <;> simp
  | dequeue seq wc =>
    rw [workerOp] at ho
    split at ho
    · contradiction
    · rename_i hfree
      cases ho
      refine ⟨dequeue_step hi hk (Bool.eq_false_iff.mpr hfree) rfl rfl rfl, ?_⟩
      obtain ⟨hpos, rfl, -⟩ := hk
      constructor
      · simp
      · simp
      · intro n
        rw [hi.wf.contents_eq_cons hpos, List.countP_cons]
        simp
        split <;> omega
      · simp
  | report seq wc =>
    cases ho
    obtain ⟨hsq, hacc, hstream, hw, hl⟩ := cqPost_same (m := m) seq wc
    refine ⟨.of_same hi hk.2 (cqPost_told hk.1) hsq hacc hstream hw, ?_⟩
    constructor
    · simp [hl]
    · simp [hw]
    · intro n
      rw [hsq, hacc, (cqPost_counts seq wc n).1]
      simp
    · intro n
      rw [hstream, (cqPost_counts seq wc n).2]
      simp

theorem sendOp_step (hdirect : cfg.directSend = false) (hi : SendInv cfg m) (hk : p.Knows cfg m)
    (hlock : p.locks = true → m.sqLock = true) (hrunning : p.works = true → m.workerRunning = true)
    (ho : sendOp cfg m p x = some (m', p', es)) :
    SendStep cfg m p m' p' es ∧ SendBalance m p m' p' es := by
  cases p with
  | post pc => exact postOp_step hdirect hi hk hlock ho
  | worker pc => exact workerOp_step hi hk (hrunning rfl) ho
  | returned badWr => cases ho

end Step

inductive SendAccount where
  | lock
  | worker
  | request (n : Nat)
  | outcome (n : Nat)

def SendAccount.value : SendAccount → QpMem → List SendEvent → Int
  | .lock, m, _ => one m.sqLock
  | .worker, m, _ => one m.workerRunning
  | .request n, m, h =>
    m.accepted.countP (·.seq == n) - m.sq.contents.countP (·.seq == n) - h.countP (·.about n)
  | .outcome n, m, h => m.stream.countP (·.seq == n) - h.countP (·.succeeds n)

def SendAccount.part : SendAccount → SendPc → Int
  | .lock, p => one p.locks
  | .worker, p => one p.works
  | .request n, p => one (p.reporting n)
  | .outcome n, p => one (p.succeeded n)

theorem createQp_inv (cfg : QpConfig) (n : Nat) (cq : Option Cq) (user : Mem) (dmabuf : Nat → Mem) :
    SendInv cfg (createQp n cq user dmabuf) where
  wf := ⟨by simp [createQp, sqDepth, sqDepthMin], Nat.zero_le _, by simp [createQp]⟩
  queue := rfl
  slots _ := ⟨by simp [createQp, SendEntry.zero, QpConfig.lookupDmabuf], .inr rfl⟩
  entries _ he := by simp [createQp, CircularBuffer.contents] at he
  seqs := rfl
  order := List.Sublist.refl _
  idle _ := List.Sublist.refl _

section Start
variable {cfg : QpConfig} {m m' : QpMem} {x : SendStart} {o : Option SendPc} {es : List SendEvent}

theorem sendStart_same (hx : sendStart m x = some (m', o, es)) : m'.sq = m.sq ∧
    m'.accepted = m.accepted ∧ m'.stream = m.stream ∧ m'.sqLock = m.sqLock ∧ es = [] ∧
    (m'.workerRunning = m.workerRunning ∧
        (o = none ∨ ∃ wrs, x = .post wrs ∧ o = some (.post (.lock wrs))) ∨
      m.workerRunning = false ∧ m'.workerRunning = true ∧ o = some (.worker .peek)) := by
  cases x with
  | post wrs =>
    cases hx
    exact ⟨rfl, rfl, rfl, rfl, rfl, .inl ⟨rfl, .inr ⟨wrs, rfl, rfl⟩⟩⟩
  | worker =>
    rw [sendStart] at hx
    split at hx
    · contradiction
    · rename_i hfirst
      cases hx
      exact ⟨rfl, rfl, rfl, rfl, rfl, .inr ⟨Bool.eq_false_iff.mpr hfirst, rfl, rfl⟩⟩
  | write addr bytes | writeDmabuf fd addr bytes | otherPost wc | pollCq n =>
    cases hx
    exact ⟨rfl, rfl, rfl, rfl, rfl, .inl ⟨rfl, .inl rfl⟩⟩

end Start

section Runs
variable {cfg : QpConfig} (hdirect : cfg.directSend = false) {n : Nat} {cq : Option Cq} {user : Mem}
  {dmabuf : Nat → Mem} {s : Sys QpMem SendPc} {h : List SendEvent}
  (hr : Reaches (sendProg cfg).step (fun _ _ a => hostSends cfg a = true)
    ⟨createQp n cq user dmabuf, []⟩ s h)
include hdirect hr

theorem send_accounts : (∀ a : SendAccount, a.value s.mem h = tally a.part s.pcs) ∧
    (∀ p ∈ s.pcs, p.Knows cfg s.mem) ∧ SendInv cfg s.mem ∧ s.mem.Told cfg h := by
  refine accounted SendAccount.value SendAccount.part (SendPc.Knows cfg)
    (fun m h => SendInv cfg m ∧ m.Told cfg h) ?_ ⟨createQp_inv cfg n cq user dmabuf, told_nil⟩
    ?_ ?_ hr
  · intro a
    cases a <;> rfl
  · intro s h x m o es _ hok _ ⟨hi, htold⟩ hx
    obtain ⟨hsq, hacc, hstream, hlock, rfl, hstart⟩ := sendStart_same hx
    refine ⟨fun a => ?_, fun p hp => ?_, fun q _ hq => hq.of_same hsq hacc hstream,
      hi.of_same hsq hacc hstream fun hw => ?_, htold.append (hacc ▸ List.Subset.refl _) told_nil⟩
    · rcases hstart with ⟨hw, rfl | ⟨wrs, -, rfl⟩⟩ | ⟨hnone, hw, rfl⟩ <;> cases a <;>
        simp [SendAccount.value, SendAccount.part, *]
    · rcases hstart with ⟨hw, rfl | ⟨wrs, rfl, rfl⟩⟩ | ⟨hnone, hw, rfl⟩
      · contradiction
      · cases hp
        exact List.all_eq_true.mp hok
      · cases hp
        exact SendPc.Knows.of_same (m := s.mem) (hi.idle hnone) hsq hacc hstream
    · rcases hstart with ⟨hsame, -⟩ | ⟨-, htrue, -⟩
      · exact hsame.symm.trans hw
      · exact Bool.noConfusion (htrue.symm.trans hw)
  · intro s h i x p m p' es _ _ hb hk ⟨hi, htold⟩ hp ho
    have hmem := List.mem_of_getElem? hp
    have hlock {q : SendPc} (hq : q ∈ s.pcs) : q.locks = true → s.mem.sqLock = true :=
      flag_of_mem (c := SendPc.locks) (hb .lock) hq
    have hrunning := flag_of_mem (c := SendPc.works) (hb .worker) hmem
    obtain ⟨hs, hbal⟩ := sendOp_step hdirect hi (hk p hmem) (hlock hmem) hrunning ho
    refine ⟨fun a => ?_, hs.own, fun k q hki hq => ?_, hs.inv, htold.append hs.accepted hs.told⟩
    · cases a with
      | lock => exact hbal.lock
      | worker =>
        simp only [SendAccount.value, SendAccount.part, hbal.worker.1, hbal.worker.2]
      | request j =>
        have hj := hbal.request j
        simp only [SendAccount.value, SendAccount.part, List.countP_append]
        omega
      | outcome j =>
        have hj := hbal.outcome j
        simp only [SendAccount.value, SendAccount.part, List.countP_append]
        omega
    · have hq' := List.mem_of_getElem? hq
      exact hs.others q (hk q hq') (flag_alone (c := SendPc.works) (hb .worker) hki.symm hp hq)
        (flag_alone (c := SendPc.locks) (hb .lock) hki.symm hp hq) (hlock hq')

theorem one_sending {i j : Nat} {p q : SendPc} (hp : s.pcs[i]? = some p) (hq : s.pcs[j]? = some q)
    (hps : p.sending = true) (hqs : q.sending = true) : i = j := by
  obtain ⟨hb, hk, -, -⟩ := send_accounts hdirect hr
  have hclash {wr : SendWr} {sge : Sge} {w : PeekedWr}
      (hpost : SendPc.post (.inlineSend wr sge) ∈ s.pcs)
      (hwork : SendPc.worker (.sending w) ∈ s.pcs) : False :=
    (hk _ hwork).2.1.ne' (hk _ hpost).2.2
  by_contra hij
  have hp' := List.mem_of_getElem? hp
  have hq' := List.mem_of_getElem? hq
  rcases p with (_ | ⟨wr, sge⟩ | _ | _ | _ | _) | (_ | _ | w | _ | _ | _) | _ <;>
    simp only [SendPc.sending, Bool.false_eq_true] at hps
  all_goals
    rcases q with (_ | ⟨wr', sge'⟩ | _ | _ | _ | _) | (_ | _ | w' | _ | _ | _) | _ <;>
      simp only [SendPc.sending, Bool.false_eq_true] at hqs
  · exact Bool.noConfusion (flag_alone (c := SendPc.locks) (hb .lock) hij hp hq rfl)
  · exact hclash hp' hq'
  · exact hclash hq' hp'
  · exact Bool.noConfusion (flag_alone (c := SendPc.works) (hb .worker) hij hp hq rfl)

theorem eq_of_seq {r r' : SendRequest} (hracc : r ∈ s.mem.accepted) (hracc' : r' ∈ s.mem.accepted)
    (hseq : r'.seq = r.seq) : r' = r := by
  obtain ⟨-, -, hi, -⟩ := send_accounts hdirect hr
  have hnodup : (s.mem.accepted.map SendRequest.seq).Nodup := hi.seqs ▸ List.nodup_range
  exact List.inj_on_of_nodup_map hnodup hracc' hracc hseq

theorem settled_counts {r : SendRequest} (hracc : r ∈ s.mem.accepted)
    (hqueued : ∀ e ∈ s.mem.sq.contents, e.seq ≠ r.seq)
    (hreporting : ∀ p ∈ s.pcs, p.reporting r.seq = false) : h.countP (·.about r.seq) = 1 ∧
      h.countP (·.succeeds r.seq) = s.mem.stream.countP (·.seq == r.seq) := by
  obtain ⟨hb, hk, hi, -⟩ := send_accounts hdirect hr
  have hone : s.mem.accepted.countP (·.seq == r.seq) = 1 := by
    have hnodup : (s.mem.accepted.map SendRequest.seq).Nodup := hi.seqs ▸ List.nodup_range
    have hcount := List.count_eq_one_of_mem hnodup (List.mem_map_of_mem hracc)
    rwa [List.count, List.countP_map] at hcount
  have hzero : s.mem.sq.contents.countP (·.seq == r.seq) = 0 :=
    List.countP_eq_zero.mpr fun e he => by simpa using hqueued e he
  have hnone : tally (SendAccount.request r.seq).part s.pcs = 0 :=
    tally_eq_zero _ fun p hp => by simp only [SendAccount.part, hreporting p hp]; rfl
  have hsucc : tally (SendAccount.outcome r.seq).part s.pcs = 0 := by
    refine tally_eq_zero _ fun p hp => if_neg fun hs => ?_
    rcases SendPc.of_succeeded hs with hrep | ⟨wc, rfl⟩
    · exact Bool.noConfusion ((hreporting p hp).symm.trans hrep)
    · obtain ⟨hpos, hseq, -⟩ := hk _ hp
      exact hqueued s.mem.sq.front (hi.wf.front_mem hpos) hseq.symm
  have hreq := hb (.request r.seq)
  have hout := hb (.outcome r.seq)
  rw [SendAccount.value, hone, hzero, hnone] at hreq
  rw [SendAccount.value, hsucc] at hout
  omega

theorem request_settled {r : SendRequest} (hracc : r ∈ s.mem.accepted)
    (hqueued : ∀ e ∈ s.mem.sq.contents, e.seq ≠ r.seq)
    (hreporting : ∀ p ∈ s.pcs, p.reporting r.seq = false) :
    ∃ sent, (sent = true ↔ r ∈ s.mem.stream) ∧
      (h.filter (·.about r.seq) = [.reported r.seq (r.wc cfg.qpNum sent)] ∨
        ∃ why, h.filter (·.about r.seq) = [.lost r.seq (r.wc cfg.qpNum sent) why]) := by
  obtain ⟨-, -, hi, htold⟩ := send_accounts hdirect hr
  obtain ⟨hone, hsucc⟩ := settled_counts hdirect hr hracc hqueued hreporting
  rw [List.countP_eq_length_filter] at hone
  obtain ⟨e, he⟩ := List.length_eq_one_iff.mp hone
  obtain ⟨hmem, habout⟩ := List.mem_filter.mp (he ▸ List.mem_cons_self)
  obtain ⟨seq, wc, ⟨r', hr', rfl, sent, rfl⟩, hevent⟩ := htold e hmem
  have hrr' : r' = r := by
    refine eq_of_seq hdirect hr hracc hr' ?_
    rcases hevent with rfl | ⟨why, rfl⟩ <;> simpa using habout
  subst hrr'
  refine ⟨sent, ?_, ?_⟩
  · have hfilter : h.countP (·.succeeds r'.seq) = [e].countP (·.succeeds r'.seq) := by
      rw [← he, List.countP_filter]
      refine List.countP_congr fun e' _ => ?_
      cases e' <;> simp <;> exact fun hseq _ => hseq
    have hsent : [e].countP (·.succeeds r'.seq) = if sent then 1 else 0 := by
      rcases hevent with rfl | ⟨why, rfl⟩ <;> cases sent <;> simp [SendRequest.wc]
    rw [hfilter, hsent] at hsucc
    constructor
    · rintro rfl
      have hpos : 0 < s.mem.stream.countP (·.seq == r'.seq) := by
        rw [← hsucc]
        exact Nat.one_pos
      obtain ⟨r'', hr'', hseq⟩ := List.countP_pos_iff.mp hpos
      rwa [← eq_of_seq hdirect hr hracc (hi.order.subset hr'') (by simpa using hseq)]
    · intro hstream
      by_contra hnot
      rw [if_neg hnot] at hsucc
      exact List.countP_eq_zero.mp hsucc.symm r' hstream (by simp)
  · rw [he]
    rcases hevent with rfl | ⟨why, rfl⟩
    · exact .inl rfl
    · exact .inr ⟨why, rfl⟩

/-- Whatever the posting threads, the worker, the application and the stream do: there is one
`stream_send` at a time, what is sent are the accepted requests in their order, each at most once
and with the bytes its buffer held when it was accepted, and a request that is neither queued nor
being reported has one completion, successful if and only if it was sent. The completion is in the
completion queue unless there is none or its ring was full. -/
theorem sends_ordered_once :
    (∀ (i j : Nat) (p q : SendPc), s.pcs[i]? = some p → s.pcs[j]? = some q →
      p.sending = true → q.sending = true → i = j) ∧
    s.mem.accepted.map SendRequest.seq = List.range s.mem.accepted.length ∧
    s.mem.stream.Sublist s.mem.accepted ∧
    ∀ r ∈ s.mem.accepted, (∃ e ∈ s.mem.sq.contents, e.seq = r.seq) ∨
      (∃ p ∈ s.pcs, p.reporting r.seq = true) ∨
      ∃ sent, (sent = true ↔ r ∈ s.mem.stream) ∧
        (h.filter (·.about r.seq) = [.reported r.seq (r.wc cfg.qpNum sent)] ∨
          ∃ why, h.filter (·.about r.seq) = [.lost r.seq (r.wc cfg.qpNum sent) why]) := by
  obtain ⟨-, -, hi, -⟩ := send_accounts hdirect hr
  refine ⟨fun i j p q => one_sending hdirect hr, hi.seqs, hi.order, fun r hracc => ?_⟩
  by_cases hqueued : ∃ e ∈ s.mem.sq.contents, e.seq = r.seq
  · exact .inl hqueued
  · by_cases hreporting : ∃ p ∈ s.pcs, p.reporting r.seq = true
    · exact .inr (.inl hreporting)
    · refine .inr (.inr (request_settled hdirect hr hracc (fun e he hseq => ?_) fun p hp => ?_))
      · exact hqueued ⟨e, he, hseq⟩
      · exact Bool.eq_false_iff.mpr fun hrep => hreporting ⟨p, hp, hrep⟩

end Runs

def defaultQp : QpConfig := ⟨true, false, false, fun _ => none, 7⟩

def openQp : QpMem := createQp 1 (some (.create 1)) (fun i => UInt8.ofNat i) fun _ _ => 0

def unpolledSend : List (Move SendStart SendRet) :=
  List.replicate 63 (.start (.otherPost ⟨0, .success, .recv, 1, 7⟩)) ++
    .start (.post [⟨1, [⟨10, 2, 0⟩]⟩]) :: List.replicate 4 (.run 0 .ok)

theorem full_cq_loses_completion : ∃ s h r,
    Reaches (sendProg defaultQp).step (fun _ _ a => hostSends defaultQp a = true) ⟨openQp, []⟩ s h ∧
      r ∈ s.mem.accepted ∧ r ∈ s.mem.stream ∧ s.mem.sq.contents = [] ∧
      (∀ p ∈ s.pcs, p = .returned none) ∧
      h.filter (·.about r.seq) = [.lost r.seq (r.wc 7 true) .ringFull] :=
  ⟨_, _, ⟨0, 1, [10, 11]⟩, .of_acts unpolledSend (by decide +kernel), by decide +kernel⟩

def mixedSends : List (Move SendStart SendRet) := List.flatten
  [[.start .worker, .start (.post [⟨1, [⟨10, 2, 0⟩]⟩])], List.replicate 4 (.run 1 .ok),
    [.start (.post [⟨2, [⟨20, 1, 0⟩]⟩, ⟨3, [⟨30, 1, 0⟩]⟩])], List.replicate 5 (.run 2 .ok),
    [.start (.write 20 [0]), .start (.write 30 [0]), .run 0 .ok, .run 0 .ok, .run 0 .again],
    List.replicate 8 (.run 0 .ok), [.run 0 .err, .run 0 .ok, .run 0 .ok]]

theorem sends_ordered_once_mixedSends : ∃ s h,
    Reaches (sendProg defaultQp).step (fun _ _ a => hostSends defaultQp a = true) ⟨openQp, []⟩ s h ∧
      s.mem.stream = [⟨0, 1, [10, 11]⟩, ⟨1, 2, [20]⟩] ∧ s.mem.stream.Sublist s.mem.accepted ∧
      .reported 2 ⟨3, .generalErr, .send, 0, 7⟩ ∈ h := by
  have hr : Reaches (sendProg defaultQp).step (fun _ _ a => hostSends defaultQp a = true)
      ⟨openQp, []⟩ _ _ := .of_acts mixedSends (by decide +kernel)
  obtain ⟨-, -, horder, -⟩ := sends_ordered_once rfl hr
  exact ⟨_, _, hr, by decide +kernel, horder, by decide +kernel⟩

end OdinLink
