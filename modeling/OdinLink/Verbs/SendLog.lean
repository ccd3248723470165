import OdinLink.Verbs.CompletionQueue
import OdinLink.Verbs.SendOrder

/-!
# What became of every work request

The queue pair together with a record of what happened to it: the work requests it accepted and the
messages it sent, each with the buffers as they were at that moment, and everything that was posted
to and polled from its completion queue. Nothing is assumed about the work requests.
-/

namespace OdinLink

open Threads History

structure Buffers where
  user : Mem
  dmabuf : Nat → Mem

def QpMem.buffers (m : QpMem) : Buffers := ⟨m.user, m.dmabuf⟩

/-- The completions in `posted` are in the order of the ring; those of the send queue come with
the number of their request. -/
structure QpLog where
  mem : QpMem
  requests : List (SendWr × Buffers)
  messages : List (SendRequest × Buffers)
  posted : List (Option Nat × Wc)
  polled : List Wc

def SendPc.accepting : SendPc → Option SendWr
  | .post (.inlineSend wr _) => some wr
  | .post (.loop (wr :: _)) => some wr
  | _ => none

def SendPc.owes : SendPc → Option Nat
  | .post (.inlineUnlock seq _) | .post (.inlineReport seq _) | .worker (.report seq _) => some seq
  | _ => none

def SendPc.finishes : SendPc → SendRet → Bool
  | .post (.inlineSend _ _), ret => ret == .ok
  | .worker (.dequeue _ _), _ => true
  | _, _ => false

@[simp] def SendEvent.posted : SendEvent → Option (Option Nat × Wc)
  | .reported seq wc => some (some seq, wc)
  | .lost _ _ _ => none

namespace QpLog

def create (maxSendWr : Nat) (cqe : Option Int) (user : Mem) (dmabuf : Nat → Mem) : QpLog :=
  ⟨createQp maxSendWr (cqe.map Cq.create) user dmabuf, [], [], [], []⟩

def ran (l : QpLog) (p : SendPc) (m : QpMem) (es : List SendEvent) : QpLog where
  mem := m
  requests := l.requests ++
    if l.mem.accepted.length < m.accepted.length then p.accepting.toList.map (·, l.mem.buffers)
    else []
  messages := l.messages ++ (m.stream.drop l.mem.stream.length).map (·, l.mem.buffers)
  posted := l.posted ++ es.filterMap SendEvent.posted
  polled := l.polled

def started (l : QpLog) (x : SendStart) (m : QpMem) : QpLog :=
  {l with
    mem := m,
    posted := l.posted ++
      match x with
      | .otherPost wc => if (l.mem.sendCq.bind (·.post wc)).isSome then [(none, wc)] else []
      | _ => [],
    polled := l.polled ++
      match x with
      | .pollCq n => (l.mem.sendCq.map fun cq => (cq.poll n).1).getD []
      | _ => []}

end QpLog

def logProg (cfg : QpConfig) : Prog QpLog SendPc SendStart SendRet SendEvent where
  start l x := (sendStart l.mem x).map fun r => (l.started x r.1, r.2)
  op l p ret := (sendOp cfg l.mem p ret).map fun r => (l.ran p r.1 r.2.2, r.2)

def Sge.copied (cfg : QpConfig) (sge : Sge) : Bool :=
  (cfg.lookupDmabuf sge.lkey).isNone && decide (0 < sge.length) && !cfg.directSend

def Buffers.sentFor (b : Buffers) (sge : Sge) : List UInt8 := b.user.read sge.addr sge.length

structure SendEntry.Holds (cfg : QpConfig) (e : SendEntry) (wr : SendWr) (b : Buffers) : Prop where
  wrId : e.wrId = wr.wrId
  numSge : e.numSge = wr.sgList.length
  data : ∀ sge ∈ wr.sgList.head?, e.lkey = sge.lkey ∧ e.len = sge.length ∧
    if sge.copied cfg then
      (∃ slot, e.addr = .bounce slot) ∧ e.bounceStorage.take e.len = b.sentFor sge
    else e.addr = .caller sge.addr

namespace QpLog

def done (l : QpLog) : Nat := l.requests.length - l.mem.sq.count

def messagesFor (l : QpLog) (n : Nat) : List (SendRequest × Buffers) :=
  l.messages.filter (·.1.seq == n)

/-- One message went out, with the data of the first SGE; none did for a request without SGEs, or
for a dma-buf. -/
def Sent (cfg : QpConfig) (l : QpLog) (n : Nat) (wr : SendWr) (b : Buffers) : Prop :=
  match wr.sgList with
  | [] => l.messagesFor n = []
  | sge :: _ =>
    if (cfg.lookupDmabuf sge.lkey).isSome then l.messagesFor n = []
    else ∃ r b', l.messagesFor n = [(r, b')] ∧
      r.bytes = (if sge.copied cfg then b else b').sentFor sge

def Outcome (cfg : QpConfig) (l : QpLog) (n : Nat) (wc : Wc) : Prop :=
  ∃ wr b, l.requests[n]? = some (wr, b) ∧ wc.wrId = wr.wrId ∧
    (wc.status = .success → l.Sent cfg n wr b)

def Settled (l : QpLog) : Prop := ∀ x ∈ l.messages, x.1.seq < l.done

structure Grows (l l' : QpLog) : Prop where
  requests : ∀ (n : Nat) (x : SendWr × Buffers), l.requests[n]? = some x → l'.requests[n]? = some x
  messages : ∀ n < l.done, l'.messagesFor n = l.messagesFor n
  done : l.done ≤ l'.done

end QpLog

structure LogInv (cfg : QpConfig) (l : QpLog) : Prop where
  wf : l.mem.sq.WF
  accepted : l.mem.accepted.length = l.requests.length
  stream : l.messages.map Prod.fst = l.mem.stream
  count_le : l.mem.sq.count ≤ l.requests.length
  queue : l.mem.sq.contents.map SendEntry.seq = List.range' l.done l.mem.sq.count
  entries : ∀ e ∈ l.mem.sq.contents, ∃ wr b, l.requests[e.seq]? = some (wr, b) ∧ e.Holds cfg wr b
  slots : ∀ j k, (l.mem.sq.slot j).addr = .bounce k → k = j
  idle : l.mem.workerRunning = false → l.Settled
  empty : l.mem.sq.count = 0 → l.Settled

/-- What a thread knows: the worker, that the request at the head was not sent before it tries. -/
def SendPc.Tracks (cfg : QpConfig) (l : QpLog) : SendPc → Prop
  | .post (.inlineSend wr sge) =>
    wr.sgList = [sge] ∧ cfg.lookupDmabuf sge.lkey = none ∧ l.mem.sq.count = 0
  | .post (.inlineUnlock seq wc) | .post (.inlineReport seq wc) =>
    seq < l.done ∧ l.Outcome cfg seq wc
  | .worker (.poll w) => l.Settled ∧ 0 < l.mem.sq.count ∧ w = l.mem.sq.front.peeked
  | .worker (.sending w) =>
    l.Settled ∧ 0 < l.mem.sq.count ∧ w = l.mem.sq.front.peeked ∧ 0 < w.numSge
  | .worker (.dequeue seq wc) =>
    0 < l.mem.sq.count ∧ seq = l.done ∧ l.Outcome cfg seq wc ∧
      ∀ x ∈ l.messages, x.1.seq < l.done + 1
  | .worker (.report seq wc) => l.Settled ∧ seq < l.done ∧ l.Outcome cfg seq wc
  | .worker .peek | .worker .retain => l.Settled
  | _ => True

section Kept
variable {cfg : QpConfig} {l l' : QpLog} {n : Nat} {wc : Wc} {q : SendPc}

theorem QpLog.Outcome.mono (ho : l.Outcome cfg n wc)
    (hreq : ∀ (n : Nat) (x : SendWr × Buffers), l.requests[n]? = some x → l'.requests[n]? = some x)
    (hmsg : l'.messagesFor n = l.messagesFor n) : l'.Outcome cfg n wc := by
  obtain ⟨wr, b, hr, hid, hsent⟩ := ho
  refine ⟨wr, b, hreq n (wr, b) hr, hid, fun hs => ?_⟩
  have hold := hsent hs
  rw [QpLog.Sent] at hold ⊢
  rwa [hmsg]

theorem QpLog.Settled.of_eq (hs : l.Settled) (hmsg : l'.messages = l.messages)
    (hdone : l'.done = l.done) : l'.Settled := by
  rw [QpLog.Settled, hmsg, hdone]
  exact hs

theorem QpLog.Grows.of_eq (hreq : ∃ u, l'.requests = l.requests ++ u)
    (hmsg : l'.messages = l.messages) (hdone : l.done ≤ l'.done) : l.Grows l' := by
  obtain ⟨u, hu⟩ := hreq
  refine ⟨fun n x hx => ?_, fun n _ => ?_, hdone⟩
  · rw [hu]
    exact getElem?_append_some hx
  · rw [QpLog.messagesFor, QpLog.messagesFor, hmsg]

theorem QpLog.Grows.outcome (hg : l.Grows l') (hn : n < l.done) (ho : l.Outcome cfg n wc) :
    n < l'.done ∧ l'.Outcome cfg n wc :=
  ⟨hn.trans_le hg.done, ho.mono hg.requests (hg.messages n hn)⟩

theorem SendPc.Tracks.of_poster (hk : q.Tracks cfg l) (hw : q.works = false)
    (hlocks : q.locks = true → l'.mem.sq.count = l.mem.sq.count) (hg : l.Grows l') :
    q.Tracks cfg l' := by
  rcases q with pc | pc | _
  · cases pc with
    | inlineSend wr sge => exact ⟨hk.1, hk.2.1, (hlocks rfl).trans hk.2.2⟩
    | inlineUnlock seq wc | inlineReport seq wc => exact hg.outcome hk.1 hk.2
    | lock wrs | loop wrs | unlock badWr => trivial
  · simp at hw
  · trivial

theorem SendPc.Tracks.of_worker {pc : WorkerPc} (hk : (SendPc.worker pc).Tracks cfg l)
    (hcount : 0 < l.mem.sq.count → 0 < l'.mem.sq.count ∧ l'.mem.sq.front = l.mem.sq.front ∧
      l'.done = l.done ∧ l'.messages = l.messages)
    (hsettled : l.Settled → l'.Settled) (hg : l.Grows l') : (SendPc.worker pc).Tracks cfg l' := by
  cases pc with
  | peek | retain => exact hsettled hk
  | report seq wc =>
    obtain ⟨hs, hlt, ho⟩ := hk
    exact ⟨hsettled hs, hg.outcome hlt ho⟩
  | poll w =>
    obtain ⟨hs, hpos, rfl⟩ := hk
    obtain ⟨hpos', hfront, -, -⟩ := hcount hpos
    exact ⟨hsettled hs, hpos', by rw [hfront]⟩
  | sending w =>
    obtain ⟨hs, hpos, rfl, hsge⟩ := hk
    obtain ⟨hpos', hfront, -, -⟩ := hcount hpos
    exact ⟨hsettled hs, hpos', by rw [hfront], hsge⟩
  | dequeue seq wc =>
    obtain ⟨hpos, rfl, ho, hlt⟩ := hk
    obtain ⟨hpos', hfront, hdone, hmsg⟩ := hcount hpos
    refine ⟨hpos', hdone.symm, ho.mono hg.requests ?_, ?_⟩
    · rw [QpLog.messagesFor, QpLog.messagesFor, hmsg]
    · rw [hmsg, hdone]
      exact hlt

structure QpLog.Same (l l' : QpLog) : Prop where
  sq : l'.mem.sq = l.mem.sq
  accepted : l'.mem.accepted = l.mem.accepted
  stream : l'.mem.stream = l.mem.stream
  requests : l'.requests = l.requests
  messages : l'.messages = l.messages

namespace QpLog.Same
variable (hsame : l.Same l')
include hsame

theorem done : l'.done = l.done := by
  rw [QpLog.done, QpLog.done, hsame.requests, hsame.sq]

theorem settled (hs : l.Settled) : l'.Settled := hs.of_eq hsame.messages hsame.done

theorem grows : l.Grows l' :=
  .of_eq ⟨[], by rw [hsame.requests, List.append_nil]⟩ hsame.messages hsame.done.ge

theorem tracks (hk : q.Tracks cfg l) : q.Tracks cfg l' := by
  rcases q with pc | pc | _
  · exact hk.of_poster rfl (fun _ => by rw [hsame.sq]) hsame.grows
  · refine hk.of_worker (fun hpos => ?_) hsame.settled hsame.grows
    rw [hsame.sq]
    exact ⟨hpos, rfl, hsame.done, hsame.messages⟩
  · trivial

theorem inv (hi : LogInv cfg l)
    (hw : l'.mem.workerRunning = false → l.mem.workerRunning = false) : LogInv cfg l' := by
  constructor
  · exact hsame.sq ▸ hi.wf
  · rw [hsame.accepted, hsame.requests]
    exact hi.accepted
  · rw [hsame.messages, hsame.stream]
    exact hi.stream
  · rw [hsame.sq, hsame.requests]
    exact hi.count_le
  · rw [hsame.sq, hsame.done]
    exact hi.queue
  · rw [hsame.sq, hsame.requests]
    exact hi.entries
  · exact hsame.sq ▸ hi.slots
  · exact fun h => hsame.settled (hi.idle (hw h))
  · rw [hsame.sq]
    exact fun h => hsame.settled (hi.empty h)

end QpLog.Same

end Kept

section Queue
variable {cfg : QpConfig} {l : QpLog} (hi : LogInv cfg l)
include hi

theorem LogInv.front (hpos : 0 < l.mem.sq.count) : l.mem.sq.front.seq = l.done ∧
    ∃ wr b, l.requests[l.done]? = some (wr, b) ∧ l.mem.sq.front.Holds cfg wr b := by
  have hqueue := hi.queue
  obtain ⟨n, hn⟩ := Nat.exists_eq_succ_of_ne_zero hpos.ne'
  rw [hi.wf.contents_eq_cons hpos, hn, List.range'_succ, List.map_cons, List.cons.injEq] at hqueue
  refine ⟨hqueue.1, ?_⟩
  rw [← hqueue.1]
  exact hi.entries _ (hi.wf.front_mem hpos)

theorem LogInv.payload_front {wr : SendWr} {b : Buffers}
    (hholds : l.mem.sq.front.Holds cfg wr b) {sge : Sge} (hsge : sge ∈ wr.sgList.head?) :
    l.mem.payload l.mem.sq.front.peeked =
      (if sge.copied cfg then b else l.mem.buffers).sentFor sge := by
  obtain ⟨-, hlen, hdata⟩ := hholds.data sge hsge
  simp only [QpMem.payload, SendEntry.peeked, hlen]
  by_cases hcopied : sge.copied cfg = true
  · rw [if_pos hcopied] at hdata ⊢
    obtain ⟨⟨slot, haddr⟩, hstored⟩ := hdata
    have hslot : slot = l.mem.sq.head := hi.slots _ _ haddr
    rw [hlen] at hstored
    rw [haddr, hslot, ← hstored]
    rfl
  · rw [if_neg hcopied] at hdata ⊢
    rw [hdata, Buffers.sentFor]
    rfl

end Queue

section Steps
variable {cfg : QpConfig} {l l' : QpLog} {m' : QpMem} {p p' : SendPc} {x : SendRet}
  {es : List SendEvent}
variable {wr : SendWr} {wrs : List SendWr} {r : SendRequest} {e : SendEntry} {wc : Wc}

/-- An operation of thread `p` keeps the invariant, what the threads know, and everything known of
requests that are off the queue. -/
structure LogStep (cfg : QpConfig) (l : QpLog) (p : SendPc) (l' : QpLog) (p' : SendPc) : Prop where
  inv : LogInv cfg l'
  own : p'.Tracks cfg l'
  others : ∀ q : SendPc, q.Tracks cfg l → (p.works = true → q.works = false) →
    (p.locks = true → q.locks = false) → (q.locks = true → l.mem.sqLock = true) → q.Tracks cfg l'
  grows : l.Grows l'

theorem ran_same (hsq : m'.sq = l.mem.sq) (hacc : m'.accepted = l.mem.accepted)
    (hstream : m'.stream = l.mem.stream) : l.Same (l.ran p m' es) := by
  refine ⟨hsq, hacc, hstream, ?_, ?_⟩
  · simp [QpLog.ran, hacc]
  · simp [QpLog.ran, hstream]

theorem quiet_step (hi : LogInv cfg l) (hown : p'.Tracks cfg l := by exact trivial)
    (hsq : m'.sq = l.mem.sq := by rfl) (hacc : m'.accepted = l.mem.accepted := by rfl)
    (hstream : m'.stream = l.mem.stream := by rfl)
    (hw : m'.workerRunning = l.mem.workerRunning := by rfl) :
    LogStep cfg l p (l.ran p m' es) p' :=
  have hsame : l.Same (l.ran p m' es) := ran_same hsq hacc hstream
  { inv := hsame.inv hi fun h => hw.symm.trans h
    own := hsame.tracks hown
    others := fun _ hq _ _ _ => hsame.tracks hq
    grows := hsame.grows }

theorem messagesFor_append {b : Buffers} (hmsg : l'.messages = l.messages ++ [(r, b)]) {n : Nat} :
    l'.messagesFor n = l.messagesFor n ++ if r.seq = n then [(r, b)] else [] := by
  rw [QpLog.messagesFor, QpLog.messagesFor, hmsg, List.filter_append, List.filter_singleton,
    Bool.cond_eq_ite]
  simp only [beq_iff_eq]

theorem QpLog.Settled.messagesFor_eq_nil (hs : l.Settled) {n : Nat} (hn : l.done ≤ n) :
    l.messagesFor n = [] := by
  refine List.filter_eq_nil_iff.mpr fun x hx => ?_
  have hlt := hs x hx
  simp only [beq_iff_eq]
  omega

/-- An answer to the request at the front, when nothing of it was put on the stream. -/
theorem LogInv.dequeues (hi : LogInv cfg l) (hs : l.Settled) (hpos : 0 < l.mem.sq.count)
    (hwc : wc.wrId = l.mem.sq.front.peeked.wrId)
    (hsent : ∀ wr b, l.mem.sq.front.Holds cfg wr b → l.messagesFor l.mem.sq.front.seq = [] →
      wc.status = .success → l.Sent cfg l.mem.sq.front.seq wr b) :
    (SendPc.worker (.dequeue l.mem.sq.front.seq wc)).Tracks cfg l := by
  obtain ⟨hfront, wr, b, hr, hholds⟩ := hi.front hpos
  refine ⟨hpos, hfront, ⟨wr, b, by rwa [hfront], hwc.trans hholds.wrId, ?_⟩, fun x hx => ?_⟩
  · exact hsent wr b hholds (hs.messagesFor_eq_nil hfront.ge)
  · exact (hs x hx).trans (Nat.lt_succ_self _)

theorem inline_step {sge : Sge} (hi : LogInv cfg l)
    (hk : (SendPc.post (.inlineSend wr sge)).Tracks cfg l)
    (hseq : r.seq = l.requests.length) (hbytes : r.bytes = l.mem.user.read sge.addr sge.length)
    (hwc : wc.wrId = wr.wrId) (hsq : l'.mem.sq = l.mem.sq)
    (hacc : l'.mem.accepted.length = l.mem.accepted.length + 1)
    (hstream : l'.mem.stream = l.mem.stream ++ [r])
    (hreq : l'.requests = l.requests ++ [(wr, l.mem.buffers)])
    (hmsg : l'.messages = l.messages ++ [(r, l.mem.buffers)]) :
    LogStep cfg l (.post (.inlineSend wr sge)) l' (.post (.inlineUnlock r.seq wc)) := by
  obtain ⟨hsgl, hnone, hempty⟩ := hk
  have hidle : l.Settled := hi.empty hempty
  have hdone : l.done = l.requests.length := by rw [QpLog.done, hempty, Nat.sub_zero]
  have hdone' : l'.done = l.done + 1 := by
    rw [QpLog.done, hsq, hreq, hempty, hdone]
    simp
  have hnil : l.mem.sq.contents = [] := List.length_eq_zero_iff.mp (by simp [hempty])
  have hsettled : l'.Settled := by
    intro x hx
    rw [hmsg, List.mem_append, List.mem_singleton] at hx
    rcases hx with hx | rfl
    · have hlt := hidle x hx
      omega
    · simp only
      omega
  have hgrows : l.Grows l' := by
    refine ⟨fun n x hx => ?_, fun n hn => ?_, by omega⟩
    · rw [hreq]
      exact getElem?_append_some hx
    · rw [messagesFor_append hmsg, if_neg (by omega), List.append_nil]
  refine ⟨⟨hsq ▸ hi.wf, ?_, ?_, ?_, ?_, ?_, hsq ▸ hi.slots, fun _ => hsettled,
    fun _ => hsettled⟩, ⟨by omega, ?_⟩, ?_, hgrows⟩
  · rw [hacc, hi.accepted, hreq, List.length_append, List.length_singleton]
  · rw [hmsg, List.map_append, hi.stream, hstream]
    rfl
  · rw [hsq, hempty]
    exact Nat.zero_le _
  · rw [hsq, hnil, hempty]
    rfl
  · rw [hsq, hnil]
    simp
  · refine ⟨wr, l.mem.buffers, ?_, hwc, fun _ => ?_⟩
    · rw [hreq, hseq, List.getElem?_concat_length]
    · simp only [QpLog.Sent, hsgl, hnone, Option.isSome_none, Bool.false_eq_true, if_false]
      refine ⟨r, l.mem.buffers, ?_, ?_⟩
      · rw [messagesFor_append hmsg, if_pos rfl, hidle.messagesFor_eq_nil (by omega), List.nil_append]
      · rw [ite_self, hbytes, Buffers.sentFor]
        rfl
  · intro q hq _ _ _
    rcases q with pc | pc | _
    · exact hq.of_poster rfl (fun _ => by rw [hsq]) hgrows
    · exact hq.of_worker (fun hpos => absurd hempty hpos.ne') (fun _ => hsettled) hgrows
    · trivial

theorem fillEntry_holds {ok : Bool}
    (hfill : l.mem.fillEntry cfg wr ok = some e) : e.seq = l.mem.accepted.length ∧
      e.Holds cfg wr l.mem.buffers ∧ ∀ k, e.addr = .bounce k → k = l.mem.sq.tail := by
  rw [QpMem.fillEntry] at hfill
  cases hsgl : wr.sgList with
  | nil =>
    simp only [hsgl, Option.some.injEq] at hfill
    subst hfill
    refine ⟨rfl, ⟨rfl, by rw [hsgl], by simp [hsgl]⟩, by simp⟩
  | cons sge rest =>
    have hread : (l.mem.user.read sge.addr sge.length).length = sge.length := Mem.read_length _ _ _
    simp only [hsgl] at hfill
    split at hfill
    · rename_i hcopied
      obtain ⟨e', hres, rfl⟩ := Option.map_eq_some_iff.mp hfill
      obtain ⟨hseq, hwr, hnum⟩ := reserve_same hres
      refine ⟨hseq, ⟨hwr, hnum.trans (by rw [hsgl]), ?_⟩, by simp [eq_comm]⟩
      intro s hs
      obtain rfl : sge = s := by simpa [hsgl] using hs
      refine ⟨rfl, rfl, ?_⟩
      rw [if_pos (show sge.copied cfg = true from hcopied)]
      refine ⟨⟨_, rfl⟩, ?_⟩
      simp only [bounceCopy_eq, Buffers.sentFor]
      exact List.take_left' hread
    · rename_i hcopied
      cases hfill
      refine ⟨rfl, ⟨rfl, by rw [hsgl], ?_⟩, by simp⟩
      intro s hs
      obtain rfl : sge = s := by simpa [hsgl] using hs
      refine ⟨rfl, rfl, ?_⟩
      rw [if_neg (show ¬ sge.copied cfg = true from hcopied)]

theorem queue_step {ok : Bool} (hi : LogInv cfg l) (hroom : l.mem.sq.count < l.mem.sq.depth)
    (hfill : l.mem.fillEntry cfg wr ok = some e) (hsq : l'.mem.sq = l.mem.sq.push e)
    (hacc : l'.mem.accepted.length = l.mem.accepted.length + 1)
    (hstream : l'.mem.stream = l.mem.stream) (hw : l'.mem.workerRunning = l.mem.workerRunning)
    (hreq : l'.requests = l.requests ++ [(wr, l.mem.buffers)]) (hmsg : l'.messages = l.messages) :
    LogStep cfg l (.post (.loop (wr :: wrs))) l' (.post (.loop wrs)) := by
  obtain ⟨hseq, hholds, hbounce⟩ := fillEntry_holds hfill
  have hle := hi.count_le
  have hcount : l'.mem.sq.count = l.mem.sq.count + 1 := by rw [hsq, CircularBuffer.push_count]
  have hdone : l'.done = l.done := by
    rw [QpLog.done, QpLog.done, hcount, hreq, List.length_append, List.length_singleton]
    omega
  have hcontents : l'.mem.sq.contents = l.mem.sq.contents ++ [e] := by
    rw [hsq, hi.wf.contents_push hroom]
  have hsettled (hs : l.Settled) : l'.Settled := hs.of_eq hmsg hdone
  have hgrows : l.Grows l' := .of_eq ⟨_, hreq⟩ hmsg hdone.ge
  refine ⟨⟨hsq ▸ hi.wf.push hroom e, ?_, ?_, ?_, ?_, ?_, ?_, ?_, fun h => ?_⟩, trivial, ?_, hgrows⟩
  · rw [hacc, hi.accepted, hreq, List.length_append, List.length_singleton]
  · rw [hmsg, hstream]
    exact hi.stream
  · rw [hcount, hreq, List.length_append, List.length_singleton]
    omega
  · have hlast : l.done + 1 * l.mem.sq.count = e.seq := by
      rw [hseq, hi.accepted, QpLog.done]
      omega
    rw [hcontents, List.map_append, hi.queue, hdone, hcount, List.range'_concat, hlast]
    rfl
  · intro e' he'
    rw [hcontents, List.mem_append, List.mem_singleton] at he'
    rw [hreq]
    rcases he' with he' | rfl
    · obtain ⟨wr', b, hr, hh⟩ := hi.entries e' he'
      exact ⟨wr', b, getElem?_append_some hr, hh⟩
    · refine ⟨wr, l.mem.buffers, ?_, hholds⟩
      rw [hseq, hi.accepted, List.getElem?_concat_length]
  · rw [hsq]
    exact CircularBuffer.write_slots (P := fun j (s : SendEntry) =>
      ∀ k, s.addr = .bounce k → k = j) hi.slots hbounce
  · rw [hw]
    exact fun h => hsettled (hi.idle h)
  · omega
  · intro q hq _ hlocks _
    rcases q with pc | pc | _
    · exact hq.of_poster rfl (fun hl => absurd hl (by rw [hlocks rfl]; decide)) hgrows
    · refine hq.of_worker (fun hpos => ?_) hsettled hgrows
      rw [hsq]
      exact ⟨Nat.succ_pos _, hi.wf.front_push hpos hroom e, hdone, hmsg⟩
    · trivial

theorem unqueued_step (hi : LogInv cfg l)
    (hroom : l.mem.sq.count < l.mem.sq.depth) (haddr : e.addr = (l.mem.sq.slot l.mem.sq.tail).addr)
    (hsq : l'.mem.sq = l.mem.sq.write e) (hacc : l'.mem.accepted = l.mem.accepted)
    (hstream : l'.mem.stream = l.mem.stream) (hw : l'.mem.workerRunning = l.mem.workerRunning)
    (hreq : l'.requests = l.requests) (hmsg : l'.messages = l.messages) :
    LogStep cfg l (.post (.loop (wr :: wrs))) l' (.post (.unlock (some wr))) := by
  have hcount : l'.mem.sq.count = l.mem.sq.count := by rw [hsq, CircularBuffer.write_count]
  have hcontents : l'.mem.sq.contents = l.mem.sq.contents := by
    rw [hsq, hi.wf.contents_write hroom]
  have hdone : l'.done = l.done := by rw [QpLog.done, QpLog.done, hcount, hreq]
  have hsettled (hs : l.Settled) : l'.Settled := hs.of_eq hmsg hdone
  have hgrows : l.Grows l' := .of_eq ⟨[], by rw [hreq, List.append_nil]⟩ hmsg hdone.ge
  refine ⟨⟨hsq ▸ hi.wf.write e, ?_, ?_, ?_, ?_, ?_, ?_, ?_, ?_⟩, trivial, ?_, hgrows⟩
  · rw [hacc, hreq]
    exact hi.accepted
  · rw [hmsg, hstream]
    exact hi.stream
  · rw [hcount, hreq]
    exact hi.count_le
  · rw [hcontents, hdone, hcount]
    exact hi.queue
  · rw [hcontents, hreq]
    exact hi.entries
  · rw [hsq]
    refine CircularBuffer.write_slots (P := fun j (s : SendEntry) =>
      ∀ k, s.addr = .bounce k → k = j) hi.slots ?_
    rw [haddr]
    exact hi.slots _
  · rw [hw]
    exact fun h => hsettled (hi.idle h)
  · rw [hcount]
    exact fun h => hsettled (hi.empty h)
  · intro q hq _ _ _
    rcases q with pc | pc | _
    · exact hq.of_poster rfl (fun _ => hcount) hgrows
    · refine hq.of_worker (fun hpos => ?_) hsettled hgrows
      rw [hcount, hsq]
      exact ⟨hpos, hi.wf.front_write hpos hroom e, hdone, hmsg⟩
    · trivial

theorem worker_step {w : PeekedWr} (hi : LogInv cfg l)
    (hk : (SendPc.worker (.sending w)).Tracks cfg l) (hrunning : l'.mem.workerRunning = true)
    (hnone : cfg.lookupDmabuf w.lkey = none)
    (hseq : r.seq = w.seq) (hbytes : r.bytes = l.mem.payload w) (hwc : wc.wrId = w.wrId)
    (hsq : l'.mem.sq = l.mem.sq) (hacc : l'.mem.accepted = l.mem.accepted)
    (hstream : l'.mem.stream = l.mem.stream ++ [r]) (hreq : l'.requests = l.requests)
    (hmsg : l'.messages = l.messages ++ [(r, l.mem.buffers)]) :
    LogStep cfg l (.worker (.sending w)) l' (.worker (.dequeue w.seq wc)) := by
  obtain ⟨hs, hpos, rfl, hsge⟩ := hk
  obtain ⟨hfront, wr, b, hr, hholds⟩ := hi.front hpos
  change l.mem.sq.front.peeked.seq = l.done at hfront
  rw [hfront] at hseq ⊢
  have hdone : l'.done = l.done := by rw [QpLog.done, QpLog.done, hsq, hreq]
  have hgrows : l.Grows l' := by
    refine ⟨fun n x hx => by rwa [hreq], fun n hn => ?_, hdone.ge⟩
    rw [messagesFor_append hmsg, if_neg (by omega), List.append_nil]
  refine ⟨⟨hsq ▸ hi.wf, ?_, ?_, ?_, ?_, ?_, hsq ▸ hi.slots, ?_, ?_⟩, ⟨hsq ▸ hpos, ?_, ?_, ?_⟩, ?_,
    hgrows⟩
  · rw [hacc, hreq]
    exact hi.accepted
  · rw [hmsg, List.map_append, hi.stream, hstream]
    rfl
  · rw [hsq, hreq]
    exact hi.count_le
  · rw [hsq, hdone]
    exact hi.queue
  · rw [hsq, hreq]
    exact hi.entries
  · rw [hrunning]
    exact fun h => Bool.noConfusion h
  · rw [hsq]
    exact fun h => absurd h hpos.ne'
  · exact hdone.symm
  · refine ⟨wr, b, ?_, hwc.trans hholds.wrId, fun _ => ?_⟩
    · rw [hreq]
      exact hr
    · rw [QpLog.Sent]
      cases hsgl : wr.sgList with
      | nil =>
        have hnum : l.mem.sq.front.peeked.numSge = 0 := hholds.numSge.trans (by rw [hsgl]; rfl)
        omega
      | cons sge rest =>
        have hhead : sge ∈ wr.sgList.head? := by simp [hsgl]
        have hhost : cfg.lookupDmabuf sge.lkey = none := (hholds.data sge hhead).1 ▸ hnone
        simp only [hhost, Option.isSome_none, Bool.false_eq_true, if_false]
        refine ⟨r, l.mem.buffers, ?_, ?_⟩
        · rw [messagesFor_append hmsg, if_pos hseq, hs.messagesFor_eq_nil le_rfl, List.nil_append]
        · rw [hbytes]
          exact hi.payload_front hholds hhead
  · intro x hx
    rw [hmsg, List.mem_append, List.mem_singleton] at hx
    rw [hdone]
    rcases hx with hx | rfl
    · exact (hs x hx).trans (Nat.lt_succ_self _)
    · simp only
      omega
  · intro q hq hworks _ _
    exact hq.of_poster (hworks rfl) (fun _ => by rw [hsq]) hgrows

theorem pop_step {seq : Nat} (hi : LogInv cfg l)
    (hk : (SendPc.worker (.dequeue seq wc)).Tracks cfg l) (hfree : l.mem.sqLock = false)
    (hsq : l'.mem.sq = l.mem.sq.pop) (hacc : l'.mem.accepted = l.mem.accepted)
    (hstream : l'.mem.stream = l.mem.stream) (hreq : l'.requests = l.requests)
    (hmsg : l'.messages = l.messages) :
    LogStep cfg l (.worker (.dequeue seq wc)) l' (.worker (.report seq wc)) := by
  obtain ⟨hpos, rfl, ho, hlt⟩ := hk
  have hle := hi.count_le
  have hcount : l'.mem.sq.count = l.mem.sq.count - 1 := by rw [hsq, CircularBuffer.pop_count]
  have hdone : l'.done = l.done + 1 := by
    rw [QpLog.done, QpLog.done, hcount, hreq]
    omega
  have hcontents : l.mem.sq.contents = l.mem.sq.front :: l'.mem.sq.contents := by
    rw [hsq, hi.wf.contents_eq_cons hpos]
  have hsettled : l'.Settled := by
    rw [QpLog.Settled, hmsg, hdone]
    exact hlt
  have hfor (n : Nat) : l'.messagesFor n = l.messagesFor n := by
    rw [QpLog.messagesFor, QpLog.messagesFor, hmsg]
  have hgrows : l.Grows l' := ⟨fun n x hx => by rwa [hreq], fun n _ => hfor n, by omega⟩
  refine ⟨⟨hsq ▸ hi.wf.pop hpos, ?_, ?_, ?_, ?_, ?_, hsq ▸ hi.slots, fun _ => hsettled,
    fun _ => hsettled⟩, ⟨hsettled, by omega, ho.mono hgrows.requests (hfor _)⟩, ?_, hgrows⟩
  · rw [hacc, hreq]
    exact hi.accepted
  · rw [hmsg, hstream]
    exact hi.stream
  · rw [hcount, hreq]
    omega
  · have hqueue := hi.queue
    obtain ⟨n, hn⟩ := Nat.exists_eq_succ_of_ne_zero hpos.ne'
    rw [hcontents, hn, List.range'_succ, List.map_cons, List.cons.injEq] at hqueue
    rw [hqueue.2, hdone, hcount, hn]
    rfl
  · intro e he
    rw [hreq]
    exact hi.entries e (hcontents ▸ List.mem_cons_of_mem _ he)
  · intro q hq hworks _ hlock
    refine hq.of_poster (hworks rfl) (fun hl => ?_) hgrows
    exact Bool.noConfusion (hfree.symm.trans (hlock hl))

theorem postOp_log {pc : PostPc} (hi : LogInv cfg l) (hk : (SendPc.post pc).Tracks cfg l)
    (ho : postOp cfg l.mem pc x = some (m', p', es)) :
    LogStep cfg l (.post pc) (l.ran (.post pc) m' es) p' := by
  cases pc with
  | lock wrs =>
    rw [postOp] at ho
    split at ho
    · contradiction
    · cases ho
      refine quiet_step hi ?_
      split
      · exact inlineSge_spec ‹_›
      · trivial
  | inlineSend wr sge =>
    rw [postOp] at ho
    split at ho
    · cases ho
      refine inline_step (r := ⟨l.mem.accepted.length, _, _⟩) hi hk hi.accepted rfl rfl rfl ?_ rfl ?_ ?_
      · simp [QpLog.ran]
      · simp [QpLog.ran, SendPc.accepting]
      · simp [QpLog.ran]
    · cases ho
      exact quiet_step hi
  | inlineUnlock seq wc =>
    cases ho
    exact quiet_step hi hk
  | inlineReport seq wc =>
    cases ho
    obtain ⟨hsq, hacc, hstream, hw, -⟩ := cqPost_same (m := l.mem) seq wc
    exact quiet_step hi trivial hsq hacc hstream hw
  | loop wrs =>
    cases wrs with
    | nil =>
      cases ho
      exact quiet_step hi
    | cons wr wrs =>
      rw [postOp] at ho
      split at ho
      · cases ho
        exact quiet_step hi
      · have hroom : l.mem.sq.count < l.mem.sq.depth := by omega
        split at ho
        · cases ho
          refine unqueued_step hi hroom ?_ rfl rfl rfl rfl ?_ ?_
          · rfl
          · simp [QpLog.ran]
          · simp [QpLog.ran]
        · rename_i e hfill
          cases ho
          refine queue_step hi hroom hfill rfl ?_ rfl rfl ?_ ?_
          · simp [QpLog.ran]
          · simp [QpLog.ran, SendPc.accepting]
          · simp [QpLog.ran]
  | unlock badWr =>
    cases ho
    exact quiet_step hi

theorem workerOp_log {pc : WorkerPc} (hi : LogInv cfg l) (hk : (SendPc.worker pc).Tracks cfg l)
    (hrunning : l.mem.workerRunning = true) (ho : workerOp cfg l.mem pc x = some (m', p', es)) :
    LogStep cfg l (.worker pc) (l.ran (.worker pc) m' es) p' := by
  cases pc with
  | peek =>
    rw [workerOp] at ho
    split at ho
    · contradiction
    · split at ho
      · rename_i hpos
        cases ho
        exact quiet_step hi ⟨hk, hpos, rfl⟩
      · cases ho
        exact quiet_step hi hk
  | poll w =>
    obtain ⟨hs, hpos, rfl⟩ := hk
    rw [workerOp] at ho
    split at ho
    · rename_i hsge
      cases ho
      exact quiet_step hi ⟨hs, hpos, rfl, hsge⟩
    · rename_i hsge
      cases ho
      -- a request without SGEs is reported as sent
      refine quiet_step hi (hi.dequeues hs hpos rfl fun wr b hholds hnone _ => ?_)
      have hnum : l.mem.sq.front.peeked.numSge = wr.sgList.length := hholds.numSge
      have hnil : wr.sgList = [] := List.length_eq_zero_iff.mp (by omega)
      rw [QpLog.Sent, hnil]
      exact hnone
  | sending w =>
    cases x with
    | ok =>
      cases hdma : cfg.lookupDmabuf w.lkey with
      | none =>
        rw [workerOp, hdma, if_neg (by simp)] at ho
        cases ho
        refine worker_step (r := ⟨w.seq, w.wrId, l.mem.payload w⟩) hi hk hrunning hdma rfl rfl rfl
          rfl rfl rfl ?_ ?_
        · simp [QpLog.ran]
        · simp [QpLog.ran]
      | some fd =>
        rw [workerOp, hdma, if_pos (by simp), List.append_nil] at ho
        cases ho
        obtain ⟨hs, hpos, rfl, -⟩ := hk
        refine quiet_step hi (hi.dequeues hs hpos rfl fun wr b hholds hnone _ => ?_)
        rw [QpLog.Sent]
        split
        · exact hnone
        · rename_i sge _ hsgl
          have hlkey := (hholds.data sge (by simp [hsgl])).1
          rw [if_pos (by rw [← hlkey]; exact Option.isSome_of_eq_some hdma)]
          exact hnone
    | again =>
      cases ho
      exact quiet_step hi hk.1
    | err =>
      cases ho
      obtain ⟨hs, hpos, rfl, -⟩ := hk
      exact quiet_step hi (hi.dequeues hs hpos rfl (by simp))
  | retain =>
    rw [workerOp] at ho
    split at ho
    · contradiction
    · cases ho
      exact quiet_step hi hk
  | dequeue seq wc =>
    rw [workerOp] at ho
    split at ho
    · contradiction
    · rename_i hfree
      cases ho
      refine pop_step hi hk (Bool.eq_false_iff.mpr hfree) rfl rfl rfl ?_ ?_
      · simp [QpLog.ran]
      · simp [QpLog.ran]
  | report seq wc =>
    cases ho
    obtain ⟨hsq, hacc, hstream, hw, -⟩ := cqPost_same (m := l.mem) seq wc
    exact quiet_step hi hk.1 hsq hacc hstream hw

theorem sendOp_log (hi : LogInv cfg l) (hk : p.Tracks cfg l)
    (hrunning : p.works = true → l.mem.workerRunning = true)
    (ho : sendOp cfg l.mem p x = some (m', p', es)) : LogStep cfg l p (l.ran p m' es) p' := by
  cases p with
  | post pc => exact postOp_log hi hk ho
  | worker pc => exact workerOp_log hi hk (hrunning rfl) ho
  | returned badWr => cases ho

end Steps

section Ring
variable {cfg : QpConfig} {l : QpLog} {m' : QpMem} {p p' : SendPc} {x : SendRet}
  {es : List SendEvent}

structure RingInv (l : QpLog) : Prop where
  wf : ∀ cq ∈ l.mem.sendCq, cq.WF
  fifo : l.posted.map Prod.snd = l.polled ++ (l.mem.sendCq.map Cq.contents).getD []

def PostedInv (cfg : QpConfig) (l : QpLog) : Prop :=
  ∀ n wc, (some n, wc) ∈ l.posted → n < l.done ∧ l.Outcome cfg n wc

theorem cqPost_ring {seq : Nat} {wc : Wc} (hring : RingInv l) {cq' : Option Cq}
    (hcq : cq' = (cqPost l.mem seq wc).1.sendCq) :
    (∀ cq ∈ cq', cq.WF) ∧ (l.posted ++ (cqPost l.mem seq wc).2.filterMap SendEvent.posted).map
      Prod.snd = l.polled ++ (cq'.map Cq.contents).getD [] := by
  have hfifo := hring.fifo
  rw [cqPost] at hcq ⊢
  cases hcq0 : l.mem.sendCq with
  | none =>
    rw [hcq0] at hfifo
    simp only [hcq0] at hcq ⊢
    subst hcq
    simpa [hcq0, List.filterMap_cons] using hfifo
  | some cq =>
    rw [hcq0] at hfifo
    have hwf := hring.wf cq hcq0
    simp only [hcq0] at hcq ⊢
    cases hpost : cq.post wc with
    | none =>
      simp only [hpost] at hcq ⊢
      subst hcq
      refine ⟨hring.wf, ?_⟩
      simpa [hcq0, List.filterMap_cons] using hfifo
    | some cq₁ =>
      obtain ⟨hwf', hcontents⟩ := hwf.post hpost
      simp only [hpost] at hcq ⊢
      subst hcq
      refine ⟨by simpa using hwf', ?_⟩
      simp only [Option.map_some, Option.getD_some] at hfifo ⊢
      rw [List.map_append, hfifo, hcontents, List.append_assoc]
      rfl

theorem sendOp_effect {m : QpMem} (ho : sendOp cfg m p x = some (m', p', es)) :
    ((p.locks = true → m.sqLock = true) → one m'.sqLock + one p.locks = one m.sqLock + one p'.locks ∧
      m'.workerRunning = m.workerRunning ∧ p'.works = p.works) ∧
    (es = [] ∧ m'.sendCq = m.sendCq ∧
        (p'.owes = p.owes ∨ p.finishes x = true ∧ p.owes = none ∧
          (p'.owes = some m.accepted.length ∨
            ∃ seq wc, p = .worker (.dequeue seq wc) ∧ p'.owes = some seq)) ∨
      ∃ seq wc, (p = .post (.inlineReport seq wc) ∨ p = .worker (.report seq wc)) ∧
        es = (cqPost m seq wc).2 ∧ m'.sendCq = (cqPost m seq wc).1.sendCq ∧ p'.owes = none) := by
  rcases p with (wrs | ⟨wr, sge⟩ | _ | ⟨seq, wc⟩ | wrs | _) | pc | _
  · simp only [sendOp, postOp] at ho
    split at ho
    · contradiction
    · cases ho
      refine ⟨fun _ => ?_, .inl ⟨rfl, rfl, .inl ?_⟩⟩
      · split <;> simp [*]
      · split <;> rfl
  · simp only [sendOp, postOp] at ho
    split at ho
    · rename_i hok
      cases ho
      exact ⟨fun _ => by simp, .inl ⟨rfl, rfl, .inr ⟨by rw [hok]; rfl, rfl, .inl rfl⟩⟩⟩
    · cases ho
      exact ⟨fun _ => by simp, .inl ⟨rfl, rfl, .inl rfl⟩⟩
  · cases ho
    exact ⟨fun hlock => by simp [hlock rfl], .inl ⟨rfl, rfl, .inl rfl⟩⟩
  · cases ho
    obtain ⟨-, -, -, hw, hl⟩ := cqPost_same (m := m) seq wc
    exact ⟨fun _ => by simp [hw, hl], .inr ⟨seq, wc, .inl rfl, rfl, rfl, rfl⟩⟩
  · cases wrs
    all_goals
      simp only [sendOp, postOp] at ho
      repeat' split at ho
      all_goals cases ho
      all_goals exact ⟨fun _ => by simp, .inl ⟨rfl, rfl, .inl rfl⟩⟩
  · cases ho
    exact ⟨fun hlock => by simp [hlock rfl], .inl ⟨rfl, rfl, .inl rfl⟩⟩
  · cases pc with
    | sending w => cases x <;> cases ho <;> exact ⟨fun _ => by simp, .inl ⟨rfl, rfl, .inl rfl⟩⟩
    | peek | poll w | retain =>
      simp only [sendOp, workerOp] at ho
      repeat' split at ho
      all_goals cases ho
      all_goals exact ⟨fun _ => by simp, .inl ⟨rfl, rfl, .inl rfl⟩⟩
    | dequeue seq wc =>
      simp only [sendOp, workerOp] at ho
      split at ho
      · contradiction
      · cases ho
        exact ⟨fun _ => by simp, .inl ⟨rfl, rfl, .inr ⟨rfl, rfl, .inr ⟨seq, wc, rfl, rfl⟩⟩⟩⟩
    | report seq wc =>
      cases ho
      obtain ⟨-, -, -, hw, hl⟩ := cqPost_same (m := m) seq wc
      exact ⟨fun _ => by simp [hw, hl], .inr ⟨seq, wc, .inr rfl, rfl, rfl, rfl⟩⟩
  · cases ho

theorem cqPost_posted {m : QpMem} {seq n : Nat} {wc wc' : Wc}
    (hmem : (some n, wc') ∈ (cqPost m seq wc).2.filterMap SendEvent.posted) :
    n = seq ∧ wc' = wc := by
  rcases cqPost_events (m := m) seq wc with hes | ⟨why, hes⟩
  · rw [hes] at hmem
    simpa [SendEvent.posted] using hmem
  · rw [hes] at hmem
    simp [SendEvent.posted] at hmem

theorem sendOp_ring (hring : RingInv l) (ho : sendOp cfg l.mem p x = some (m', p', es)) :
    RingInv (l.ran p m' es) := by
  rcases (sendOp_effect ho).2 with ⟨rfl, hcq, -⟩ | ⟨seq, wc, -, rfl, hcq, -⟩
  · constructor
    · change ∀ cq ∈ m'.sendCq, cq.WF
      rw [hcq]
      exact hring.wf
    · change (l.posted ++ []).map Prod.snd = l.polled ++ (m'.sendCq.map Cq.contents).getD []
      rw [hcq, List.append_nil]
      exact hring.fifo
  · obtain ⟨hwf, hfifo⟩ := cqPost_ring hring hcq
    exact ⟨hwf, hfifo⟩

theorem sendOp_posted (hposted : PostedInv cfg l) (hk : p.Tracks cfg l)
    (hg : l.Grows (l.ran p m' es)) (ho : sendOp cfg l.mem p x = some (m', p', es)) :
    PostedInv cfg (l.ran p m' es) := by
  intro n wc' hmem
  rcases List.mem_append.mp hmem with hold | hnew
  · obtain ⟨hlt, hout⟩ := hposted n wc' hold
    exact hg.outcome hlt hout
  · rcases (sendOp_effect ho).2 with ⟨rfl, -⟩ | ⟨seq, wc, hp, rfl, -⟩
    · simp at hnew
    · obtain ⟨rfl, rfl⟩ := cqPost_posted hnew
      rcases hp with rfl | rfl
      · exact hg.outcome hk.1 hk.2
      · exact hg.outcome hk.2.1 hk.2.2

theorem sendStart_ring {x : SendStart} {o : Option SendPc} (hring : RingInv l)
    (hx : sendStart l.mem x = some (m', o, es)) : RingInv (l.started x m') := by
  have hfifo := hring.fifo
  have hkept (hcq : m'.sendCq = l.mem.sendCq) (hposted : (l.started x m').posted = l.posted)
      (hpolled : (l.started x m').polled = l.polled) : RingInv (l.started x m') := by
    constructor
    · change ∀ cq ∈ m'.sendCq, cq.WF
      rw [hcq]
      exact hring.wf
    · rw [hposted, hpolled]
      change _ = l.polled ++ (m'.sendCq.map Cq.contents).getD []
      rw [hcq]
      exact hfifo
  cases x with
  | post wrs =>
    cases hx
    exact hkept rfl (List.append_nil _) (List.append_nil _)
  | worker =>
    rw [sendStart] at hx
    split at hx
    · contradiction
    · cases hx
      exact hkept rfl (List.append_nil _) (List.append_nil _)
  | write addr bytes | writeDmabuf fd addr bytes =>
    cases hx
    exact hkept rfl (List.append_nil _) (List.append_nil _)
  | otherPost wc =>
    cases hx
    rcases Option.eq_none_or_eq_some l.mem.sendCq with hcq0 | ⟨cq, hcq0⟩
    · exact hkept (by simp [hcq0]) (by simp [QpLog.started, hcq0]) (List.append_nil _)
    · have hwf := hring.wf cq hcq0
      cases hpost : cq.post wc with
      | none =>
        exact hkept (by simp [hcq0, hpost]) (by simp [QpLog.started, hcq0, hpost])
          (List.append_nil _)
      | some cq' =>
        obtain ⟨hwf', hcontents⟩ := hwf.post hpost
        rw [hcq0, Option.map_some, Option.getD_some] at hfifo
        constructor
        · simpa [QpLog.started, hcq0, hpost] using hwf'
        · simp [QpLog.started, hcq0, hpost, hfifo, hcontents]
  | pollCq n =>
    cases hx
    rcases Option.eq_none_or_eq_some l.mem.sendCq with hcq0 | ⟨cq, hcq0⟩
    · exact hkept (by simp [hcq0]) (List.append_nil _) (by simp [QpLog.started, hcq0])
    · obtain ⟨hwf', hcontents⟩ := (hring.wf cq hcq0).poll n
      rw [hcq0, Option.map_some, Option.getD_some] at hfifo
      constructor
      · simpa [QpLog.started, hcq0] using hwf'
      · simp [QpLog.started, hcq0, hfifo, ← hcontents]

theorem started_posted_eq (l : QpLog) (x : SendStart) (m' : QpMem) :
    ∃ u, (l.started x m').posted = l.posted ++ u ∧ ∀ y ∈ u, y.1 = none := by
  refine ⟨_, rfl, fun y hy => ?_⟩
  cases x with
  | otherPost wc =>
    simp only at hy
    split at hy
    · rw [List.mem_singleton.mp hy]
    · simp at hy
  | _ => simp at hy

theorem started_own (x : SendStart) :
    (l.started x m').posted.filterMap Prod.fst = l.posted.filterMap Prod.fst := by
  obtain ⟨u, hu, hnone⟩ := started_posted_eq l x m'
  rw [hu, List.filterMap_append, List.filterMap_eq_nil_iff.mpr hnone, List.append_nil]

theorem started_posted {x : SendStart} {n : Nat} {wc : Wc}
    (hmem : (some n, wc) ∈ (l.started x m').posted) : (some n, wc) ∈ l.posted := by
  obtain ⟨u, hu, hnone⟩ := started_posted_eq l x m'
  rw [hu] at hmem
  rcases List.mem_append.mp hmem with hold | hnew
  · exact hold
  · have hn := hnone _ hnew
    contradiction

end Ring

inductive QpFlag where
  | lock
  | worker

def QpFlag.value : QpFlag → QpLog → List SendEvent → Int
  | .lock, l, _ => one l.mem.sqLock
  | .worker, l, _ => one l.mem.workerRunning

def QpFlag.part : QpFlag → SendPc → Int
  | .lock, p => one p.locks
  | .worker, p => one p.works

theorem create_log (cfg : QpConfig) (n : Nat) (cqe : Option Int) (user : Mem)
    (dmabuf : Nat → Mem) : LogInv cfg (.create n cqe user dmabuf) ∧
      RingInv (.create n cqe user dmabuf) ∧ PostedInv cfg (.create n cqe user dmabuf) := by
  refine ⟨⟨⟨by simp [QpLog.create, createQp, sqDepth, sqDepthMin], Nat.zero_le _,
      by simp [QpLog.create, createQp]⟩, rfl, rfl, Nat.zero_le _, rfl, ?_, ?_, ?_, ?_⟩, ⟨?_, ?_⟩, ?_⟩
  · intro e he
    simp [QpLog.create, createQp, CircularBuffer.contents] at he
  · intro j k hj
    simp [QpLog.create, createQp, SendEntry.zero] at hj
  · intro _ x hx
    simp [QpLog.create] at hx
  · intro _ x hx
    simp [QpLog.create] at hx
  · intro cq hcq
    obtain ⟨c, -, rfl⟩ := Option.map_eq_some_iff.mp hcq
    exact Cq.create_wf c
  · cases cqe <;> rfl
  · intro k wc hmem
    simp [QpLog.create] at hmem

section Runs
variable {cfg : QpConfig} {ok : Sys QpLog SendPc → List SendEvent → Move SendStart SendRet → Prop}
  {n : Nat} {cqe : Option Int} {user : Mem} {dmabuf : Nat → Mem} {s : Sys QpLog SendPc}
  {h : List SendEvent}

theorem logProg_start {l l' : QpLog} {x : SendStart} {o : Option SendPc} {es : List SendEvent}
    (hx : (logProg cfg).start l x = some (l', o, es)) :
    ∃ m', sendStart l.mem x = some (m', o, es) ∧ l' = l.started x m' := by
  obtain ⟨⟨m', o', es'⟩, hx', heq⟩ := Option.map_eq_some_iff.mp hx
  cases heq
  exact ⟨m', hx', rfl⟩

theorem logProg_op {l l' : QpLog} {p p' : SendPc} {x : SendRet} {es : List SendEvent}
    (hx : (logProg cfg).op l p x = some (l', p', es)) :
    ∃ m', sendOp cfg l.mem p x = some (m', p', es) ∧ l' = l.ran p m' es := by
  obtain ⟨⟨m', o', es'⟩, hx', heq⟩ := Option.map_eq_some_iff.mp hx
  cases heq
  exact ⟨m', hx', rfl⟩

/-- In every run, whatever is posted: the threads' knowledge, the invariant of the queue, that of
the ring, and the truth of the completions in it. -/
theorem log_invariant
    (hr : Reaches (logProg cfg).step ok ⟨.create n cqe user dmabuf, []⟩ s h) :
    (∀ p ∈ s.pcs, p.Tracks cfg s.mem) ∧ LogInv cfg s.mem ∧ RingInv s.mem ∧ PostedInv cfg s.mem := by
  refine (accounted QpFlag.value QpFlag.part (SendPc.Tracks cfg)
    (fun l _ => LogInv cfg l ∧ RingInv l ∧ PostedInv cfg l) ?_ (create_log cfg n cqe user dmabuf)
    ?_ ?_ hr).2
  · intro a
    cases a <;> rfl
  · intro s h x l o es _ _ _ ⟨hi, hring, hposted⟩ hlog
    obtain ⟨m', hx, rfl⟩ := logProg_start hlog
    obtain ⟨hsq, hacc, hstream, hlock, rfl, hstart⟩ := sendStart_same hx
    have hsame : s.mem.Same (s.mem.started x m') := ⟨hsq, hacc, hstream, rfl, rfl⟩
    refine ⟨fun a => ?_, fun p hp => ?_, fun q _ hq => hsame.tracks hq, hsame.inv hi fun hw => ?_,
      sendStart_ring hring hx, fun k wc hmem => ?_⟩
    · change a.value ⟨m', _, _, _, _⟩ _ = _
      rcases hstart with ⟨hw, rfl | ⟨wrs, -, rfl⟩⟩ | ⟨hnone, hw, rfl⟩ <;> cases a <;>
        simp [QpFlag.value, QpFlag.part, *]
    · rcases hstart with ⟨hw, rfl | ⟨wrs, rfl, rfl⟩⟩ | ⟨hnone, hw, rfl⟩
      · contradiction
      · cases hp
        trivial
      · cases hp
        exact hsame.settled (hi.idle hnone)
    · rcases hstart with ⟨hkept, -⟩ | ⟨-, htrue, -⟩
      · exact hkept.symm.trans hw
      · exact Bool.noConfusion (htrue.symm.trans hw)
    · obtain ⟨hlt, hout⟩ := hposted k wc (started_posted hmem)
      exact hsame.grows.outcome hlt hout
  · intro s h i x p l p' es _ _ hb hk ⟨hi, hring, hposted⟩ hp hlog
    obtain ⟨m', ho, rfl⟩ := logProg_op hlog
    have hmem := List.mem_of_getElem? hp
    have hlock {q : SendPc} (hq : q ∈ s.pcs) : q.locks = true → s.mem.mem.sqLock = true :=
      flag_of_mem (c := SendPc.locks) (hb .lock) hq
    have hrunning := flag_of_mem (c := SendPc.works) (hb .worker) hmem
    have hs := sendOp_log hi (hk p hmem) hrunning ho
    obtain ⟨hlocks, hrun, hworks⟩ := (sendOp_effect ho).1 (hlock hmem)
    refine ⟨fun a => ?_, hs.own, fun k q hki hq => ?_, hs.inv, sendOp_ring hring ho,
      sendOp_posted hposted (hk p hmem) hs.grows ho⟩
    · cases a with
      | lock => exact hlocks
      | worker =>
        change one m'.workerRunning + one p.works = one s.mem.mem.workerRunning + one p'.works
        rw [hrun, hworks]
    · have hq' := List.mem_of_getElem? hq
      exact hs.others q (hk q hq') (flag_alone (c := SendPc.works) (hb .worker) hki.symm hp hq)
        (flag_alone (c := SendPc.locks) (hb .lock) hki.symm hp hq) (hlock hq')

end Runs

end OdinLink
