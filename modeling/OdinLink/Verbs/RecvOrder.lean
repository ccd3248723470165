import OdinLink.Verbs.RecvQueue

/-!
# Receives match in order

Only the drainer that got the drain lock takes buffers off, so the buffer it looked at stays at the
head while it receives.
-/

namespace OdinLink

open Threads History

namespace RqMem

def done (m : RqMem) : Nat := m.accepted.length - m.rq.count

def own (m : RqMem) : List Nat := m.posted.filterMap Prod.fst

def received (m : RqMem) : List BufferWrite := m.writes.filter (·.slot.isSome)

def successes (m : RqMem) : List (Option Nat × Wc) :=
  m.posted.filter fun x => x.1.isSome && x.2.status == .success

def Settled (m : RqMem) : Prop :=
  m.own.length = m.done ∧
    m.received.map (fun w => (w.slot, w.bytes.length)) = m.successes.map fun x => (x.1, x.2.byteLen)

def Ahead (m : RqMem) (k : Nat) (got : Option Nat) : Prop :=
  m.received.map (fun w => (w.slot, w.bytes.length)) =
    m.successes.map (fun x => (x.1, x.2.byteLen)) ++ (got.map fun actual => (some k, actual)).toList

end RqMem

structure RqQueue (m : RqMem) : Prop where
  wf : m.rq.WF
  depth : m.rq.depth = rqDepth
  count_le : m.rq.count ≤ m.accepted.length
  contents : m.rq.contents = m.accepted.drop m.done
  seqs : m.accepted.map RecvEntry.seq = List.range m.accepted.length

structure RqStream (user : Mem) (m : RqMem) : Prop where
  memory : m.user = m.writes.foldl (fun mem w => mem.overwrite w.addr w.bytes) user
  received_le : m.received.length ≤ m.arrived.length
  inbound : m.inbound = m.arrived.drop m.received.length
  matched : ∀ (i : Nat) (w : BufferWrite), m.received[i]? = some w →
    ∃ (k : Nat) (e : RecvEntry) (msg : List UInt8), w.slot = some k ∧ m.accepted[k]? = some e ∧
      m.arrived[i]? = some msg ∧ w.addr = e.addr ∧ w.bytes = msg.take e.len

structure RqRing (m : RqMem) : Prop where
  wf : ∃ cq, m.recvCq = some cq ∧ cq.WF ∧ m.posted.map Prod.snd = m.polled ++ cq.contents
  own : m.own = List.range m.own.length
  ids : ∀ k wc, (some k, wc) ∈ m.posted → ∃ e, m.accepted[k]? = some e ∧ wc.wrId = e.wrId

structure RecvInv (user : Mem) (m : RqMem) : Prop where
  queue : RqQueue m
  stream : RqStream user m
  ring : RqRing m
  idle : m.drainLock = false → m.Settled

def RqPc.drains : RqPc → Bool
  | .drain .tryLock => false
  | .drain _ => true
  | _ => false

def RqPc.Knows (qpNum : Nat) (m : RqMem) : RqPc → Prop
  | .drain (.peek _) | .drain (.unlock _) => m.Settled
  | .drain (.recv e _) => m.Settled ∧ 0 < m.rq.count ∧ e = m.rq.front
  | .drain (.dequeue e got _) =>
    m.own.length = m.done ∧ 0 < m.rq.count ∧ e = m.rq.front ∧ m.Ahead e.seq got
  | .drain (.report e wc _) =>
    m.own.length + 1 = m.done ∧ e.seq = m.own.length ∧ m.accepted[e.seq]? = some e ∧
      ∃ got, wc = e.wc qpNum got ∧ m.Ahead e.seq got
  | _ => True

section Kept
variable {qpNum : Nat} {user : Mem} {m m' : RqMem} {q : RqPc}

theorem RqPc.knows_of_not_drains (hq : q.drains = false) : q.Knows qpNum m := by
  rcases q with pc | pc | _ | _
  · trivial
  · cases pc with
    | tryLock => trivial
    | _ => simp [drains] at hq
  · trivial
  · trivial

structure RqMem.Kept (m m' : RqMem) : Prop where
  own : m'.own = m.own
  successes : m'.successes = m.successes
  received : m'.received = m.received
  done : m'.done = m.done
  accepted : ∀ (k : Nat) (e : RecvEntry), m.accepted[k]? = some e → m'.accepted[k]? = some e
  front : 0 < m.rq.count → 0 < m'.rq.count ∧ m'.rq.front = m.rq.front

namespace RqMem.Kept
variable (hkept : m.Kept m')
include hkept

theorem settled (hs : m.Settled) : m'.Settled := by
  rw [RqMem.Settled, hkept.own, hkept.done, hkept.received, hkept.successes]
  exact hs

theorem ahead {k : Nat} {got : Option Nat} (ha : m.Ahead k got) : m'.Ahead k got := by
  rw [RqMem.Ahead, hkept.received, hkept.successes]
  exact ha

theorem knows (hk : q.Knows qpNum m) : q.Knows qpNum m' := by
  rcases q with pc | pc | _ | _
  · trivial
  · cases pc with
    | tryLock => trivial
    | peek n | unlock n => exact hkept.settled hk
    | recv e n =>
      obtain ⟨hs, hpos, rfl⟩ := hk
      obtain ⟨hpos', hfront⟩ := hkept.front hpos
      exact ⟨hkept.settled hs, hpos', hfront.symm⟩
    | dequeue e got n =>
      obtain ⟨hlen, hpos, rfl, ha⟩ := hk
      obtain ⟨hpos', hfront⟩ := hkept.front hpos
      exact ⟨by rw [hkept.own, hkept.done, hlen], hpos', hfront.symm, hkept.ahead ha⟩
    | report e wc n =>
      obtain ⟨hlen, hseq, he, got, hwc, ha⟩ := hk
      exact ⟨by rw [hkept.own, hkept.done, hlen], by rw [hkept.own, hseq], hkept.accepted _ _ he, got,
        hwc, hkept.ahead ha⟩
  · trivial
  · trivial

end RqMem.Kept

end Kept

section Parts
variable {user : Mem} {m m' : RqMem}
variable {e : RecvEntry}

theorem RqQueue.congr (hq : RqQueue m) (hrq : m'.rq = m.rq) (hacc : m'.accepted = m.accepted) :
    RqQueue m' := by
  have hdone : m'.done = m.done := by rw [RqMem.done, RqMem.done, hrq, hacc]
  constructor
  · exact hrq ▸ hq.wf
  · exact hrq ▸ hq.depth
  · rw [hrq, hacc]
    exact hq.count_le
  · rw [hrq, hacc, hdone]
    exact hq.contents
  · rw [hacc]
    exact hq.seqs

theorem RqStream.congr (hs : RqStream user m) (huser : m'.user = m.user)
    (hwrites : m'.writes = m.writes) (hin : m'.inbound = m.inbound) (harr : m'.arrived = m.arrived)
    (hacc : ∀ (k : Nat) (e : RecvEntry), m.accepted[k]? = some e → m'.accepted[k]? = some e) :
    RqStream user m' := by
  have hrec : m'.received = m.received := by rw [RqMem.received, RqMem.received, hwrites]
  constructor
  · rw [huser, hwrites]
    exact hs.memory
  · rw [hrec, harr]
    exact hs.received_le
  · rw [hin, harr, hrec]
    exact hs.inbound
  · intro i w hw
    rw [hrec] at hw
    obtain ⟨k, e, msg, hslot, hk, hrest⟩ := hs.matched i w hw
    rw [harr]
    exact ⟨k, e, msg, hslot, hacc k e hk, hrest⟩

theorem RqRing.congr (hr : RqRing m) (hcq : m'.recvCq = m.recvCq) (hposted : m'.posted = m.posted)
    (hpolled : m'.polled = m.polled)
    (hacc : ∀ (k : Nat) (e : RecvEntry), m.accepted[k]? = some e → m'.accepted[k]? = some e) :
    RqRing m' := by
  have hown : m'.own = m.own := by rw [RqMem.own, RqMem.own, hposted]
  constructor
  · rw [hcq, hposted, hpolled]
    exact hr.wf
  · rw [hown]
    exact hr.own
  · intro k wc hk
    rw [hposted] at hk
    obtain ⟨e, he, hid⟩ := hr.ids k wc hk
    exact ⟨e, hacc k e he, hid⟩

theorem accepted_mono (hacc : m'.accepted = m.accepted ++ [e]) (k : Nat)
    (e' : RecvEntry) (hk : m.accepted[k]? = some e') : m'.accepted[k]? = some e' := by
  obtain ⟨hlt, -⟩ := List.getElem?_eq_some_iff.mp hk
  rwa [hacc, List.getElem?_append_left hlt]

theorem RqQueue.push (hq : RqQueue m) (hroom : m.rq.count < rqDepth)
    (he : e.seq = m.accepted.length) (hrq : m'.rq = m.rq.push e)
    (hacc : m'.accepted = m.accepted ++ [e]) : RqQueue m' ∧ m'.done = m.done ∧
      (0 < m.rq.count → 0 < m'.rq.count ∧ m'.rq.front = m.rq.front) := by
  have hle := hq.count_le
  rw [← hq.depth] at hroom
  have hcount : m'.rq.count = m.rq.count + 1 := by rw [hrq, CircularBuffer.push_count]
  have hlen : m'.accepted.length = m.accepted.length + 1 := by
    rw [hacc, List.length_append, List.length_singleton]
  have hdone : m'.done = m.done := by
    rw [RqMem.done, RqMem.done, hcount, hlen]
    omega
  refine ⟨⟨hrq ▸ hq.wf.push hroom e, ?_, by omega, ?_, ?_⟩, hdone, fun hpos => ?_⟩
  · rw [hrq]
    exact hq.depth
  · have hdle : m.done ≤ m.accepted.length := Nat.sub_le _ _
    rw [hrq, hq.wf.contents_push hroom, hq.contents, hacc, hdone, List.drop_append_of_le_length hdle]
  · rw [hlen, List.range_succ, hacc, List.map_append, hq.seqs, ← he]
    rfl
  · rw [hrq]
    exact ⟨Nat.succ_pos _, hq.wf.front_push hpos hroom e⟩

theorem RqQueue.front (hq : RqQueue m) (hpos : 0 < m.rq.count) :
    m.rq.front.seq = m.done ∧ m.accepted[m.done]? = some m.rq.front := by
  have hhead : (m.accepted.drop m.done)[0]? = some m.rq.front := by
    rw [← hq.contents, hq.wf.contents_eq_cons hpos, List.getElem?_cons_zero]
  rw [List.getElem?_drop, Nat.add_zero] at hhead
  refine ⟨?_, hhead⟩
  have hseq := congrArg (fun l : List Nat => l[m.done]?) hq.seqs
  obtain ⟨hlt, -⟩ := List.getElem?_eq_some_iff.mp hhead
  simpa [hhead, List.getElem?_range hlt] using hseq

theorem RqQueue.pop (hq : RqQueue m) (hpos : 0 < m.rq.count) (hrq : m'.rq = m.rq.pop)
    (hacc : m'.accepted = m.accepted) : RqQueue m' ∧ m'.done = m.done + 1 := by
  have hle := hq.count_le
  have hcount : m'.rq.count = m.rq.count - 1 := by rw [hrq, CircularBuffer.pop_count]
  have hdone : m'.done = m.done + 1 := by
    rw [RqMem.done, RqMem.done, hcount, hacc]
    omega
  refine ⟨⟨hrq ▸ hq.wf.pop hpos, ?_, ?_, ?_, ?_⟩, hdone⟩
  · rw [hrq]
    exact hq.depth
  · rw [hcount, hacc]
    omega
  · have hcontents := hq.contents
    rw [hq.wf.contents_eq_cons hpos, ← hrq] at hcontents
    rw [hdone, hacc, ← List.drop_drop, ← hcontents, List.drop_one, List.tail_cons]
  · rw [hacc]
    exact hq.seqs

theorem RqStream.receive {k : Nat} {msg : List UInt8} {inbound : List (List UInt8)}
    (hs : RqStream user m) (he : m.accepted[k]? = some e) (hmsg : m.inbound = msg :: inbound)
    (hm' : m' = {m with inbound := inbound}.write ⟨some k, e.addr, msg.take e.len⟩) :
    RqStream user m' ∧ m'.received = m.received ++ [⟨some k, e.addr, msg.take e.len⟩] := by
  have hrec : m'.received = m.received ++ [⟨some k, e.addr, msg.take e.len⟩] := by
    rw [hm']
    exact List.filter_append _ _
  have hdrop := hs.inbound
  rw [hmsg] at hdrop
  have harr : m.arrived[m.received.length]? = some msg := by
    have hhead := congrArg (fun l : List (List UInt8) => l[0]?) hdrop
    simpa using hhead.symm
  obtain ⟨hlt, -⟩ := List.getElem?_eq_some_iff.mp harr
  have harr' : m'.arrived = m.arrived := by rw [hm']; rfl
  have hacc' : m'.accepted = m.accepted := by rw [hm']; rfl
  refine ⟨⟨?_, ?_, ?_, ?_⟩, hrec⟩
  · rw [hm']
    change m.user.overwrite e.addr (msg.take e.len) = (m.writes ++ [_]).foldl _ user
    rw [List.foldl_append, ← hs.memory]
    rfl
  · rw [hrec, harr', List.length_append, List.length_singleton]
    exact hlt
  · have hin : m'.inbound = inbound := by rw [hm']; rfl
    rw [hin, harr', hrec, List.length_append, List.length_singleton, ← List.drop_drop, ← hdrop,
      List.drop_one, List.tail_cons]
  · intro i w hw
    rw [hrec, List.getElem?_append] at hw
    rw [harr', hacc']
    split at hw
    · exact hs.matched i w hw
    · rename_i hge
      obtain ⟨hi, rfl⟩ := List.getElem?_eq_some_iff.mp hw
      simp only [List.length_singleton] at hi
      have hi' : i = m.received.length := by omega
      subst hi'
      exact ⟨k, e, msg, by simp, he, harr, by simp, by simp⟩

theorem RqRing.cqPost {o : Option Nat} {wc : Wc} (hr : RqRing m)
    (hroom : (m.recvCq.bind (·.post wc)).isSome = true)
    (hown : ∀ k ∈ o, k = m.own.length ∧ ∃ e, m.accepted[k]? = some e ∧ wc.wrId = e.wrId) :
    RqRing (m.cqPost o wc) ∧ (m.cqPost o wc).posted = m.posted ++ [(o, wc)] := by
  obtain ⟨cq, hcq, hwf, hfifo⟩ := hr.wf
  rw [hcq, Option.bind_some] at hroom
  obtain ⟨cq', hpost⟩ := Option.isSome_iff_exists.mp hroom
  obtain ⟨hwf', hcontents⟩ := hwf.post hpost
  have hm' : m.cqPost o wc =
      {m with recvCq := some cq', posted := m.posted ++ [(o, wc)]} := by
    rw [RqMem.cqPost, hcq, Option.bind_some, hpost]
  rw [hm']
  refine ⟨⟨⟨cq', rfl, hwf', ?_⟩, ?_, ?_⟩, rfl⟩
  · change (m.posted ++ [(o, wc)]).map Prod.snd = m.polled ++ cq'.contents
    rw [List.map_append, hfifo, hcontents, List.append_assoc]
    rfl
  · change (m.posted ++ [(o, wc)]).filterMap Prod.fst =
      List.range ((m.posted ++ [(o, wc)]).filterMap Prod.fst).length
    have hold : m.posted.filterMap Prod.fst = List.range (m.posted.filterMap Prod.fst).length := hr.own
    cases o with
    | none => simpa [List.filterMap_append] using hold
    | some k =>
      obtain rfl : k = (m.posted.filterMap Prod.fst).length := (hown k rfl).1
      rw [List.filterMap_append, hold]
      simp [List.range_succ]
  · intro k wc' hk
    rcases List.mem_append.mp hk with hk | hk
    · exact hr.ids k wc' hk
    · rw [List.mem_singleton, Prod.mk.injEq] at hk
      obtain ⟨rfl, rfl⟩ := hk
      exact (hown k rfl).2

end Parts

section Steps
variable {qpNum : Nat} {user : Mem} {m m' : RqMem} {p p' : RqPc} {x : RecvRet}
variable {e : RecvEntry} {n : Nat}

/-- What an operation of thread `p` keeps. The other threads know nothing while `p` has the drain
lock. -/
structure RecvStep (qpNum : Nat) (user : Mem) (m : RqMem) (p : RqPc) (m' : RqMem)
    (p' : RqPc) : Prop where
  inv : RecvInv user m'
  own : p'.Knows qpNum m'
  others : ∀ q : RqPc, q.Knows qpNum m → (p.drains = true → q.drains = false) → q.Knows qpNum m'
  lock : one m'.drainLock + one p.drains = one m.drainLock + one p'.drains

structure RqMem.Same (m m' : RqMem) : Prop where
  rq : m'.rq = m.rq
  recvCq : m'.recvCq = m.recvCq
  user : m'.user = m.user
  inbound : m'.inbound = m.inbound
  accepted : m'.accepted = m.accepted
  arrived : m'.arrived = m.arrived
  writes : m'.writes = m.writes
  posted : m'.posted = m.posted
  polled : m'.polled = m.polled

theorem RqMem.Same.kept (hsame : m.Same m') : m.Kept m' where
  own := by rw [RqMem.own, RqMem.own, hsame.posted]
  successes := by rw [RqMem.successes, RqMem.successes, hsame.posted]
  received := by rw [RqMem.received, RqMem.received, hsame.writes]
  done := by rw [RqMem.done, RqMem.done, hsame.rq, hsame.accepted]
  accepted k e hk := by rwa [hsame.accepted]
  front hpos := by
    rw [hsame.rq]
    exact ⟨hpos, rfl⟩

theorem RqMem.Same.inv (hsame : m.Same m') (hi : RecvInv user m)
    (hidle : m'.drainLock = false → m.Settled) : RecvInv user m' where
  queue := hi.queue.congr hsame.rq hsame.accepted
  stream := hi.stream.congr hsame.user hsame.writes hsame.inbound hsame.arrived hsame.kept.accepted
  ring := hi.ring.congr hsame.recvCq hsame.posted hsame.polled hsame.kept.accepted
  idle h := hsame.kept.settled (hidle h)

theorem RecvStep.of_same (hi : RecvInv user m) (hidle : m'.drainLock = false → m.Settled)
    (hown : p'.Knows qpNum m := by exact trivial)
    (hlock : one m'.drainLock + one p.drains = one m.drainLock + one p'.drains := by rfl)
    (hsame : m.Same m' := by exact ⟨rfl, rfl, rfl, rfl, rfl, rfl, rfl, rfl, rfl⟩) :
    RecvStep qpNum user m p m' p' where
  inv := hsame.inv hi hidle
  own := hsame.kept.knows hown
  others _ hq _ := hsame.kept.knows hq
  lock := hlock

theorem push_recv {wr : RecvWr} {wrs : List RecvWr} (hi : RecvInv user m)
    (hroom : m.rq.count < rqDepth) (he : e.seq = m.accepted.length) (hm' : m' = {m with
      rq := m.rq.push e, accepted := m.accepted ++ [e], pendingRecvs := m.pendingRecvs + 1}) :
    RecvStep qpNum user m (.post (.loop (wr :: wrs))) m' (.post (.loop wrs)) := by
  have hacc : m'.accepted = m.accepted ++ [e] := by rw [hm']
  obtain ⟨hqueue, hdone, hfront⟩ := hi.queue.push hroom he (by rw [hm']) hacc
  have hkept : m.Kept m' := by
    refine ⟨?_, ?_, ?_, hdone, accepted_mono hacc, hfront⟩ <;> rw [hm'] <;> rfl
  refine ⟨⟨hqueue, ?_, ?_, ?_⟩, trivial, fun q hq _ => hkept.knows hq, ?_⟩
  · refine hi.stream.congr ?_ ?_ ?_ ?_ hkept.accepted <;> rw [hm']
  · refine hi.ring.congr ?_ ?_ ?_ hkept.accepted <;> rw [hm']
  · intro hfree
    rw [hm'] at hfree
    exact hkept.settled (hi.idle hfree)
  · rw [hm']
    rfl

theorem postRecvOp_step {pc : PostRecvPc} (hi : RecvInv user m)
    (ho : postRecvOp m pc = some (m', p')) : RecvStep qpNum user m (.post pc) m' p' := by
  cases pc with
  | lock wrs =>
    rw [postRecvOp] at ho
    split at ho
    · contradiction
    · cases ho
      exact .of_same hi hi.idle
  | loop wrs =>
    cases wrs with
    | nil =>
      cases ho
      exact .of_same hi hi.idle
    | cons wr wrs =>
      rw [postRecvOp] at ho
      split at ho
      · cases ho
        exact .of_same hi hi.idle
      · rename_i hroom
        split at ho
        · cases ho
          exact .of_same hi hi.idle
        · cases ho
          exact push_recv hi (Nat.lt_of_not_le hroom) rfl rfl
  | unlock badWr =>
    cases ho
    exact .of_same hi hi.idle

theorem RecvStep.of_drain (hp : p.drains = true) (hp' : p'.drains = true)
    (hlock : m'.drainLock = m.drainLock) (hinv : RecvInv user m') (hown : p'.Knows qpNum m') :
    RecvStep qpNum user m p m' p' where
  inv := hinv
  own := hown
  others q _ hq := RqPc.knows_of_not_drains (hq hp)
  lock := by rw [hlock, hp, hp']

theorem streamRecv_step (hi : RecvInv user m)
    (hheld : m.drainLock = true) (hk : (RqPc.drain (.recv e n)).Knows qpNum m)
    (ho : drainOp qpNum m (.recv e n) x = some (m', p')) :
    RecvStep qpNum user m (.drain (.recv e n)) m' p' := by
  obtain ⟨hs, hpos, rfl⟩ := hk
  -- no message: the buffer stays at the head, and completes with an error unless it is to wait
  have hnone : RecvStep qpNum user m (.drain (.recv m.rq.front n)) m
      (.drain (.dequeue m.rq.front none n)) := by
    refine .of_drain rfl rfl rfl hi ⟨hs.1, hpos, rfl, ?_⟩
    rw [RqMem.Ahead, Option.map_none, Option.toList_none, List.append_nil]
    exact hs.2
  rw [drainOp, RqMem.streamRecv.eq_def] at ho
  split at ho
  · cases ho
    exact hnone
  · cases x with
    | again =>
      cases ho
      exact .of_drain rfl rfl rfl hi hs
    | err =>
      cases ho
      exact hnone
    | ok =>
      cases hmsg : m.inbound with
      | nil => simp [hmsg] at ho
      | cons msg inbound =>
        simp only [hmsg, Option.map_some, Option.some.injEq, Prod.mk.injEq] at ho
        obtain ⟨hm', rfl⟩ := ho
        obtain ⟨hseq, hfront⟩ := hi.queue.front hpos
        rw [hseq] at hm'
        obtain ⟨hstream, hrec⟩ := hi.stream.receive hfront hmsg hm'.symm
        refine .of_drain rfl rfl (by rw [← hm']; rfl) ⟨?_, hstream, ?_, ?_⟩ ⟨?_, ?_, ?_, ?_⟩
        · refine hi.queue.congr ?_ ?_ <;> rw [← hm'] <;> rfl
        · refine hi.ring.congr ?_ ?_ ?_ fun k e hk => ?_
          · rw [← hm']; rfl
          · rw [← hm']; rfl
          · rw [← hm']; rfl
          · rw [← hm']; exact hk
        · rw [← hm']
          exact fun hfree => absurd (hheld.symm.trans hfree) (by simp)
        · have hlen := hs.1
          rw [← hm']
          exact hlen
        · rw [← hm']
          exact hpos
        · rw [← hm']
          rfl
        · have hsucc : m'.successes = m.successes := by rw [← hm']; rfl
          rw [RqMem.Ahead, hrec, hsucc, List.map_append, hs.2, hseq]
          simp [Nat.min_comm]

theorem report_step {wc : Wc} (hi : RecvInv user m)
    (hk : (RqPc.drain (.report e wc n)).Knows qpNum m)
    (hroom : (m.recvCq.bind (·.post wc)).isSome = true) :
    RecvStep qpNum user m (.drain (.report e wc n)) (m.cqPost (some e.seq) wc)
      (.drain (.peek (n + 1))) := by
  obtain ⟨hlen, hseq, he, got, rfl, ha⟩ := hk
  have hid : (e.wc qpNum got).wrId = e.wrId := by cases got <;> rfl
  obtain ⟨hring, hposted⟩ := hi.ring.cqPost (o := some e.seq) hroom (by
    rintro k ⟨rfl⟩
    exact ⟨hseq, e, he, hid⟩)
  have hsame : (m.cqPost (some e.seq) (e.wc qpNum got)).rq = m.rq ∧
      (m.cqPost (some e.seq) (e.wc qpNum got)).accepted = m.accepted ∧
      (m.cqPost (some e.seq) (e.wc qpNum got)).user = m.user ∧
      (m.cqPost (some e.seq) (e.wc qpNum got)).writes = m.writes ∧
      (m.cqPost (some e.seq) (e.wc qpNum got)).inbound = m.inbound ∧
      (m.cqPost (some e.seq) (e.wc qpNum got)).arrived = m.arrived ∧
      (m.cqPost (some e.seq) (e.wc qpNum got)).drainLock = m.drainLock := by
    rw [RqMem.cqPost]
    split <;> exact ⟨rfl, rfl, rfl, rfl, rfl, rfl, rfl⟩
  generalize m.cqPost (some e.seq) (e.wc qpNum got) = m' at hring hposted hsame
  obtain ⟨hrq, hacc, huser, hwrites, hin, harr, hlock⟩ := hsame
  have hown : m'.own = m.own ++ [e.seq] := by
    rw [RqMem.own, hposted, List.filterMap_append]
    rfl
  have hsettled : m'.Settled := by
    constructor
    · rw [hown, List.length_append, List.length_singleton, hlen, RqMem.done, RqMem.done, hrq, hacc]
    · have hrec : m'.received = m.received := by rw [RqMem.received, RqMem.received, hwrites]
      rw [hrec, ha, RqMem.successes, RqMem.successes, hposted, List.filter_append, List.map_append]
      cases got <;> simp [RecvEntry.wc]
  refine .of_drain rfl rfl hlock ⟨hi.queue.congr hrq hacc, ?_, hring, ?_⟩ hsettled
  · refine hi.stream.congr huser hwrites hin harr fun k e hk => ?_
    rwa [hacc]
  · exact fun _ => hsettled

theorem dequeue_recv {got : Option Nat} (hi : RecvInv user m)
    (hheld : m.drainLock = true) (hk : (RqPc.drain (.dequeue e got n)).Knows qpNum m)
    (ho : drainOp qpNum m (.dequeue e got n) x = some (m', p')) :
    RecvStep qpNum user m (.drain (.dequeue e got n)) m' p' := by
  obtain ⟨hlen, hpos, rfl, ha⟩ := hk
  obtain ⟨hseq, hfront⟩ := hi.queue.front hpos
  rw [drainOp] at ho
  split at ho
  · contradiction
  · rw [Option.some.injEq, Prod.mk.injEq] at ho
    obtain ⟨hm', rfl⟩ := ho
    have hacc : m'.accepted = m.accepted := by rw [← hm']
    obtain ⟨hqueue, hdone⟩ := hi.queue.pop hpos (by rw [← hm']) hacc
    refine .of_drain rfl rfl (by rw [← hm']) ⟨hqueue, ?_, ?_, ?_⟩ ⟨?_, ?_, ?_, got, rfl, ?_⟩
    · refine hi.stream.congr ?_ ?_ ?_ ?_ fun k e hk => by rwa [hacc]
      all_goals rw [← hm']
    · refine hi.ring.congr ?_ ?_ ?_ fun k e hk => by rwa [hacc]
      all_goals rw [← hm']
    · rw [← hm']
      exact fun hfree => absurd (hheld.symm.trans hfree) (by simp)
    · have hown : m'.own = m.own := by rw [← hm']; rfl
      rw [hdone, hown, hlen]
    · have hown : m'.own = m.own := by rw [← hm']; rfl
      rw [hown, hseq, hlen]
    · rw [hseq, hacc]
      exact hfront
    · rw [← hm']
      exact ha

theorem drainOp_step {pc : DrainPc} (hi : RecvInv user m)
    (hheld : (RqPc.drain pc).drains = true → m.drainLock = true)
    (hk : (RqPc.drain pc).Knows qpNum m)
    (hroom : ∀ e wc n, pc = .report e wc n → (m.recvCq.bind (·.post wc)).isSome = true)
    (ho : drainOp qpNum m pc x = some (m', p')) : RecvStep qpNum user m (.drain pc) m' p' := by
  cases pc with
  | tryLock =>
    rw [drainOp] at ho
    split at ho
    · cases ho
      exact .of_same hi hi.idle
    · rename_i hfree
      have hs := hi.idle (Bool.eq_false_iff.mpr hfree)
      cases ho
      refine .of_same hi (fun _ => hs) hs ?_
      simp [RqPc.drains, hfree]
  | peek n =>
    rw [drainOp] at ho
    split at ho
    · contradiction
    · split at ho
      · cases ho
        exact .of_drain rfl rfl rfl hi hk
      · rename_i hpos
        cases ho
        exact .of_drain rfl rfl rfl hi ⟨hk, Nat.pos_of_ne_zero hpos, rfl⟩
  | recv e n => exact streamRecv_step hi (hheld rfl) hk ho
  | dequeue e got n => exact dequeue_recv hi (hheld rfl) hk ho
  | report e wc n =>
    cases ho
    exact report_step hi hk (hroom e wc n rfl)
  | unlock n =>
    cases ho
    refine .of_same hi (fun _ => hk) trivial ?_
    simp [RqPc.drains, hheld rfl]

end Steps

section Start
variable {user : Mem} {m m' : RqMem} {x : RecvStart} {o : Option RqPc}

theorem cqPost_kept {o : Option Nat} {wc : Wc} (ho : o = none) : m.Kept (m.cqPost o wc) := by
  subst ho
  rw [RqMem.cqPost]
  split
  · exact RqMem.Same.kept ⟨rfl, rfl, rfl, rfl, rfl, rfl, rfl, rfl, rfl⟩
  · refine ⟨?_, ?_, rfl, rfl, fun _ _ hk => hk, fun hpos => ⟨hpos, rfl⟩⟩
    · simp [RqMem.own]
    · simp [RqMem.successes]

theorem recvStart_kept (hi : RecvInv user m) (hx : recvStart m x = some (m', o, [])) :
    RecvInv user m' ∧ m.Kept m' ∧ m'.drainLock = m.drainLock ∧
      ∀ p ∈ o, p.drains = false := by
  have hsame (hs : m.Same m') (hlock : m'.drainLock = m.drainLock) :
      RecvInv user m' ∧ m.Kept m' ∧ m'.drainLock = m.drainLock :=
    ⟨hs.inv hi fun h => hi.idle (hlock.symm.trans h), hs.kept, hlock⟩
  cases x with
  | post wrs | drain =>
    cases hx
    obtain ⟨hinv, hkept, hlock⟩ := hsame ⟨rfl, rfl, rfl, rfl, rfl, rfl, rfl, rfl, rfl⟩ rfl
    exact ⟨hinv, hkept, hlock, by simp [RqPc.drains]⟩
  | arrive msg =>
    cases hx
    have hkept : m.Kept {m with inbound := m.inbound ++ [msg], arrived := m.arrived ++ [msg]} :=
      ⟨rfl, rfl, rfl, rfl, fun _ _ hk => hk, fun hpos => ⟨hpos, rfl⟩⟩
    have hle := hi.stream.received_le
    refine ⟨⟨hi.queue.congr rfl rfl, ⟨hi.stream.memory, ?_, ?_, ?_⟩,
      hi.ring.congr rfl rfl rfl hkept.accepted, fun h => hkept.settled (hi.idle h)⟩, hkept, rfl,
      by simp⟩
    · change m.received.length ≤ (m.arrived ++ [msg]).length
      rw [List.length_append]
      omega
    · change m.inbound ++ [msg] = (m.arrived ++ [msg]).drop m.received.length
      rw [List.drop_append_of_le_length hle, ← hi.stream.inbound]
    · intro i w hw
      obtain ⟨k, e, msg', hslot, hk, harr, hrest⟩ := hi.stream.matched i w hw
      obtain ⟨hlt, -⟩ := List.getElem?_eq_some_iff.mp harr
      refine ⟨k, e, msg', hslot, hk, ?_, hrest⟩
      change (m.arrived ++ [msg])[i]? = some msg'
      rwa [List.getElem?_append_left hlt]
  | write addr bytes =>
    cases hx
    have hrec : (m.write ⟨none, addr, bytes⟩).received = m.received := by
      change (m.writes ++ [_]).filter _ = _
      rw [List.filter_append]
      exact List.append_nil _
    have hkept : m.Kept (m.write ⟨none, addr, bytes⟩) :=
      ⟨rfl, rfl, hrec, rfl, fun _ _ hk => hk, fun hpos => ⟨hpos, rfl⟩⟩
    refine ⟨⟨hi.queue.congr rfl rfl, ⟨?_, ?_, ?_, ?_⟩,
      hi.ring.congr rfl rfl rfl hkept.accepted, fun h => hkept.settled (hi.idle h)⟩, hkept, rfl,
      by simp⟩
    · change m.user.overwrite addr bytes = (m.writes ++ [_]).foldl _ user
      rw [List.foldl_append, ← hi.stream.memory]
      rfl
    · rw [hrec]
      exact hi.stream.received_le
    · rw [hrec]
      exact hi.stream.inbound
    · rw [hrec]
      exact hi.stream.matched
  | otherPost wc =>
    cases hx
    have hkept : m.Kept (m.cqPost none wc) := cqPost_kept rfl
    have hlock : (m.cqPost none wc).drainLock = m.drainLock := by
      rw [RqMem.cqPost]
      split <;> rfl
    refine ⟨⟨?_, ?_, ?_, fun h => hkept.settled (hi.idle (hlock.symm.trans h))⟩, hkept, hlock,
      by simp⟩
    · refine hi.queue.congr ?_ ?_ <;> rw [RqMem.cqPost] <;> split <;> rfl
    · refine hi.stream.congr ?_ ?_ ?_ ?_ hkept.accepted <;> rw [RqMem.cqPost] <;> split <;> rfl
    · rcases hpost : m.recvCq.bind (·.post wc) with _ | cq'
      · rw [RqMem.cqPost, hpost]
        exact hi.ring
      · exact (hi.ring.cqPost (o := none) (by simp [hpost]) (by simp)).1
  | pollCq n =>
    obtain ⟨cq, hcq, hwf, hfifo⟩ := hi.ring.wf
    simp only [recvStart, hcq] at hx
    cases hx
    have hkept : m.Kept {m with recvCq := some (cq.poll n).2, polled := m.polled ++ (cq.poll n).1} :=
      ⟨rfl, rfl, rfl, rfl, fun _ _ hk => hk, fun hpos => ⟨hpos, rfl⟩⟩
    obtain ⟨hwf', hcontents⟩ := hwf.poll n
    refine ⟨⟨hi.queue.congr rfl rfl, hi.stream.congr rfl rfl rfl rfl hkept.accepted,
      ⟨⟨_, rfl, hwf', ?_⟩, hi.ring.own, hi.ring.ids⟩, fun h => hkept.settled (hi.idle h)⟩, hkept, rfl,
      by simp⟩
    rw [List.append_assoc, hcontents]
    exact hfifo

end Start

theorem createRq_inv (cqe : Int) (user : Mem) : RecvInv user (createRq (some (.create cqe)) user) where
  queue := ⟨⟨by simp [createRq, rqDepth], Nat.zero_le _, by simp [createRq]⟩, rfl, Nat.zero_le _, rfl,
    rfl⟩
  stream := ⟨rfl, Nat.zero_le _, rfl, by simp [RqMem.received, createRq]⟩
  ring := ⟨⟨_, rfl, Cq.create_wf cqe, rfl⟩, rfl, by simp [createRq]⟩
  idle _ := ⟨rfl, rfl⟩

section Runs
variable {qpNum : Nat} {cqe : Int} {user : Mem} {s : Sys RqMem RqPc} {h : List Empty}
  (hr : Reaches (recvProg qpNum).step (fun s _ a => cqHasRoom s a = true)
    ⟨createRq (some (.create cqe)) user, []⟩ s h)
include hr

theorem recv_invariant : (∀ _ : Unit, one s.mem.drainLock = tally (fun p => one p.drains) s.pcs) ∧
    (∀ p ∈ s.pcs, p.Knows qpNum s.mem) ∧ RecvInv user s.mem := by
  refine accounted (fun (_ : Unit) m _ => one m.drainLock) (fun _ p => one p.drains)
    (RqPc.Knows qpNum) (fun m _ => RecvInv user m) (fun _ => rfl) (createRq_inv cqe user) ?_ ?_ hr
  · intro s h x m o es _ _ _ hi hx
    have hes : es = [] := List.eq_nil_iff_forall_not_mem.mpr fun e _ => e.elim
    subst hes
    obtain ⟨hinv, hkept, hlock, hnew⟩ := recvStart_kept hi hx
    refine ⟨fun _ => ?_, fun p hp => RqPc.knows_of_not_drains (hnew p hp),
      fun q _ hq => hkept.knows hq, hinv⟩
    cases o with
    | none => simp [hlock]
    | some p => simp [hlock, hnew p rfl]
  · intro s h i x p m p' es _ hok hb hk hi hp ho
    have hmem := List.mem_of_getElem? hp
    have hheld := flag_of_mem (c := RqPc.drains) (hb ()) hmem
    have hs : RecvStep qpNum user s.mem p m p' := by
      rcases p with pc | pc | _ | _
      · obtain ⟨r, hr, heq⟩ := Option.map_eq_some_iff.mp ho
        cases heq
        exact postRecvOp_step hi hr
      · obtain ⟨r, hr, heq⟩ := Option.map_eq_some_iff.mp ho
        cases heq
        refine drainOp_step hi hheld (hk _ hmem) (fun e wc n hpc => ?_) hr
        subst hpc
        simpa [cqHasRoom, hp] using hok
      · cases ho
      · cases ho
    refine ⟨fun _ => hs.lock, hs.own, fun k q hki hq => ?_, hs.inv⟩
    exact hs.others q (hk q (List.mem_of_getElem? hq))
      (flag_alone (c := RqPc.drains) (hb ()) hki.symm hp hq)

/-- At every moment the completions are those of the buffers off the queue and their successes are
those of the messages received, but for the buffer and the message a drainer has in its hands. -/
theorem completions_behind : s.mem.own.length ≤ s.mem.done ∧
    ∃ rest, s.mem.received.map (fun w => (w.slot, w.bytes.length)) =
      s.mem.successes.map (fun x => (x.1, x.2.byteLen)) ++ rest := by
  obtain ⟨hb, hk, hi⟩ := recv_invariant hr
  have hsettled (hs : s.mem.Settled) : s.mem.own.length ≤ s.mem.done ∧
      ∃ rest, s.mem.received.map (fun w => (w.slot, w.bytes.length)) =
        s.mem.successes.map (fun x => (x.1, x.2.byteLen)) ++ rest :=
    ⟨hs.1.le, [], by rw [List.append_nil, hs.2]⟩
  cases hlock : s.mem.drainLock with
  | false => exact hsettled (hi.idle hlock)
  | true =>
    obtain ⟨p, hp, hdrains⟩ := mem_of_flag (c := RqPc.drains) (hb ()) hlock
    have hkp := hk p hp
    rcases p with pc | pc | _ | _
    · simp [RqPc.drains] at hdrains
    · cases pc with
      | tryLock => simp [RqPc.drains] at hdrains
      | peek n | unlock n => exact hsettled hkp
      | recv e n => exact hsettled hkp.1
      | dequeue e got n => exact ⟨hkp.1.le, _, hkp.2.2.2⟩
      | report e wc n =>
        obtain ⟨hlen, -, -, got, -, ha⟩ := hkp
        exact ⟨by omega, _, ha⟩
    · simp [RqPc.drains] at hdrains
    · simp [RqPc.drains] at hdrains

theorem success_matched {i : Nat} {o : Option Nat} {wc : Wc}
    (hsucc : s.mem.successes[i]? = some (o, wc)) :
    ∃ (k : Nat) (e : RecvEntry) (msg : List UInt8) (w : BufferWrite), o = some k ∧
      s.mem.accepted[k]? = some e ∧ s.mem.arrived[i]? = some msg ∧ s.mem.received[i]? = some w ∧
      w = ⟨some k, e.addr, msg.take e.len⟩ ∧ wc.byteLen = w.bytes.length := by
  obtain ⟨-, -, hi⟩ := recv_invariant hr
  obtain ⟨-, rest, hrest⟩ := completions_behind hr
  have hat : (s.mem.received.map fun w => (w.slot, w.bytes.length))[i]? = some (o, wc.byteLen) := by
    rw [hrest]
    refine getElem?_append_some ?_
    rw [List.getElem?_map, hsucc]
    rfl
  rw [List.getElem?_map, Option.map_eq_some_iff] at hat
  obtain ⟨w, hw, heq⟩ := hat
  obtain ⟨k, e, msg, hslot, he, hmsg, haddr, hbytes⟩ := hi.stream.matched i w hw
  rw [Prod.mk.injEq] at heq
  refine ⟨k, e, msg, w, heq.1.symm.trans hslot, he, hmsg, hw, ?_, heq.2.symm⟩
  cases w
  simp_all

/-- While the completion queue has room: the k-th buffer to complete is the k-th accepted, each at
most once and with its own `wr_id`; the i-th success is that of the i-th message that arrived, which
was written to the buffer of that request, cut to its length; the memory changed by these writes and
the application's own only; and every buffer that is not off the queue is intact in the ring. -/
theorem receives_match_in_order :
    s.mem.own = List.range s.mem.own.length ∧
    (∀ k wc, (some k, wc) ∈ s.mem.posted → ∃ e, s.mem.accepted[k]? = some e ∧ wc.wrId = e.wrId) ∧
    (∃ cq, s.mem.recvCq = some cq ∧ s.mem.posted.map Prod.snd = s.mem.polled ++ cq.contents) ∧
    (∀ (i : Nat) (o : Option Nat) (wc : Wc), s.mem.successes[i]? = some (o, wc) →
      ∃ (k : Nat) (e : RecvEntry) (msg : List UInt8) (w : BufferWrite), o = some k ∧
        s.mem.accepted[k]? = some e ∧ s.mem.arrived[i]? = some msg ∧ s.mem.received[i]? = some w ∧
        w = ⟨some k, e.addr, msg.take e.len⟩ ∧ wc.byteLen = w.bytes.length) ∧
    s.mem.user = s.mem.writes.foldl (fun mem w => mem.overwrite w.addr w.bytes) user ∧
    s.mem.own.length ≤ s.mem.done ∧ s.mem.rq.contents = s.mem.accepted.drop s.mem.done := by
  obtain ⟨-, -, hi⟩ := recv_invariant hr
  obtain ⟨cq, hcq, -, hfifo⟩ := hi.ring.wf
  exact ⟨hi.ring.own, hi.ring.ids, ⟨cq, hcq, hfifo⟩, fun i o wc => success_matched hr,
    hi.stream.memory, (completions_behind hr).1, hi.queue.contents⟩

end Runs

def interleavedReceives : List (Move RecvStart RecvRet) := List.flatten
  [[.start (.post [⟨1, [⟨10, 2, 0⟩]⟩, ⟨2, [⟨20, 0, 0⟩]⟩])], List.replicate 5 (.run 0 .ok),
    [.start (.arrive [1, 2, 3]), .start .drain, .run 1 .ok, .run 1 .ok, .start .drain, .run 2 .ok,
      .start (.arrive [4, 5]), .run 1 .ok, .start (.post [⟨3, [⟨30, 8, 0⟩]⟩])],
    List.replicate 4 (.run 3 .ok), List.replicate 12 (.run 1 .ok), [.start (.pollCq 1)]]

theorem receives_match_in_order_interleaved : ∃ s h,
    Reaches (recvProg 7).step (fun s _ a => cqHasRoom s a = true)
        ⟨createRq (some (.create 1)) fun _ => 0, []⟩ s h ∧
      s.mem.posted.map (fun x => (x.1, x.2.wrId, x.2.status, x.2.byteLen)) =
        [(some 0, 1, .success, 2), (some 1, 2, .generalErr, 0), (some 2, 3, .success, 2)] ∧
      s.mem.user.read 10 3 = [1, 2, 0] ∧ s.mem.user.read 30 3 = [4, 5, 0] ∧
      s.mem.own = List.range s.mem.own.length := by
  have hr : Reaches (recvProg 7).step (fun s _ a => cqHasRoom s a = true)
      ⟨createRq (some (.create 1)) fun _ => 0, []⟩ _ _ :=
    .of_acts interleavedReceives (by decide +kernel)
  exact ⟨_, _, hr, by decide +kernel, by decide +kernel, by decide +kernel,
    (receives_match_in_order hr).1⟩

end OdinLink
