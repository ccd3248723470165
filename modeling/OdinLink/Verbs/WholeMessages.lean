import OdinLink.Verbs.RecvQueue

/-!
# What a successful receive completion stands for

A round of `odl_rq_drain` takes the buffer at the head of the queue and receives into it: the
library asks the driver, the driver takes the first message of the stream, cuts it to the buffer
and reports how much it copied. Only one drainer is at work, so a round is one act, with posts,
arrivals and polls between the rounds.
-/

namespace OdinLink

open History

inductive RecvErrno where
  | inval
  | fault
  | noEnt
  | again
  | intr
  | shutdown
  deriving DecidableEq, Repr

/-- What a receive meets: failing copies, whether the stream is found, what `O_NONBLOCK` and
`can_recv` say, the error of the wait, and how many bytes `copy_to_user` can write. -/
structure RecvEnv where
  copyFromUser : Bool
  found : Bool
  nonblock : Bool
  canRecv : Bool
  waited : Option RecvErrno
  copied : Nat
  copyToUser : Bool
  deriving DecidableEq, Repr

structure RecvReply where
  mem : RqMem
  taken : Option (List UInt8)
  ret : Except RecvErrno Nat

section Layers
variable (m : RqMem) (env : RecvEnv) (e : RecvEntry)

def RqMem.driverRecv : RecvReply :=
  match env.waited with
  | some err => ⟨m, none, .error err⟩
  | none =>
    match m.inbound with
    | [] => ⟨m, none, .error .again⟩
    | msg :: inbound =>
      let actual := min msg.length e.len
      ⟨{m with inbound := inbound}.write ⟨some e.seq, e.addr, msg.take (min actual env.copied)⟩,
        some msg, if env.copied < actual then .error .fault else .ok actual⟩

def RqMem.ioctlRecv : RecvReply :=
  if !env.copyFromUser then ⟨m, none, .error .fault⟩
  else if !env.found then ⟨m, none, .error .noEnt⟩
  else if env.nonblock && !env.canRecv then ⟨m, none, .error .again⟩
  else
    let reply := m.driverRecv env e
    match reply.ret with
    | .error _ => reply
    | .ok _ => if env.copyToUser then reply else {reply with ret := .error .fault}

def RqMem.libRecv : RecvReply :=
  if e.addr = 0 ∨ e.len = 0 then ⟨m, none, .error .inval⟩ else m.ioctlRecv env e

end Layers

/-- A completion that was posted, with the buffer it is about, the message that was taken for it and
the application's memory at that time. -/
structure Completed where
  entry : RecvEntry
  taken : Option (List UInt8)
  wc : Wc
  user : Mem

structure Completed.Whole (d : Completed) : Prop where
  success : d.wc.status = .success → ∃ msg, d.taken = some msg ∧ d.wc.byteLen = msg.length ∧
    d.user.read d.entry.addr msg.length = msg
  too_long : ∀ msg, d.taken = some msg → d.entry.len < msg.length → d.wc.status ≠ .success

def RqMem.drainRound (qpNum : Nat) (m : RqMem) (env : RecvEnv) : RqMem × Option Completed :=
  if m.rq.count = 0 then (m, none)
  else
    let e := m.rq.front
    let reply := m.libRecv env e
    match reply.ret with
    | .error .again => (reply.mem, none)
    | ret =>
      let m := {reply.mem with rq := reply.mem.rq.pop, pendingRecvs := reply.mem.pendingRecvs - 1}
      let wc := e.wc qpNum ret.toOption
      (m.cqPost (some e.seq) wc,
        if (m.recvCq.bind (·.post wc)).isSome then some ⟨e, reply.taken, wc, m.user⟩ else none)

/-- A buffer is posted, a round of the drain runs, or something else happens to the queue pair. -/
inductive RecvAct where
  | post (wr : RecvWr)
  | round (env : RecvEnv)
  | other (x : RecvStart)
  deriving DecidableEq, Repr

structure RecvLog where
  mem : RqMem
  completed : List Completed

def RecvLog.step (qpNum : Nat) (s : RecvLog) : RecvAct → RecvLog
  | .post wr => {s with mem := ((postRecvOp s.mem (.loop [wr])).map Prod.fst).getD s.mem}
  | .round env =>
    let r := s.mem.drainRound qpNum env
    ⟨r.1, s.completed ++ r.2.toList⟩
  | .other x => {s with mem := ((recvStart s.mem x).map Prod.fst).getD s.mem}

/-- The next round receives `msg` with success: it is the first message of the stream, there is a
buffer for it, every call on the way succeeds and the completion ring has room. -/
structure RqMem.Receives (m : RqMem) (env : RecvEnv) (msg : List UInt8) : Prop where
  posted : m.rq.count ≠ 0
  buffer : m.rq.front.addr ≠ 0 ∧ m.rq.front.len ≠ 0
  first : m.inbound.head? = some msg
  entered : env.copyFromUser = true ∧ env.found = true ∧ (env.nonblock = true → env.canRecv = true)
  waited : env.waited = none
  copied : min msg.length m.rq.front.len ≤ env.copied
  returned : env.copyToUser = true
  room : ∃ cq, m.recvCq = some cq ∧ (cq.tail + 1) % cq.ringCap ≠ cq.head

/-- A message that is received with success is no longer than its buffer. -/
def RecvLog.Fits (s : RecvLog) : RecvAct → Prop
  | .round env => ∀ msg, s.mem.Receives env msg → msg.length ≤ s.mem.rq.front.len
  | _ => True

section Rounds
variable {qpNum : Nat} {m : RqMem} {env : RecvEnv} {e : RecvEntry}

theorem Mem.read_overwrite (mem : Mem) (addr : Nat) (bs : List UInt8) :
    (mem.overwrite addr bs).read addr bs.length = bs := by
  apply List.ext_getElem
  · rw [Mem.read_length]
  · intro i hi hi'
    simp only [Mem.read, List.getElem_map, List.getElem_range, Mem.overwrite, Nat.le_add_right,
      if_true, Nat.add_sub_cancel_left]
    rw [List.getD_eq_getElem?_getD, List.getElem?_eq_getElem hi', Option.getD_some]

theorem RqMem.driverRecv_ok {actual : Nat} (h : (m.driverRecv env e).ret = .ok actual) :
    env.waited = none ∧ ∃ msg inbound, m.inbound = msg :: inbound ∧
      actual = min msg.length e.len ∧ actual ≤ env.copied := by
  unfold driverRecv at h
  cases hwaited : env.waited with
  | some err => simp [hwaited] at h
  | none =>
    cases hin : m.inbound with
    | nil => simp [hwaited, hin] at h
    | cons msg inbound =>
      simp only [hwaited, hin] at h
      split at h
      · cases h
      · rename_i hcopied
        cases h
        exact ⟨rfl, msg, inbound, rfl, rfl, Nat.not_lt.mp hcopied⟩

theorem RqMem.ioctlRecv_ok {actual : Nat} (h : (m.ioctlRecv env e).ret = .ok actual) :
    (env.copyFromUser = true ∧ env.found = true ∧ (env.nonblock = true → env.canRecv = true)) ∧
      env.copyToUser = true ∧ (m.driverRecv env e).ret = .ok actual := by
  unfold ioctlRecv at h
  split at h
  · cases h
  · split at h
    · cases h
    · split at h
      · cases h
      · rename_i hcopy hfound hready
        cases hret : (m.driverRecv env e).ret with
        | error err =>
          simp only [hret] at h
          cases h
        | ok n =>
          simp only [hret] at h
          split at h
          · rename_i hback
            exact ⟨⟨by simpa using hcopy, by simpa using hfound, by simpa using hready⟩, hback,
              hret.symm.trans h⟩
          · cases h

theorem RqMem.libRecv_recvCq : (m.libRecv env e).mem.recvCq = m.recvCq := by
  simp only [libRecv, ioctlRecv, driverRecv, RqMem.write]
  repeat' split
  all_goals rfl

theorem RqMem.Receives.libRecv {msg : List UInt8} (h : m.Receives env msg) :
    (m.libRecv env m.rq.front).ret = .ok (min msg.length m.rq.front.len) ∧
      (m.libRecv env m.rq.front).taken = some msg ∧
      (m.libRecv env m.rq.front).mem.user =
        m.user.overwrite m.rq.front.addr (msg.take m.rq.front.len) := by
  obtain ⟨inbound, hin⟩ := List.head?_eq_some_iff.mp h.first
  have hall : min (min msg.length m.rq.front.len) env.copied = min msg.length m.rq.front.len :=
    Nat.min_eq_left h.copied
  have htake : msg.take (min msg.length m.rq.front.len) = msg.take m.rq.front.len := by
    rw [Nat.min_comm, ← List.take_take, List.take_length]
  have hready : ¬ (env.nonblock && !env.canRecv) = true := by simpa using h.entered.2.2
  simp only [RqMem.libRecv, ioctlRecv, driverRecv, RqMem.write, h.buffer, h.entered.1,
    h.entered.2.1, hready, h.waited, hin, h.returned, hall, htake, Nat.not_lt.mpr h.copied, or_false,
    Bool.not_true, Bool.false_eq_true, if_false, if_true, and_self]

theorem RqMem.receives_of_ok {actual : Nat} {cq cq' : Cq} {wc : Wc} (hcount : m.rq.count ≠ 0)
    (hret : (m.libRecv env m.rq.front).ret = .ok actual) (hcq : m.recvCq = some cq)
    (hpost : cq.post wc = some cq') : ∃ msg, m.Receives env msg := by
  unfold libRecv at hret
  split at hret
  · cases hret
  · rename_i hbuf
    obtain ⟨hentered, hback, hret⟩ := ioctlRecv_ok hret
    obtain ⟨hwaited, msg, inbound, hin, rfl, hcopied⟩ := driverRecv_ok hret
    refine ⟨msg, hcount, not_or.mp hbuf, by rw [hin]; rfl, hentered, hwaited, hcopied, hback, cq, hcq,
      fun hfull => ?_⟩
    rw [Cq.post, if_pos hfull] at hpost
    cases hpost

variable (qpNum) in
theorem RqMem.Receives.drainRound {msg : List UInt8} (h : m.Receives env msg) :
    ∃ d, (m.drainRound qpNum env).2 = some d ∧ d.wc.status = .success ∧ d.entry = m.rq.front ∧
      d.taken = some msg ∧ d.wc.byteLen = min msg.length m.rq.front.len ∧
      d.user = m.user.overwrite m.rq.front.addr (msg.take m.rq.front.len) := by
  obtain ⟨hret, htaken, huser⟩ := h.libRecv
  obtain ⟨cq, hcq, hroom⟩ := h.room
  rw [RqMem.drainRound, if_neg h.posted]
  simp only [hret, libRecv_recvCq, hcq, Option.bind_some, Cq.post, if_neg hroom, Option.isSome_some,
    if_true]
  exact ⟨_, rfl, rfl, rfl, htaken, rfl, huser⟩

/-- A round that completes a buffer receives a message, or reports an error. -/
theorem RqMem.drainRound_completed {d : Completed} (h : (m.drainRound qpNum env).2 = some d) :
    d.wc.status = .generalErr ∨ ∃ msg, m.Receives env msg := by
  unfold drainRound at h
  split at h
  · cases h
  · rename_i hcount
    cases hret : (m.libRecv env m.rq.front).ret with
    | error err =>
      left
      cases err with
      | again =>
        simp only [hret] at h
        cases h
      | _ =>
        simp only [hret] at h
        split at h
        · cases h
          rfl
        · cases h
    | ok actual =>
      right
      simp only [hret, libRecv_recvCq] at h
      split at h
      · rename_i hposted
        obtain ⟨cq', hcq'⟩ := Option.isSome_iff_exists.mp hposted
        obtain ⟨cq, hcq, hpost⟩ := Option.bind_eq_some_iff.mp hcq'
        exact receives_of_ok hcount hret hcq hpost
      · cases h

theorem RqMem.drainRound_whole_iff {d : Completed} (h : (m.drainRound qpNum env).2 = some d) :
    d.Whole ↔ ∀ msg, m.Receives env msg → msg.length ≤ m.rq.front.len := by
  constructor
  · intro hw msg hrecv
    obtain ⟨d', hd', hsucc, hentry, htaken, -⟩ := RqMem.Receives.drainRound qpNum hrecv
    obtain rfl := Option.some.inj (h.symm.trans hd')
    rw [← hentry]
    exact Nat.not_lt.mp fun hlong => hw.too_long msg htaken hlong hsucc
  · intro hfits
    rcases drainRound_completed h with herr | ⟨msg, hrecv⟩
    · constructor
      · intro hsucc
        rw [herr] at hsucc
        cases hsucc
      · intro _ _ _ hsucc
        rw [herr] at hsucc
        cases hsucc
    · have hfit := hfits msg hrecv
      obtain ⟨d', hd', hsucc, hentry, htaken, hlen, huser⟩ := RqMem.Receives.drainRound qpNum hrecv
      obtain rfl := Option.some.inj (h.symm.trans hd')
      constructor
      · intro _
        refine ⟨msg, htaken, by omega, ?_⟩
        rw [huser, hentry, List.take_of_length_le hfit, Mem.read_overwrite]
      · intro msg' hmsg' hlong
        obtain rfl := Option.some.inj (htaken.symm.trans hmsg')
        rw [hentry] at hlong
        omega

end Rounds

/-- Through posts, arrivals and rounds in any order, a completion with success is that of a whole
message and a message that does not fit gets an error, exactly when no message longer than its
buffer is received. -/
theorem completions_whole_iff_fits (qpNum : Nat) (recvCq : Option Cq) (user : Mem)
    (acts : List RecvAct) :
    Throughout (RecvLog.step qpNum) (fun s => ∀ d ∈ s.completed, d.Whole) ⟨createRq recvCq user, []⟩
        acts ↔
      Meets (RecvLog.step qpNum) RecvLog.Fits ⟨createRq recvCq user, []⟩ acts := by
  have htrue (s : RecvLog) (act : RecvAct) (_ : True) : True := trivial
  refine throughout_iff_meets htrue ?_ trivial (by simp) acts
  intro s act _ hall
  cases act with
  | post wr | other x => exact iff_of_true hall trivial
  | round env =>
    simp only [RecvLog.step, RecvLog.Fits]
    cases hround : (s.mem.drainRound qpNum env).2 with
    | none =>
      refine iff_of_true (by simpa using hall) fun msg hrecv => ?_
      obtain ⟨d, hd, -⟩ := RqMem.Receives.drainRound qpNum hrecv
      rw [hround] at hd
      cases hd
    | some d =>
      have hiff := RqMem.drainRound_whole_iff hround
      constructor
      · intro h
        exact hiff.mp (h d (by simp))
      · intro h d' hd'
        rcases List.mem_append.mp hd' with hold | hnew
        · exact hall d' hold
        · obtain rfl : d' = d := by simpa using hnew
          exact hiff.mpr h

def RecvEnv.fine : RecvEnv := ⟨true, true, true, true, none, 4096, true⟩

/-- Three bytes are received into a buffer of two. -/
theorem cut_message_succeeds :
    let acts : List RecvAct :=
      [.post ⟨1, [⟨10, 2, 0⟩]⟩, .other (.arrive [1, 2, 3]), .round .fine]
    let s := acts.foldl (RecvLog.step 7) ⟨createRq (some (.create 4)) fun _ => 0, []⟩
    s.completed.map (fun d => (d.entry.len, d.taken, d.wc.status, d.wc.byteLen)) =
      [(2, some [1, 2, 3], .success, 2)] ∧
    s.mem.user.read 10 3 = [1, 2, 0] ∧
    ¬ Throughout (RecvLog.step 7) (fun s => ∀ d ∈ s.completed, d.Whole)
      ⟨createRq (some (.create 4)) fun _ => 0, []⟩ acts := by
  intro acts s
  have hs : s.completed.map (fun d => (d.entry.len, d.taken, d.wc.status, d.wc.byteLen)) =
      [(2, some [1, 2, 3], .success, 2)] := by decide +kernel
  refine ⟨hs, by decide +kernel, fun h => ?_⟩
  obtain ⟨d, hd, hrow⟩ : ∃ d ∈ s.completed,
      (d.entry.len, d.taken, d.wc.status, d.wc.byteLen) =
        (2, some [1, 2, 3], WcStatus.success, 2) := by
    apply List.mem_map.mp
    rw [hs]
    exact List.mem_singleton_self _
  have hwhole : d.Whole := h.2.2.2 d hd
  simp only [Prod.mk.injEq] at hrow
  obtain ⟨hlen, htaken, hsucc, -⟩ := hrow
  exact hwhole.too_long [1, 2, 3] htaken (by rw [hlen]; decide) hsucc

end OdinLink
