import OdinLink.Verbs.CompletionOrder

/-!
# What a successful send completion stands for

The queue keeps the number of SGEs and the first of them only: a request without SGEs completes
without a message, further SGEs are not sent, and a dma-buf is sent without a message too.
-/

namespace OdinLink

open Threads History

/-- Where a dma-buf region was registered: the region's address `iova` is the byte `offset` of the
dma-buf. -/
structure DmabufRegion where
  offset : Nat
  iova : Nat

section Whole
variable (cfg : QpConfig) (mr : Nat → DmabufRegion)

def Sge.dmabufStart (sge : Sge) : Nat := (mr sge.lkey).offset + (sge.addr - (mr sge.lkey).iova)

def Buffers.sgeBytes (b : Buffers) (sge : Sge) : List UInt8 :=
  match cfg.lookupDmabuf sge.lkey with
  | some fd => (b.dmabuf fd).read (sge.dmabufStart mr) sge.length
  | none => b.user.read sge.addr sge.length

def Buffers.gathered (b : Buffers) (wr : SendWr) : List UInt8 := wr.sgList.flatMap (b.sgeBytes cfg mr)

/-- The first SGE is in host memory and has all the data. -/
def SendWr.firstIsAll (wr : SendWr) : Bool :=
  match wr.sgList with
  | [] => false
  | sge :: rest => (cfg.lookupDmabuf sge.lkey).isNone && rest.all (·.length == 0)

end Whole

section Runs
variable {cfg : QpConfig} {mr : Nat → DmabufRegion}
  {ok : Sys QpLog SendPc → List SendEvent → Move SendStart SendRet → Prop} {n : Nat}
  {cqe : Option Int} {user : Mem} {dmabuf : Nat → Mem} {s : Sys QpLog SendPc} {h : List SendEvent}

theorem Buffers.length_sgeBytes (cfg : QpConfig) (mr : Nat → DmabufRegion) (b : Buffers) (sge : Sge) :
    (b.sgeBytes cfg mr sge).length = sge.length := by
  rw [sgeBytes]
  split <;> exact Mem.read_length _ _ _

theorem Buffers.rest_eq_nil_iff (cfg : QpConfig) (mr : Nat → DmabufRegion) (b : Buffers)
    {rest : List Sge} :
    rest.flatMap (b.sgeBytes cfg mr) = [] ↔ rest.all (·.length == 0) = true := by
  simp only [List.flatMap_eq_nil_iff, List.all_eq_true, beq_iff_eq, ← b.length_sgeBytes cfg mr,
    List.length_eq_zero_iff]

theorem Buffers.rest_of_gathered {b b' : Buffers} {wr : SendWr} {sge : Sge} {rest : List Sge}
    (hsgl : wr.sgList = sge :: rest) (heq : b.sentFor sge = b'.gathered cfg mr wr) :
    rest.all (·.length == 0) = true := by
  have hlen := congrArg List.length heq
  rw [gathered, hsgl, List.flatMap_cons, List.length_append, length_sgeBytes, sentFor,
    Mem.read_length] at hlen
  refine (b'.rest_eq_nil_iff cfg mr).mp (List.length_eq_zero_iff.mp ?_)
  omega

theorem Buffers.gathered_of_rest (b : Buffers) {wr : SendWr} {sge : Sge} {rest : List Sge}
    (hsgl : wr.sgList = sge :: rest) (hhost : cfg.lookupDmabuf sge.lkey = none)
    (hall : rest.all (·.length == 0) = true) : b.gathered cfg mr wr = b.sentFor sge := by
  rw [gathered, hsgl, List.flatMap_cons, (b.rest_eq_nil_iff cfg mr).mpr hall, List.append_nil,
    sgeBytes, hhost]
  rfl

/-- In every run, whatever else is posted: the success of a request means one message with all its
bytes, as they were when the request was accepted or when it was sent, if and only if its first SGE
is in host memory and has all of them. -/
theorem success_means_sent_whole
    (hr : Reaches (logProg cfg).step ok ⟨.create n cqe user dmabuf, []⟩ s h) {k : Nat} {wc : Wc}
    (hposted : (some k, wc) ∈ s.mem.posted) (hsuccess : wc.status = .success) :
    ∃ wr b, s.mem.requests[k]? = some (wr, b) ∧ wc.wrId = wr.wrId ∧
      ((∃ r b', s.mem.messagesFor k = [(r, b')] ∧
          (r.bytes = b.gathered cfg mr wr ∨ r.bytes = b'.gathered cfg mr wr)) ↔
        wr.firstIsAll cfg = true) := by
  obtain ⟨-, -, -, hinv⟩ := log_invariant hr
  obtain ⟨-, wr, b, hreq, hid, hsent⟩ := hinv k wc hposted
  refine ⟨wr, b, hreq, hid, ?_⟩
  have hs := hsent hsuccess
  rw [QpLog.Sent] at hs
  cases hsgl : wr.sgList with
  | nil =>
    rw [hsgl] at hs
    simp [SendWr.firstIsAll, hsgl, hs]
  | cons sge rest =>
    rw [hsgl] at hs
    cases hdma : cfg.lookupDmabuf sge.lkey with
    | some fd =>
      simp only [hdma, Option.isSome_some, if_true] at hs
      simp [SendWr.firstIsAll, hsgl, hs, hdma]
    | none =>
      simp only [hdma, Option.isSome_none, Bool.false_eq_true, if_false] at hs
      obtain ⟨r, b', hmsg, hbytes⟩ := hs
      simp only [SendWr.firstIsAll, hsgl, hdma, Option.isNone_none, Bool.true_and]
      constructor
      · rintro ⟨r', b₁, hmsg', hwhole⟩
        rw [hmsg, List.singleton_inj, Prod.mk.injEq] at hmsg'
        obtain ⟨rfl, rfl⟩ := hmsg'
        rw [hbytes] at hwhole
        rcases hwhole with hwhole | hwhole <;> exact Buffers.rest_of_gathered hsgl hwhole
      · intro hall
        refine ⟨r, b', hmsg, ?_⟩
        rw [b.gathered_of_rest hsgl hdma hall, b'.gathered_of_rest hsgl hdma hall, hbytes]
        split
        · exact .inl rfl
        · exact .inr rfl

end Runs

def gpuQp : QpConfig := ⟨true, false, false, fun lkey => if lkey = 5 then some 3 else none, 7⟩

def wholeSends : List (Move SendStart SendRet) := List.flatten
  [[.start .worker, .start (.post [⟨1, [⟨10, 2, 0⟩]⟩])], List.replicate 4 (.run 1 .ok),
    [.start (.post [⟨2, [⟨20, 3, 0⟩, ⟨4, 0, 5⟩]⟩])], List.replicate 4 (.run 2 .ok),
    List.replicate 5 (.run 0 .ok)]

theorem wholeSends_runs : (run (logProg gpuQp).step (fun _ _ _ => true)
    ⟨openLog, []⟩ [] wholeSends).isSome = true := by
  decide +kernel

theorem success_means_sent_whole_empty_rest : ∃ s h,
    Reaches (logProg gpuQp).step (fun _ _ _ => True) ⟨openLog, []⟩ s h ∧
      (some 1, ⟨2, .success, .send, 3, 7⟩) ∈ s.mem.posted ∧
      ∃ wr b, s.mem.requests[1]? = some (wr, b) ∧ wr.firstIsAll gpuQp = true ∧
        ∃ r b', s.mem.messagesFor 1 = [(r, b')] ∧
          (r.bytes = b.gathered gpuQp (fun _ => ⟨0, 0⟩) wr ∨
            r.bytes = b'.gathered gpuQp (fun _ => ⟨0, 0⟩) wr) := by
  have hr : Reaches (logProg gpuQp).step (fun _ _ _ => True) ⟨openLog, []⟩ _ _ :=
    .of_final _ (fun _ _ _ _ => trivial) wholeSends_runs
  have hposted : (some 1, ⟨2, .success, .send, 3, 7⟩) ∈
      (final (logProg gpuQp).step (fun _ _ _ => true) ⟨openLog, []⟩ wholeSends
        wholeSends_runs).1.mem.posted := by
    decide +kernel
  have hfirst : ((final (logProg gpuQp).step (fun _ _ _ => true) ⟨openLog, []⟩ wholeSends
      wholeSends_runs).1.mem.requests[1]?).all (·.1.firstIsAll gpuQp) = true := by
    decide +kernel
  obtain ⟨wr, b, hreq, -, hiff⟩ := success_means_sent_whole hr hposted rfl
  rw [hreq] at hfirst
  exact ⟨_, _, hr, hposted, wr, b, hreq, hfirst, hiff.mpr hfirst⟩

def partialSends : List (Move SendStart SendRet) := List.flatten
  [[.start .worker,
      .start (.post [⟨1, []⟩, ⟨2, [⟨10, 2, 0⟩, ⟨20, 2, 0⟩]⟩, ⟨3, [⟨4, 2, 5⟩]⟩])],
    List.replicate 6 (.run 1 .ok), List.replicate 14 (.run 0 .ok)]

/-- All three succeed: the second sends half of its bytes, the others no message. -/
theorem success_without_the_whole : ∃ s h,
    Reaches (logProg gpuQp).step (fun _ _ _ => True) ⟨openLog, []⟩ s h ∧
      s.mem.posted.map (fun x => (x.1, x.2.status)) =
        [(some 0, .success), (some 1, .success), (some 2, .success)] ∧
      s.mem.requests.map (fun x => x.2.gathered gpuQp (fun _ => ⟨0, 0⟩) x.1) =
        [[], [10, 11, 20, 21], [104, 105]] ∧
      s.mem.messages.map (fun x => (x.1.seq, x.1.bytes)) = [(1, [10, 11])] :=
  ⟨_, _, .of_free partialSends (by decide +kernel), by decide +kernel⟩

end OdinLink
