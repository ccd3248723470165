import Mathlib.Data.Prod.Lex
import Mathlib.Order.OrderIsoNat
import OdinLink.Daemon.Confinement
import OdinLink.Daemon.Delivery

/-!
# Whether two engines come to rest

Two engines that only receive: each takes the messages of the other in order, and its handlers may
send new ones. The handlers of the two run at the same time, but they have nothing in common except
for the streams, so a delivery is one step, from the message to the end of its handler. The requests
for system information, which are answered once on the same streams, are left out.
-/

namespace OdinLink

open Paths Scripts History

structure Peers where
  left : SyncMem
  right : SyncMem

section Deliveries
variable (dl dr : SyncDirs) (sha256 : List UInt8 → List UInt8)

inductive Delivered (s : Peers) : Peers → Prop where
  | toRight {msg : SyncMsg} {rest : List SyncMsg} {m : SyncMem} (hnext : s.left.sent = msg :: rest)
      (hruns : Runs sha256 (syncDispatch dr msg) s.right m) :
      Delivered s ⟨{s.left with sent := rest}, m⟩
  | toLeft {msg : SyncMsg} {rest : List SyncMsg} {m : SyncMem} (hnext : s.right.sent = msg :: rest)
      (hruns : Runs sha256 (syncDispatch dl msg) s.left m) :
      Delivered s ⟨m, {s.right with sent := rest}⟩

def EndlessFrom (s : Peers) : Prop :=
  ∃ f : Nat → Peers, f 0 = s ∧ ∀ n, Delivered dl dr sha256 (f n) (f (n + 1))

end Deliveries

def SyncMsg.isRequest : SyncMsg → Bool
  | .fetchReq _ | .removeReq _ => true
  | _ => false

theorem isRequest_of_answers {msg msg' : SyncMsg} (hmsg : msg ≠ .syncReq)
    (hanswers : msg.answers msg' = true) :
    msg.isRequest = true ∧ msg'.isRequest = false ∧ msg' ≠ .syncReq := by
  unfold SyncMsg.answers at hanswers
  split at hanswers
  all_goals first | contradiction | exact ⟨rfl, rfl, by simp⟩

namespace Peers

structure AtRest (s : Peers) : Prop where
  left : s.left.Free
  right : s.right.Free

def NoSyncReq (s : Peers) : Prop := .syncReq ∉ s.left.sent ∧ .syncReq ∉ s.right.sent

end Peers

def inFlight (q q' : List SyncMsg) : Nat ×ₗ Nat :=
  toLex (q.countP SyncMsg.isRequest + q'.countP SyncMsg.isRequest, q.length + q'.length)

theorem inFlight_comm (q q' : List SyncMsg) : inFlight q q' = inFlight q' q := by
  rw [inFlight, inFlight, Nat.add_comm (q.countP _), Nat.add_comm q.length]

section Rest
variable {dl dr : SyncDirs} {sha256 : List UInt8 → List UInt8} {s s' : Peers}

theorem inFlight_decreases {msg : SyncMsg} {rest out l : List SyncMsg} (hmsg : msg ≠ .syncReq)
    (hl : ∀ msg' ∈ l, msg.answers msg' = true) :
    inFlight rest (out ++ l) < inFlight (msg :: rest) out := by
  have hzero : l.countP SyncMsg.isRequest = 0 := by
    rw [List.countP_eq_zero]
    intro msg' hmsg'
    simp [(isRequest_of_answers hmsg (hl msg' hmsg')).2.1]
  rw [inFlight, inFlight, Prod.Lex.toLex_lt_toLex, List.countP_append, hzero, List.countP_cons]
  cases hreq : msg.isRequest with
  | true => exact .inl (by simp)
  | false =>
    -- nothing is sent
    have hnil : l = [] := by
      rw [List.eq_nil_iff_forall_not_mem]
      intro msg' hmsg'
      rw [(isRequest_of_answers hmsg (hl msg' hmsg')).1] at hreq
      contradiction
    exact .inr (by simp [hnil])

theorem syncReq_not_mem_append {msg : SyncMsg} {out l : List SyncMsg} (hmsg : msg ≠ .syncReq)
    (hl : ∀ msg' ∈ l, msg.answers msg' = true) (hout : .syncReq ∉ out) : .syncReq ∉ out ++ l := by
  rw [List.mem_append, not_or]
  exact ⟨hout, fun hmem => (isRequest_of_answers hmsg (hl _ hmem)).2.2 rfl⟩

theorem Delivered.decreases (hstep : Delivered dl dr sha256 s s') (hrest : s.AtRest)
    (hno : s.NoSyncReq) : s'.AtRest ∧ s'.NoSyncReq ∧
      inFlight s'.left.sent s'.right.sent < inFlight s.left.sent s.right.sent := by
  cases hstep with
  | @toRight msg rest m hnext hruns =>
    obtain ⟨hfree, l, hsent, hl⟩ := (syncDispatch_ends dr msg).runs hrest.right hruns
    rw [Peers.NoSyncReq, hnext, List.mem_cons, not_or] at hno
    have hmsg := Ne.symm hno.1.1
    refine ⟨⟨⟨hrest.left.fetch, hrest.left.tx⟩, hfree⟩, ⟨hno.1.2, ?_⟩, ?_⟩
    · rw [hsent]
      exact syncReq_not_mem_append hmsg hl hno.2
    · rw [hnext, hsent]
      exact inFlight_decreases hmsg hl
  | @toLeft msg rest m hnext hruns =>
    obtain ⟨hfree, l, hsent, hl⟩ := (syncDispatch_ends dl msg).runs hrest.left hruns
    rw [Peers.NoSyncReq, hnext, List.mem_cons, not_or] at hno
    have hmsg := Ne.symm hno.2.1
    refine ⟨⟨hfree, ⟨hrest.right.fetch, hrest.right.tx⟩⟩, ⟨?_, hno.2.2⟩, ?_⟩
    · rw [hsent]
      exact syncReq_not_mem_append hmsg hl hno.1
    · rw [hnext, hsent, inFlight_comm, inFlight_comm s.left.sent]
      exact inFlight_decreases hmsg hl

theorem not_endless (hrest : s.AtRest) (hno : s.NoSyncReq) : ¬ EndlessFrom dl dr sha256 s := by
  rintro ⟨f, rfl, hf⟩
  have hall (n : Nat) : (f n).AtRest ∧ (f n).NoSyncReq := by
    induction n with
    | zero => exact ⟨hrest, hno⟩
    | succ n ih =>
      obtain ⟨hrest', hno', -⟩ := (hf n).decreases ih.1 ih.2
      exact ⟨hrest', hno'⟩
  refine not_strictAnti_of_wellFoundedLT (fun n => inFlight (f n).left.sent (f n).right.sent) ?_
  exact strictAnti_nat_of_succ_lt fun n => ((hf n).decreases (hall n).1 (hall n).2).2.2

variable (sha256) in
theorem syncReq_answered {m : SyncMem} (hm : m.Free) :
    ∃ m', Runs sha256 syncExchangeCatalog m m' ∧ .syncReq ∈ m'.sent := by
  have hends : Ends (fun _ => True) syncExchangeCatalog :=
    syncExchangeCatalog_ends trivial (fun _ _ => trivial) trivial
  have hrest := (hends.2 () ⟨false, true⟩ ⟨trivial, rfl⟩).2 true ⟨false, true⟩ ⟨trivial, rfl⟩
  -- the lock is taken, and the request sent
  let m₁ := {m with txLocked := true}
  let m₂ := {m₁ with sent := m.sent ++ [SyncMsg.syncReq]}
  have hlock : exec sha256 m .lockTx fineEnv = some (m₁, (), []) := if_neg (by simp [hm.tx])
  have hagree : Agrees (fun _ => True) m₂.sent ⟨false, true⟩ m₂ :=
    ⟨hm.fetch, rfl, [], (List.append_nil _).symm, by simp⟩
  obtain ⟨n, m', a, es, hfin⟩ := hagree.finishes sha256 hrest (fun _ => fineEnv) fun _ => by decide
  obtain ⟨g, -, hagree'⟩ := hagree.finish hrest hfin
  obtain ⟨l, hl, -⟩ := hagree'.sent
  refine ⟨m', ⟨fineEnv :: fineEnv :: (List.range n).map fun _ => fineEnv, es, ?_⟩, ?_⟩
  · exact finish_call.mpr ⟨_, _, m₁, (), [], es, rfl, hlock,
      finish_call.mpr ⟨_, _, m₂, true, [], es, rfl, rfl, hfin, rfl⟩, rfl⟩
  · rw [hl]
    simp [m₂]

theorem exists_handled {d : SyncDirs} {m : SyncMem} {q : List SyncMsg} (hm : m.Free)
    (hq : .syncReq ∈ q) : ∃ msg rest m', q = msg :: rest ∧ Runs sha256 (syncDispatch d msg) m m' ∧
      m'.Free ∧ (.syncReq ∈ rest ∨ .syncReq ∈ m'.sent) := by
  cases q with
  | nil => contradiction
  | cons msg rest =>
    rcases List.mem_cons.mp hq with rfl | hmem
    · obtain ⟨m', hruns, hsent⟩ := syncReq_answered sha256 hm
      exact ⟨_, rest, m', rfl, hruns, ((syncDispatch_ends d .syncReq).runs hm hruns).1, .inr hsent⟩
    · have hends := syncDispatch_ends d msg
      obtain ⟨m', hruns⟩ := hends.exists_runs sha256 hm (x := fineEnv) (by decide)
      exact ⟨msg, rest, m', rfl, hruns, (hends.runs hm hruns).1, .inl hmem⟩

theorem exists_delivered (hrest : s.AtRest) (hreq : ¬ s.NoSyncReq) :
    ∃ s', Delivered dl dr sha256 s s' ∧ s'.AtRest ∧ ¬ s'.NoSyncReq := by
  rw [Peers.NoSyncReq, not_and_or, not_not, not_not] at hreq
  rcases hreq with hleft | hright
  · obtain ⟨msg, rest, m, hnext, hruns, hfree, hmem⟩ := exists_handled hrest.right hleft
    refine ⟨_, .toRight hnext hruns, ⟨⟨hrest.left.fetch, hrest.left.tx⟩, hfree⟩, fun hno => ?_⟩
    exact hmem.elim hno.1 hno.2
  · obtain ⟨msg, rest, m, hnext, hruns, hfree, hmem⟩ := exists_handled hrest.left hright
    refine ⟨_, .toLeft hnext hruns, ⟨hfree, ⟨hrest.right.fetch, hrest.right.tx⟩⟩, fun hno => ?_⟩
    exact hmem.elim hno.2 hno.1

theorem endless_of_syncReq (hrest : s.AtRest) (hreq : ¬ s.NoSyncReq) :
    EndlessFrom dl dr sha256 s :=
  exists_endless (P := fun s => s.AtRest ∧ ¬ s.NoSyncReq)
    (fun _ hs => exists_delivered hs.1 hs.2) ⟨hrest, hreq⟩

variable (dl dr sha256) in
/-- Two engines that only receive come to rest, unless a request for the catalog is in flight: it is
answered with such a request. -/
theorem deliveries_end_iff (hrest : s.AtRest) : ¬ EndlessFrom dl dr sha256 s ↔ s.NoSyncReq :=
  ⟨fun hends => by_contra fun hreq => hends (endless_of_syncReq hrest hreq), not_endless hrest⟩

end Rest

theorem deliveries_end_fetchReq :
    (⟨{plainMem with sent := [.fetchReq [97]]}, plainMem⟩ : Peers).AtRest ∧
      ¬ EndlessFrom plainDirs plainDirs id ⟨{plainMem with sent := [.fetchReq [97]]}, plainMem⟩ := by
  have hrest : (⟨{plainMem with sent := [.fetchReq [97]]}, plainMem⟩ : Peers).AtRest :=
    ⟨⟨rfl, rfl⟩, ⟨rfl, rfl⟩⟩
  refine ⟨hrest, (deliveries_end_iff plainDirs plainDirs id hrest).mpr ⟨?_, ?_⟩⟩
  · simp
  · simp [plainMem]

theorem catalog_requests_endless :
    EndlessFrom plainDirs plainDirs id ⟨{plainMem with sent := [.syncReq]}, plainMem⟩ :=
  endless_of_syncReq ⟨⟨rfl, rfl⟩, ⟨rfl, rfl⟩⟩ fun hno => hno.1 List.mem_cons_self

end OdinLink
