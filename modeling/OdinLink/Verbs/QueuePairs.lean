import Mathlib.Data.List.Basic
import Mathlib.Logic.Function.Basic

/-!
# Creating and releasing queue pairs

A queue pair has two streams and two threads, and is entered in the table of its context and in its
completion queues. A creation that fails has to undo what it has done of this so far;
`odl_destroy_qp` undoes all of it, and `odl_free_context` does so for the queue pairs that are left.
-/

namespace OdinLink

inductive QpThread where
  | worker (qp : Nat)
  | rxWorker (qp : Nat)
  deriving DecidableEq, Repr

structure QpContext where
  streams : List Nat
  qps : List Nat
  rxQp : Nat → Option Nat
  threads : List QpThread

def maxQps : Nat := 256

structure QpInitAttr where
  rc : Bool
  sendCq : Option Nat
  recvCq : Option Nat

/-- What the allocations, the device and `pthread_create` answer. -/
structure CreateEnv where
  qp : Option Nat
  sq : Bool
  stream : Option Nat
  txStream : Option Nat
  worker : Bool
  rxWorker : Bool

namespace QpContext
variable (ctx : QpContext)

def streamOpen (id : Nat) : QpContext := {ctx with streams := id :: ctx.streams}

def streamClose (id : Nat) : QpContext := {ctx with streams := ctx.streams.erase id}

def setRxQp (cq : Option Nat) (qp : Nat) : QpContext :=
  match cq with
  | none => ctx
  | some cq => {ctx with rxQp := Function.update ctx.rxQp cq (some qp)}

def threadCreate (t : QpThread) : QpContext := {ctx with threads := t :: ctx.threads}

def threadJoin (t : QpThread) : QpContext := {ctx with threads := ctx.threads.erase t}

/-- `odl_create_qp`; without `attr` an argument is null. -/
def createQp (attr : Option QpInitAttr) (env : CreateEnv) : QpContext × Option Nat :=
  match attr with
  | none => (ctx, none)
  | some attr =>
    if attr.rc = false then (ctx, none)
    else match env.qp with
    | none => (ctx, none)
    | some qp =>
      if env.sq = false then (ctx, none)
      else match env.stream, env.txStream with
      | none, _ => (ctx, none)
      | some rx, none => ((ctx.streamOpen rx).streamClose rx, none)
      | some rx, some tx =>
        let opened := (ctx.streamOpen rx).streamOpen tx
        let wired := (opened.setRxQp attr.recvCq qp).setRxQp attr.sendCq qp
        if maxQps ≤ wired.qps.length then (wired.streamClose rx, none)
        else
          let entered := {wired with qps := wired.qps ++ [qp]}
          if env.worker = false then ((entered.streamClose tx).streamClose rx, none)
          else
            let started := entered.threadCreate (.worker qp)
            if env.rxWorker = false then
              (((started.threadJoin (.worker qp)).streamClose tx).streamClose rx, none)
            else (started.threadCreate (.rxWorker qp), some qp)

@[simp] theorem setRxQp_streams (cq : Option Nat) (qp : Nat) :
    (ctx.setRxQp cq qp).streams = ctx.streams := by
  cases cq <;> rfl

@[simp] theorem setRxQp_qps (cq : Option Nat) (qp : Nat) : (ctx.setRxQp cq qp).qps = ctx.qps := by
  cases cq <;> rfl

theorem open_close (id : Nat) : (ctx.streamOpen id).streamClose id = ctx := by
  rw [streamClose, streamOpen, List.erase_cons_head]

/-- A creation that returns NULL leaves no trace if and only if it fails before it has both streams,
or nothing that comes after fails. -/
theorem createQp_no_trace_iff (attr : Option QpInitAttr) (env : CreateEnv) :
    ((ctx.createQp attr env).2 = none → (ctx.createQp attr env).1 = ctx) ↔
      (attr.all (·.rc = false) ∨ env.qp = none ∨ env.sq = false ∨ env.stream = none ∨
        env.txStream = none) ∨
      ctx.qps.length < maxQps ∧ env.worker = true ∧ env.rxWorker = true := by
  obtain ⟨qp, sq, stream, txStream, worker, rxWorker⟩ := env
  rcases attr with _ | ⟨rc, sendCq, recvCq⟩
  · simp [createQp]
  cases rc
  · simp [createQp]
  rcases qp with _ | qp
  · simp [createQp]
  cases sq
  · simp [createQp]
  rcases stream with _ | rx
  · simp [createQp]
  rcases txStream with _ | tx
  · simp [createQp, open_close]
  simp only [createQp, Bool.true_eq_false, if_false, Option.all_some, decide_false,
    Bool.false_eq_true, reduceCtorEq, or_self, false_or]
  split
  · -- the stream for sending is still open
    rename_i hfull
    have hfull : ¬ ctx.qps.length < maxQps := by simpa [streamOpen] using hfull
    simp only [hfull, false_and, iff_false, true_imp_iff]
    intro hsame
    have hlen := congrArg (fun c => c.streams.length) hsame
    simp [streamClose, streamOpen] at hlen
  rename_i hroom
  have hroom : ctx.qps.length < maxQps := by simpa [streamOpen] using hroom
  cases worker with
  | false =>
    simp only [if_true, Bool.false_eq_true, false_and, and_false, iff_false, true_imp_iff]
    intro hsame
    have hlen := congrArg (fun c => c.qps.length) hsame
    simp [streamClose, streamOpen] at hlen
  | true =>
    cases rxWorker with
    | false =>
      -- the worker is joined and the entry of the table is left
      simp only [Bool.true_eq_false, if_false, if_true, Bool.false_eq_true, and_false, iff_false,
        true_imp_iff]
      intro hsame
      have hlen := congrArg (fun c => c.qps.length) hsame
      simp [streamClose, streamOpen, threadJoin, threadCreate] at hlen
    | true => simp [hroom]

/-- With a full table the stream for sending stays open and the completion queue has the address of
the queue pair that was freed; when a thread cannot be created, the table has it. -/
theorem createQp_leaves_traces :
    (let r := createQp ⟨[], List.range 256, fun _ => none, []⟩ (some ⟨true, some 0, some 0⟩)
      ⟨some 300, true, some 1, some 2, true, true⟩;
      r.2 = none ∧ r.1.streams = [2] ∧ r.1.rxQp 0 = some 300) ∧
    let r := createQp ⟨[], [], fun _ => none, []⟩ (some ⟨true, some 0, some 0⟩)
      ⟨some 300, true, some 1, some 2, false, true⟩;
    r.2 = none ∧ r.1.qps = [300] ∧ r.1.rxQp 0 = some 300 := by
  decide +kernel

end QpContext

/-! The two ways to release a queue pair, as lists of calls. They are the same in all states of the
threads, a join waits. -/

inductive TeardownOp where
  | stop (t : QpThread)
  | join (t : QpThread)
  | streamClose (id : Nat)
  | freeSq (qp : Nat)
  | freeQp (qp : Nat)
  | close
  deriving DecidableEq, Repr

structure LiveQp where
  address : Nat
  streamId : Nat
  txStreamId : Nat

namespace LiveQp
variable (qp : LiveQp)

def threads : List QpThread := [.worker qp.address, .rxWorker qp.address]

def destroy : List TeardownOp :=
  qp.threads.map TeardownOp.stop ++ qp.threads.map TeardownOp.join ++
    (if 0 < qp.txStreamId then [TeardownOp.streamClose qp.txStreamId] else []) ++
    (if 0 < qp.streamId then [TeardownOp.streamClose qp.streamId] else []) ++
    [TeardownOp.freeSq qp.address, .freeQp qp.address]

def free : List TeardownOp :=
  [TeardownOp.stop (.worker qp.address), .join (.worker qp.address)] ++
    (if 0 < qp.streamId then [TeardownOp.streamClose qp.streamId] else []) ++
    [TeardownOp.freeQp qp.address]

/-- Both threads are stopped and joined before the memory and the device handle are released, and
both streams are closed once. -/
structure Released (calls : List TeardownOp) : Prop where
  joined : ∀ t ∈ qp.threads, ∀ e ∈ [TeardownOp.freeQp qp.address, .close],
    .stop t ∈ calls.takeWhile (· ≠ e) ∧ .join t ∈ calls.takeWhile (· ≠ e)
  closed : ∀ id ∈ [qp.streamId, qp.txStreamId], calls.count (.streamClose id) = 1

end LiveQp

/-- `odl_free_context`; a context of the provider plugin has only the handle. -/
def freeContext (abiCompat : Bool) (qps : List LiveQp) : List TeardownOp :=
  (if abiCompat then [] else qps.flatMap LiveQp.free) ++ [.close]

section Teardown
variable {qp : LiveQp}

theorem destroy_released (hrx : 0 < qp.streamId) (htx : 0 < qp.txStreamId)
    (hne : qp.streamId ≠ qp.txStreamId) : qp.Released (qp.destroy ++ freeContext false []) := by
  constructor
  · simp [LiveQp.destroy, LiveQp.threads, freeContext, hrx, htx, List.takeWhile]
  · simp [LiveQp.destroy, LiveQp.threads, freeContext, hrx, htx, hne, hne.symm]

theorem not_joined (abiCompat : Bool) (qps : List LiveQp) (address : Nat) :
    .join (.rxWorker address) ∉ freeContext abiCompat qps := by
  have hfree (qp : LiveQp) : .join (.rxWorker address) ∉ qp.free := by
    rw [LiveQp.free]
    split <;> simp
  rw [freeContext]
  split
  · simp
  · simp [hfree]

/-- Closing a context releases its queue pairs as destroying them does if and only if there are
none. -/
theorem freeContext_releases_iff (abiCompat : Bool) (qps : List LiveQp) :
    (∀ qp ∈ qps, qp.Released (freeContext abiCompat qps)) ↔ qps = [] := by
  constructor
  · intro hall
    by_contra hne
    obtain ⟨qp, hqp⟩ := List.exists_mem_of_ne_nil qps hne
    obtain ⟨-, hjoin⟩ := (hall qp hqp).joined (.rxWorker qp.address) (by simp [LiveQp.threads]) .close
      (by simp)
    exact not_joined abiCompat qps qp.address (List.takeWhile_subset _ hjoin)
  · rintro rfl
    simp

/-- The receive thread of the queue pair goes on, and its stream for sending is not closed. -/
theorem freeContext_leaves_thread : let qp : LiveQp := ⟨300, 1, 2⟩
    freeContext false [qp] = [.stop (.worker 300), .join (.worker 300), .streamClose 1, .freeQp 300,
      .close] ∧ ¬ qp.Released (freeContext false [qp]) := by
  refine ⟨rfl, fun hreleased => ?_⟩
  have hclosed := hreleased.closed 2 (by simp)
  exact absurd hclosed (by decide)

end Teardown

end OdinLink
