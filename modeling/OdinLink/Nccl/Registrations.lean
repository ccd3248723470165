import OdinLink.Lib.Threads
import OdinLink.Verbs.MemoryRegions

/-!
# Registrations of the NCCL plugin

`regMr` exports device memory as a dma-buf. The descriptor is kept in the handle that is returned
and in a table of the communicator, and `deregMr` closes it for each of them.
-/

namespace OdinLink.Nccl

open History Threads

def odlNcclMaxMr : Nat := 64

inductive PtrType where
  | host
  | cuda
  deriving DecidableEq, Repr

/-- `struct odl_nccl_mr`, or an entry of the table; `dmabufFd` is `none` for -1. -/
structure Mr where
  dmabufFd : Option Nat
  baseAddr : UInt64
  deriving DecidableEq, Repr

inductive FdEvent where
  | exported (fd : Nat)
  | closed (fd : Nat)
  deriving DecidableEq, Repr

/-- `handles` are the registrations that are not released, `fds` the dma-buf descriptors that are
open. -/
structure Comm where
  refcount : Nat := 2
  mr : List Mr := []
  handles : List Mr := []
  fds : List Nat := []
  log : List FdEvent := []
  deriving DecidableEq, Repr

inductive Call where
  | regMr (data : UInt64) (type : PtrType) (dmabuf : Option Nat) (calloc : Bool)
  | deregMr (k : Nat)
  | closeSend
  deriving DecidableEq, Repr

namespace Comm

section Calls
variable (cudaAvailable : Bool) (c : Comm)

def mrLookupFd (data : UInt64) : Option Nat :=
  (c.mr.find? (·.baseAddr == data)).bind Mr.dmabufFd

def mrAdd (r : Mr) : Comm :=
  if odlNcclMaxMr ≤ c.mr.length then c else {c with mr := c.mr ++ [r]}

def close (fd : Nat) : Comm :=
  {c with fds := c.fds.filter (· ≠ fd), log := c.log ++ [.closed fd]}

def mrRemoveByFd (fd : Nat) : Comm :=
  match c.mr.findIdx? (·.dmabufFd == some fd) with
  | none => c
  | some i => {c.close fd with mr := swapRemove c.mr i}

def register (r : Mr) : Comm := {c.mrAdd r with handles := c.handles ++ [r]}

def regMr (data : UInt64) (type : PtrType) (dmabuf : Option Nat) (calloc : Bool) : Comm :=
  if type = .cuda ∧ cudaAvailable then
    match dmabuf with
    | none => c
    | some fd =>
      let c : Comm := {c with fds := fd :: c.fds, log := c.log ++ [.exported fd]}
      if calloc then c.register ⟨some fd, data⟩ else c.close fd
  else if calloc then c.register ⟨none, data⟩
  else c

def release (r : Mr) : Comm :=
  match r.dmabufFd with
  | none => c
  | some fd => (c.mrRemoveByFd fd).close fd

def deregMr (k : Nat) : Comm :=
  match c.handles[k]? with
  | none => c
  | some r => {c.release r with handles := c.handles.eraseIdx k}

/-- Nothing is registered with a communicator that was freed. -/
def closeSend : Comm :=
  if c.refcount = 1 then {c with refcount := 0, handles := []}
  else {c with refcount := c.refcount - 1}

/-- A communicator that was freed is not used, and no open descriptor is given out again. -/
def possible : Call → Bool
  | .regMr _ _ (some fd) _ => c.refcount != 0 && !c.fds.contains fd
  | _ => c.refcount != 0

def call : Call → Comm
  | .regMr data type dmabuf calloc => c.regMr cudaAvailable data type dmabuf calloc
  | .deregMr k => c.deregMr k
  | .closeSend => c.closeSend

def step (x : Call) : Comm := if c.possible x then c.call cudaAvailable x else c

def holds (fd : Nat) : Nat := c.handles.countP (·.dmabufFd == some fd)

/-- Every descriptor was closed once, those of the registrations apart, which are open and are found
by their pointer. -/
structure OwnsFds : Prop where
  once : ∀ fd, c.log.count (.exported fd) = c.log.count (.closed fd) + c.holds fd
  stays : ∀ r ∈ c.handles, ∀ fd ∈ r.dmabufFd, fd ∈ c.fds
  found : ∀ r ∈ c.handles, r.dmabufFd ≠ none → c.mrLookupFd r.baseAddr = r.dmabufFd

/-- Device memory is registered when there is room in the table and no entry for its pointer with
another descriptor. It is not released, and the communicator is freed when none is registered. -/
def Careful : Call → Prop
  | .regMr data type dmabuf calloc =>
    type = .cuda ∧ cudaAvailable → dmabuf ≠ none → calloc = true →
      match c.mr.find? (·.baseAddr == data) with
      | some e => e.dmabufFd = dmabuf
      | none => c.mr.length < odlNcclMaxMr
  | .deregMr k => ∀ r ∈ c.handles[k]?, r.dmabufFd = none
  | .closeSend => c.refcount = 1 → ∀ r ∈ c.handles, r.dmabufFd = none

end Calls

section Keeps
variable {cudaAvailable : Bool} {c : Comm} {r : Mr}

theorem lookup_register (data : UInt64) : (c.register r).mrLookupFd data =
    match c.mr.find? (·.baseAddr == data) with
    | some e => e.dmabufFd
    | none => if c.mr.length < odlNcclMaxMr ∧ r.baseAddr = data then r.dmabufFd else none := by
  unfold register mrAdd mrLookupFd
  cases he : c.mr.find? (·.baseAddr == data) with
  | some e => split <;> simp [he]
  | none =>
    split
    · rw [he, if_neg (by omega)]
      rfl
    · simp only [List.find?_append, he, List.find?_singleton, Option.none_or, beq_iff_eq]
      split <;> simp_all

theorem register_owns_iff (hc : c.OwnsFds) {fds : List Nat} {log : List FdEvent}
    (hsub : c.fds ⊆ fds) (hfds : ∀ fd ∈ r.dmabufFd, fd ∈ fds)
    (honce : ∀ fd, log.count (.exported fd) =
      log.count (.closed fd) + c.holds fd + if r.dmabufFd = some fd then 1 else 0) :
    (register {c with fds := fds, log := log} r).OwnsFds ↔ (r.dmabufFd ≠ none →
      match c.mr.find? (·.baseAddr == r.baseAddr) with
      | some e => e.dmabufFd = r.dmabufFd
      | none => c.mr.length < odlNcclMaxMr) := by
  have hsame : (register {c with fds := fds, log := log} r).log = log ∧
      (register {c with fds := fds, log := log} r).fds = fds := by
    simp only [register, mrAdd]
    split <;> exact ⟨rfl, rfl⟩
  constructor
  · intro h hfd
    have hnew := h.found r (List.mem_append_right _ List.mem_cons_self) hfd
    rw [lookup_register] at hnew
    cases he : c.mr.find? (·.baseAddr == r.baseAddr) with
    | some e => simpa [he] using hnew
    | none =>
      by_contra hfull
      exact hfd (by simpa [he, hfull] using hnew.symm)
  · intro hlist
    refine ⟨fun fd => ?_, fun r' hr' fd hfd => ?_, fun r' hr' hfd => ?_⟩
    · rw [hsame.1, honce, Nat.add_assoc]
      simp [holds, register, List.countP_singleton]
    · rw [hsame.2]
      rcases List.mem_append.mp hr' with hold | hnew
      · exact hsub (hc.stays r' hold fd hfd)
      · exact hfds fd (List.mem_singleton.mp hnew ▸ hfd)
    · rw [lookup_register]
      rcases List.mem_append.mp hr' with hold | hnew
      · have hsome := hc.found r' hold hfd
        unfold mrLookupFd at hsome
        split <;> simp_all
      · obtain rfl := List.mem_singleton.mp hnew
        have := hlist hfd
        split <;> simp_all

theorem regMr_owns_iff (hc : c.OwnsFds) {data : UInt64} {type : PtrType} {dmabuf : Option Nat}
    {calloc : Bool} (hnew : ∀ fd ∈ dmabuf, fd ∉ c.fds) :
    (c.regMr cudaAvailable data type dmabuf calloc).OwnsFds ↔
      c.Careful cudaAvailable (.regMr data type dmabuf calloc) := by
  unfold regMr Careful
  split
  · rename_i hcuda
    cases dmabuf with
    | none => exact iff_of_true hc (by simp)
    | some fd =>
      cases calloc with
      | true =>
        simp only [if_true, hcuda, true_imp_iff, and_self]
        refine register_owns_iff hc (List.subset_cons_self _ _) (by simp) fun fd' => ?_
        simp [List.count_singleton, hc.once fd']
      | false =>
        refine iff_of_true ⟨fun fd' => ?_, fun r hr fd' hfd => ?_, hc.found⟩ (by simp)
        · have honce := hc.once fd'
          simp only [close, holds] at honce ⊢
          simp [List.count_cons, honce]
          omega
        · have hmem := hc.stays r hr fd' hfd
          have hne : fd' ≠ fd := ne_of_mem_of_not_mem hmem (hnew fd rfl)
          simp [close, hmem, hne]
  · rename_i hhost
    cases calloc with
    | true =>
      refine (register_owns_iff hc (List.Subset.refl _) (by simp) ?_).trans (by simp [hhost])
      simpa using hc.once
    | false => exact iff_of_true hc (by simp)

theorem release_log (hc : c.OwnsFds) (hr : r ∈ c.handles) {fd : Nat} (hfd : r.dmabufFd = some fd) :
    (c.release r).log = c.log ++ [.closed fd] ++ [.closed fd] := by
  have hfound := hc.found r hr (by simp [hfd])
  rw [hfd, mrLookupFd] at hfound
  obtain ⟨e, he, hefd⟩ := Option.bind_eq_some_iff.mp hfound
  have hlisted : ∃ e ∈ c.mr, (e.dmabufFd == some fd) = true :=
    ⟨e, List.mem_of_find?_eq_some he, by simp [hefd]⟩
  rw [← List.any_eq_true, ← List.findIdx?_isSome, Option.isSome_iff_exists] at hlisted
  obtain ⟨i, hi⟩ := hlisted
  simp [release, hfd, mrRemoveByFd, hi, close]

theorem deregMr_owns_iff (hc : c.OwnsFds) {k : Nat} :
    (c.deregMr k).OwnsFds ↔ c.Careful cudaAvailable (.deregMr k) := by
  simp only [deregMr, Careful]
  cases hr : c.handles[k]? with
  | none => exact iff_of_true hc (by simp)
  | some r =>
    have hcount (fd : Nat) := countP_eraseIdx hr (·.dmabufFd == some fd)
    cases hfd : r.dmabufFd with
    | none =>
      simp only [release, hfd]
      refine iff_of_true ⟨fun fd => ?_, fun r' hr' => ?_, fun r' hr' => ?_⟩ (by simp [hfd])
      · have honce := hc.once fd
        have hsame := hcount fd
        simp [hfd] at hsame
        simp only [holds] at honce ⊢
        omega
      · exact hc.stays r' (List.mem_of_mem_eraseIdx hr')
      · exact hc.found r' (List.mem_of_mem_eraseIdx hr')
    | some fd =>
      refine iff_of_false (fun h => ?_) (by simp [hfd])
      have hbefore := hc.once fd
      have hafter := h.once fd
      have hless := hcount fd
      simp only [release_log hc (List.mem_of_getElem? hr) hfd, holds] at hbefore hafter
      simp [hfd] at hless hafter
      omega

theorem step_owns_iff (hc : c.OwnsFds) (x : Call) : (c.step cudaAvailable x).OwnsFds ↔
    (c.possible x = true → c.Careful cudaAvailable x) := by
  unfold step
  split
  · rename_i hpossible
    simp only [hpossible, true_imp_iff]
    cases x with
    | regMr data type dmabuf calloc =>
      refine regMr_owns_iff hc fun fd hfd => ?_
      cases hfd
      simpa using (Bool.and_eq_true_iff.mp hpossible).2
    | deregMr k => exact deregMr_owns_iff hc
    | closeSend =>
      simp only [call, closeSend, Careful]
      split
      · rename_i hlast
        constructor
        · intro h _ r hr
          by_contra hfd
          obtain ⟨fd, hfd⟩ := Option.ne_none_iff_exists'.mp hfd
          have hpos : 0 < c.holds fd := List.countP_pos_iff.mpr ⟨r, hr, by simp [hfd]⟩
          have hafter : c.log.count (.exported fd) = c.log.count (.closed fd) := h.once fd
          have hbefore := hc.once fd
          omega
        · intro hnone
          refine ⟨fun fd => ?_, by simp, by simp⟩
          have hzero : c.holds fd = 0 :=
            List.countP_eq_zero.mpr fun r hr => by simp [hnone hlast r hr]
          have honce := hc.once fd
          rwa [hzero] at honce
      · rename_i hmore
        exact iff_of_true ⟨hc.once, hc.stays, hc.found⟩ fun h => absurd h hmore
  · simp_all

end Keeps

/-- The plugin's registrations own their descriptors exactly as long as device memory is registered
in the table under a pointer of its own, is not released, and is not left behind by the communicator:
every release closes the descriptor once for the table and once for the handle. -/
theorem registrations_own_iff (cudaAvailable : Bool) (calls : List Call) :
    Throughout (step cudaAvailable) OwnsFds {} calls ↔
      Meets (step cudaAvailable) (fun c x => c.possible x = true → c.Careful cudaAvailable x) {}
        calls := by
  have htrue (c : Comm) (x : Call) (_ : True) : True := trivial
  refine throughout_iff_meets htrue (fun c x _ hc => step_owns_iff hc x) trivial ?_ calls
  exact ⟨fun _ => rfl, by simp, by simp⟩

def registerAndRelease : List Call := [.regMr 4096 .cuda (some 3) true, .deregMr 0]

theorem release_closes_twice : (registerAndRelease.foldl (step true) {}).log =
    [.exported 3, .closed 3, .closed 3] ∧
      ¬ Throughout (step true) OwnsFds {} registerAndRelease := by
  refine ⟨rfl, fun h => ?_⟩
  exact absurd (h.2.2.once 3) (by decide)

end Comm

end OdinLink.Nccl
