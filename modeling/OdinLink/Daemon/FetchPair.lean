import OdinLink.Daemon.FetchHandlers
import OdinLink.Daemon.FetchServe

/-!
# A fetch between two daemons

Our daemon and the peer's. Somebody calls `fetch_file` at ours, the peer handles requests, and ours
handles what the peer has sent. Every handler is run without a break, and so are the two parts of
`fetch_file`, before and after the caller waits. A message may be handled at any time after it was
sent, any number of times.
-/

namespace OdinLink

open Paths FileTree Scripts

/-- `waiting` is the path of the call that waits, `returned` what the last act returned, `before`
our files when the call began; the peer and we have handled the messages up to `served` and `taken`,
and `start` is the response accepted last. -/
structure FetchPair where
  a : SyncMem
  b : SyncMem
  waiting : Option (List UInt8)
  returned : Option (List UInt8 × Int)
  served : Nat
  taken : Nat
  start : Nat
  before : Files

inductive FetchAct where
  | call (p : List UInt8) (xs : List SyncEnv)
  | serve (k : Nat) (xs : List SyncEnv)
  | take (k : Nat) (xs : List SyncEnv)
  | collect (xs : List SyncEnv)
  | edit (t : Files)

namespace FetchPair

def accepts (s : FetchPair) : SyncMsg → Bool
  | .fetchResp rel _ _ status =>
    s.a.fetch.inProgress && decide (s.a.fetch.pendingPath = rel) && decide (status = 0)
  | _ => false

section Step
variable (sha256 : List UInt8 → List UInt8) (dA dB : SyncDirs)

def step (s : FetchPair) : FetchAct → Option (FetchPair × List Empty)
  | .call p xs =>
    if s.waiting.isSome then none
    else (finish (exec sha256) (fetchRequest p) s.a xs).map fun r =>
      ({s with a := r.1, waiting := if r.2.1 = none then some p else none,
               returned := r.2.1.map (p, ·), before := s.a.files}, [])
  | .serve k xs =>
    s.a.sent[k]?.bind fun msg => (finish (exec sha256) (syncDispatch dB msg) s.b xs).map fun r =>
      ({s with b := r.1, served := k + 1, returned := none}, [])
  | .take k xs =>
    s.b.sent[k]?.bind fun msg => (finish (exec sha256) (syncDispatch dA msg) s.a xs).map fun r =>
      ({s with a := r.1, taken := k + 1, start := if s.accepts msg then k else s.start,
               returned := none}, [])
  | .collect xs =>
    s.waiting.bind fun p => (finish (exec sha256) (fetchMove dA p) s.a xs).map fun r =>
      ({s with a := r.1, waiting := none, returned := some (p, r.2.1)}, [])
  -- the peer's files change
  | .edit t => some ({s with b := {s.b with files := t}, returned := none}, [])

end Step

section Cases
variable {sha256 : List UInt8 → List UInt8} {dA dB : SyncDirs} {s s' : FetchPair} {es : List Empty}

theorem step_call {p : List UInt8} {xs : List SyncEnv}
    (hstep : s.step sha256 dA dB (.call p xs) = some (s', es)) :
    s.waiting = none ∧ ∃ m r fs, finish (exec sha256) (fetchRequest p) s.a xs = some (m, r, fs) ∧
      s' = {s with a := m, waiting := if r = none then some p else none, returned := r.map (p, ·),
                   before := s.a.files} := by
  rw [step] at hstep
  split at hstep
  · contradiction
  · rename_i hwait
    obtain ⟨⟨m, r, fs⟩, hfin, heq⟩ := Option.map_eq_some_iff.mp hstep
    exact ⟨by simpa using hwait, m, r, fs, hfin, (congrArg Prod.fst heq).symm⟩

theorem step_serve {k : Nat} {xs : List SyncEnv}
    (hstep : s.step sha256 dA dB (.serve k xs) = some (s', es)) :
    ∃ msg m fs, s.a.sent[k]? = some msg ∧
      finish (exec sha256) (syncDispatch dB msg) s.b xs = some (m, (), fs) ∧
      s' = {s with b := m, served := k + 1, returned := none} := by
  obtain ⟨msg, hmsg, hmap⟩ := Option.bind_eq_some_iff.mp hstep
  obtain ⟨⟨m, _, fs⟩, hfin, heq⟩ := Option.map_eq_some_iff.mp hmap
  exact ⟨msg, m, fs, hmsg, hfin, (congrArg Prod.fst heq).symm⟩

theorem step_take {k : Nat} {xs : List SyncEnv}
    (hstep : s.step sha256 dA dB (.take k xs) = some (s', es)) :
    ∃ msg m fs, s.b.sent[k]? = some msg ∧
      finish (exec sha256) (syncDispatch dA msg) s.a xs = some (m, (), fs) ∧
      s' = {s with a := m, taken := k + 1, start := if s.accepts msg then k else s.start,
                   returned := none} := by
  obtain ⟨msg, hmsg, hmap⟩ := Option.bind_eq_some_iff.mp hstep
  obtain ⟨⟨m, _, fs⟩, hfin, heq⟩ := Option.map_eq_some_iff.mp hmap
  exact ⟨msg, m, fs, hmsg, hfin, (congrArg Prod.fst heq).symm⟩

theorem step_collect {xs : List SyncEnv}
    (hstep : s.step sha256 dA dB (.collect xs) = some (s', es)) :
    ∃ p m r fs, s.waiting = some p ∧ finish (exec sha256) (fetchMove dA p) s.a xs = some (m, r, fs) ∧
      s' = {s with a := m, waiting := none, returned := some (p, r)} := by
  obtain ⟨p, hp, hmap⟩ := Option.bind_eq_some_iff.mp hstep
  obtain ⟨⟨m, r, fs⟩, hfin, heq⟩ := Option.map_eq_some_iff.mp hmap
  exact ⟨p, m, r, fs, hp, hfin, (congrArg Prod.fst heq).symm⟩

theorem step_edit {t : Files} (hstep : s.step sha256 dA dB (.edit t) = some (s', es)) :
    s' = {s with b := {s.b with files := t}, returned := none} :=
  (congrArg Prod.fst (Option.some.inj hstep)).symm

end Cases

end FetchPair

end OdinLink
