import Mathlib.Logic.Function.Basic
import OdinLink.Daemon.Delivery

/-!
# What the files hold

For what a transfer is about, the file system is a function from paths to bytes: directories, links,
modes and times do not matter.
-/

namespace OdinLink

open Paths FileTree Scripts Function

def contents (t : Files) (q : List Name) : Option (List UInt8) :=
  match t.lookup q with
  | some (.file f) => some f.bytes
  | _ => none

section Contents
variable {t t' : Files} {q : List Name}

theorem fileAt_iff {bytes : List UInt8} : FileAt t q bytes ↔ contents t q = some bytes := by
  rw [FileAt, contents]
  split <;> simp_all

theorem contents_congr (h : ∀ q bytes, FileAt t' q bytes ↔ FileAt t q bytes) :
    contents t' = contents t := by
  funext q
  refine Option.ext fun bytes => ?_
  rw [← fileAt_iff, ← fileAt_iff, h]

@[simp] theorem contents_mkdirs (paths : List (List Name)) (limit : Nat) :
    contents (mkdirs t paths limit).1 = contents t :=
  contents_congr fun _ _ => fileAt_mkdirs

theorem contents_insert (node : Node FileData) : contents (t.insert q node) =
    update (contents t) q (contents (t.insert q node) q) := by
  funext p
  by_cases hp : p = q
  · rw [hp, update_self]
  · rw [update_of_ne hp, contents, contents, lookup_insert_eq, if_neg hp]

theorem contents_erase : contents (t.erase q) = update (contents t) q none := by
  funext p
  by_cases hp : p = q
  · rw [hp, update_self, contents, lookup_erase_eq, if_pos rfl]
  · rw [update_of_ne hp, contents, contents, lookup_erase_eq, if_neg hp]

theorem contents_unlink (hun : unlink t q = some t') : contents t' = update (contents t) q none := by
  rw [(unlink_eq hun).2, contents_erase]

theorem contents_add {f : FileData} (hadd : add t q (.file f) = some t') :
    contents t q = none ∧ contents t' = update (contents t) q (some f.bytes) := by
  obtain ⟨hnone, rfl⟩ := add_eq hadd
  refine ⟨by rw [contents, hnone], ?_⟩
  rw [contents_insert, contents, lookup_insert_eq, if_pos rfl]

theorem contents_rename {old new : List Name} (hre : rename t old new = some t') :
    contents t' = update (update (contents t) old none) new (contents t old) := by
  obtain ⟨node, hnode, hdir, -, -, rfl⟩ := rename_eq hre
  rw [contents_insert, contents_erase]
  congr 1
  rw [contents, contents, hnode, lookup_insert_eq, if_pos rfl]

theorem contents_setFile {m : SyncMem} {path : List UInt8} {f : FileData → FileData}
    (hf : ∀ data, (f data).bytes = data.bytes) :
    contents (m.setFile path f).files = contents m.files :=
  contents_congr fun _ _ => fileAt_setFile (.inr hf)

theorem contents_write {m : SyncMem} {path data : List UInt8} :
    contents (m.setFile path fun f => {f with bytes := f.bytes ++ data}).files =
      update (contents m.files) (resolve path) ((contents m.files (resolve path)).map (· ++ data)) := by
  rw [SyncMem.setFile, SyncMem.nodeAt]
  split
  · rename_i f hf
    rw [contents_insert]
    congr 1
    rw [contents, contents, hf, lookup_insert_eq, if_pos rfl]
    rfl
  · rename_i hno
    have hnone : contents m.files (resolve path) = none := by
      rw [contents]
      split
      · exact absurd ‹_› (hno _)
      · rfl
    rw [hnone, Option.map_none, ← hnone, update_eq_self]

end Contents

structure SyncView where
  contents : List Name → Option (List UInt8)
  catalog : Catalog
  fetch : FetchState
  fetchLocked : Bool
  txLocked : Bool
  sent : List SyncMsg

def SyncView.holding (v : SyncView) (c : List Name → Option (List UInt8)) : SyncView :=
  {v with contents := c}

def SyncMem.view (m : SyncMem) : SyncView :=
  ⟨OdinLink.contents m.files, m.catalog, m.fetch, m.fetchLocked, m.txLocked, m.sent⟩

theorem view_setFile (m : SyncMem) (path : List UInt8) (f : FileData → FileData) :
    (m.setFile path f).view = m.view.holding (contents (m.setFile path f).files) := by
  rcases m.setFile_cases path f with hset | ⟨data, -, hset⟩
  · rw [hset]
    rfl
  · rw [hset]
    rfl

theorem view_withFiles (m : SyncMem) {t : Files} {c : List Name → Option (List UInt8)}
    (ht : contents t = c) : (m.withFiles (some t)).1.view = m.view.holding c := by
  subst ht
  rfl

/-- With answers of the surroundings that are fine, the program ends with `Q`, from every state that
looks like this. -/
def Leads (sha256 : List UInt8 → List UInt8) (fine : SyncMem → SyncOp → SyncEnv → Prop) {α : Type}
    (Q : SyncView → α → Prop) (p : Sync α) (v : SyncView) : Prop :=
  ∀ m : SyncMem, m.view = v → Brings sha256 fine (fun m' a => Q m'.view a) p m

section Leads
variable {sha256 : List UInt8 → List UInt8} {fine : SyncMem → SyncOp → SyncEnv → Prop} {α β : Type}
variable {f : Unit → Sync α} {path : List UInt8} {rel : List UInt8}
  {Q : SyncView → α → Prop} {v : SyncView}

theorem Leads.finish {p : Sync α} {m m' : SyncMem} {xs : List SyncEnv} {a : α} {es : List SyncEvent}
    (hp : Leads sha256 fine Q p m.view) (hfine : FineRun (exec sha256) fine p m xs)
    (hfin : Scripts.finish (exec sha256) p m xs = some (m', a, es)) : Q m'.view a :=
  (hp m rfl).finish hfine hfin

theorem leads_pure {a : α} (ha : Q v a) : Leads sha256 fine Q (pure a) v := by
  rintro m rfl
  exact ha

theorem leads_op {op : SyncOp} {f : op.Res → Sync α} (hf : ∀ m x m' r es, m.view = v →
    fine m op x → exec sha256 m op x = some (m', r, es) → Leads sha256 fine Q (f r) m'.view) :
    Leads sha256 fine Q (syncOp op >>= f) v :=
  fun m hm => brings_op fun x m' r es hfine hexec => hf m x m' r es hm hfine hexec m' rfl

theorem leads_bind {p : Sync β} {f : β → Sync α} {R : SyncView → β → Prop}
    (hp : Leads sha256 fine R p v) (hf : ∀ v b, R v b → Leads sha256 fine Q (f b) v) :
    Leads sha256 fine Q (p >>= f) v :=
  fun m hm => Ensures.bind (hp m hm) fun m' b hb => hf m'.view b hb m' rfl

theorem leads_when {c : Prop} [Decidable c] {Q : SyncView → Unit → Prop} {p : Sync Unit}
    (hp : c → Leads sha256 fine Q p v) (hQ : ¬ c → Q v ()) : Leads sha256 fine Q (p.when c) v := by
  rintro m rfl
  exact Ensures.when (fun hc => hp hc m rfl) hQ

theorem leads_last {p : Sync α} (hp : Leads sha256 fine Q (p >>= pure) v) :
    Leads sha256 fine Q p v := by
  rwa [bind_pure] at hp

theorem leads_lockFetch (hf : v.fetchLocked = false →
    Leads sha256 fine Q (f ()) {v with fetchLocked := true}) :
    Leads sha256 fine Q (syncOp .lockFetch >>= f) v := by
  refine leads_op fun m x m' r es hm _ hexec => ?_
  subst hm
  rw [exec] at hexec
  split at hexec <;> cases hexec
  exact hf (Bool.eq_false_iff.mpr ‹_›)

theorem leads_unlockFetch (hf : Leads sha256 fine Q (f ()) {v with fetchLocked := false}) :
    Leads sha256 fine Q (syncOp .unlockFetch >>= f) v := by
  refine leads_op fun m x m' r es hm _ hexec => ?_
  subst hm
  cases hexec
  exact hf

theorem leads_awaitFetch (hf : v.fetchLocked = false →
    v.fetch.inProgress = false → Leads sha256 fine Q (f ()) {v with fetchLocked := true}) :
    Leads sha256 fine Q (syncOp .awaitFetch >>= f) v := by
  refine leads_op fun m x m' r es hm _ hexec => ?_
  subst hm
  rw [exec] at hexec
  split at hexec
  · contradiction
  · rename_i hfree
    cases hexec
    rw [Bool.or_eq_true, not_or, Bool.not_eq_true, Bool.not_eq_true] at hfree
    exact hf hfree.1 hfree.2

theorem leads_lockTx (hf : v.txLocked = false →
    Leads sha256 fine Q (f ()) {v with txLocked := true}) :
    Leads sha256 fine Q (syncOp .lockTx >>= f) v := by
  refine leads_op fun m x m' r es hm _ hexec => ?_
  subst hm
  rw [exec] at hexec
  split at hexec <;> cases hexec
  exact hf (Bool.eq_false_iff.mpr ‹_›)

theorem leads_unlockTx (hf : Leads sha256 fine Q (f ()) {v with txLocked := false}) :
    Leads sha256 fine Q (syncOp .unlockTx >>= f) v := by
  refine leads_op fun m x m' r es hm _ hexec => ?_
  subst hm
  cases hexec
  exact hf

theorem leads_send {msg : SyncMsg} {f : Bool → Sync α}
    (hok : Leads sha256 fine Q (f true) {v with sent := v.sent ++ [msg]})
    (hfail : ∀ m x, fine m (.send msg) x → x.ok = false → Leads sha256 fine Q (f false) v) :
    Leads sha256 fine Q (syncOp (.send msg) >>= f) v := by
  refine leads_op fun m x m' r es hm hfine hexec => ?_
  subst hm
  rw [exec] at hexec
  split at hexec <;> cases hexec
  · exact hok
  · exact hfail m x hfine (Bool.eq_false_iff.mpr ‹_›)

theorem leads_getFetch {f : FetchState → Sync α} (hf : Leads sha256 fine Q (f v.fetch) v) :
    Leads sha256 fine Q (syncOp .getFetch >>= f) v := by
  refine leads_op fun m x m' r es hm _ hexec => ?_
  subst hm
  cases hexec
  exact hf

theorem leads_setFetch {g : FetchState} (hf : Leads sha256 fine Q (f ()) {v with fetch := g}) :
    Leads sha256 fine Q (syncOp (.setFetch g) >>= f) v := by
  refine leads_op fun m x m' r es hm _ hexec => ?_
  subst hm
  cases hexec
  exact hf

theorem leads_suppressAdd (hf : Leads sha256 fine Q (f ()) v) :
    Leads sha256 fine Q (syncOp (.suppressAdd rel) >>= f) v := by
  refine leads_op fun m x m' r es hm _ hexec => ?_
  subst hm
  cases hexec
  exact hf

theorem leads_lookup {f : Option CatalogEntry → Sync α}
    (hf : Leads sha256 fine Q (f (v.catalog.lookup rel)) v) :
    Leads sha256 fine Q (syncOp (.catalogLookup rel) >>= f) v := by
  refine leads_op fun m x m' r es hm _ hexec => ?_
  subst hm
  cases hexec
  exact hf

theorem leads_markCached
    (hf : Leads sha256 fine Q (f ()) {v with catalog := v.catalog.markCached rel}) :
    Leads sha256 fine Q (syncOp (.catalogMarkCached rel) >>= f) v := by
  refine leads_op fun m x m' r es hm _ hexec => ?_
  subst hm
  cases hexec
  exact hf

theorem leads_markBoth (hf : Leads sha256 fine Q (f ()) {v with catalog := v.catalog.markBoth rel}) :
    Leads sha256 fine Q (syncOp (.catalogMarkBoth rel) >>= f) v := by
  refine leads_op fun m x m' r es hm _ hexec => ?_
  subst hm
  cases hexec
  exact hf

theorem leads_mkdir {f : Bool → Sync α} (hf : ∀ ok, Leads sha256 fine Q (f ok) v) :
    Leads sha256 fine Q (syncOp (.mkdirWithParents path) >>= f) v := by
  refine leads_op fun m x m' r es hm _ hexec => ?_
  subst hm
  cases hexec
  have hview : SyncMem.view {m with files := (mkdirs m.files (wayTo path) x.limit).1} = m.view := by
    rw [SyncMem.view, SyncMem.view, contents_mkdirs]
  exact hview ▸ hf _

theorem leads_unlink {f : Bool → Sync α}
    (hok : Leads sha256 fine Q (f true) (v.holding (update v.contents (resolve path) none)))
    (hfail : Leads sha256 fine Q (f false) v) :
    Leads sha256 fine Q (syncOp (.unlink path) >>= f) v := by
  refine leads_op fun m x m' r es hm _ hexec => ?_
  subst hm
  cases hexec
  cases hun : (if x.ok then unlink m.files (resolve path) else none) with
  | none => exact hfail
  | some t =>
    have hcontents := contents_unlink (Option.ite_none_right_eq_some.mp hun).2
    rw [view_withFiles m hcontents]
    exact hok

def tmpIn (dir : List UInt8) (x : SyncEnv) : List UInt8 := dir ++ slash :: (syncTmpPrefix ++ x.name)

def newFile : Node FileData := .file ⟨[], 0o600, 0, false⟩

def Unmade (dir : List UInt8) (m : SyncMem) (x : SyncEnv) : Prop :=
  x.ok = false ∨ add m.files (resolve (tmpIn dir x)) newFile = none

theorem leads_mkstemp {dir : List UInt8} {f : Option (List UInt8) → Sync α}
    (hok : ∀ x, slash ∉ x.name → v.contents (resolve (tmpIn dir x)) = none →
      Leads sha256 fine Q (f (some (tmpIn dir x)))
        (v.holding (update v.contents (resolve (tmpIn dir x)) (some []))))
    (hfail : ∀ m x, fine m (.mkstemp dir) x → Unmade dir m x → Leads sha256 fine Q (f none) v) :
    Leads sha256 fine Q (syncOp (.mkstemp dir) >>= f) v := by
  refine leads_op fun m x m' r es hm hfine hexec => ?_
  subst hm
  rw [exec] at hexec
  split at hexec <;> cases hexec
  have htmp : dir ++ slash :: (syncTmpPrefix ++ x.name) = tmpIn dir x := rfl
  have hnew : (.file ⟨[], 0o600, 0, false⟩ : Node FileData) = newFile := rfl
  rw [htmp, hnew]
  cases hadd : (if x.ok then add m.files (resolve (tmpIn dir x)) newFile else none) with
  | none =>
    refine hfail m x hfine ?_
    rw [Unmade, or_iff_not_imp_left, Bool.not_eq_false]
    exact fun hx => by rwa [if_pos hx] at hadd
  | some t =>
    obtain ⟨hnone, hcontents⟩ := contents_add (Option.ite_none_right_eq_some.mp hadd).2
    rw [view_withFiles m hcontents]
    exact hok x ‹_› hnone

theorem leads_write {path data : List UInt8} {f : Bool → Sync α}
    (hok : Leads sha256 fine Q (f true) (v.holding
      (update v.contents (resolve path) ((v.contents (resolve path)).map (· ++ data)))))
    (hfail : ∀ m x, fine m (.write path data) x → x.ok = false → Leads sha256 fine Q (f false) v) :
    Leads sha256 fine Q (syncOp (.write path data) >>= f) v := by
  refine leads_op fun m x m' r es hm hfine hexec => ?_
  subst hm
  rw [exec] at hexec
  split at hexec <;> cases hexec
  · rw [view_setFile, contents_write]
    exact hok
  · exact hfail m x hfine (Bool.eq_false_iff.mpr ‹_›)

def Unmoved (old new : List UInt8) (m : SyncMem) (x : SyncEnv) : Prop :=
  x.ok = false ∨ rename m.files (resolve old) (resolve new) = none

theorem leads_rename {old new : List UInt8} {f : Bool → Sync α}
    (hok : Leads sha256 fine Q (f true) (v.holding
      (update (update v.contents (resolve old) none) (resolve new) (v.contents (resolve old)))))
    (hfail : ∀ m x, fine m (.rename old new) x → Unmoved old new m x →
      Leads sha256 fine Q (f false) v) :
    Leads sha256 fine Q (syncOp (.rename old new) >>= f) v := by
  refine leads_op fun m x m' r es hm hfine hexec => ?_
  subst hm
  cases hexec
  cases hre : (if x.ok then rename m.files (resolve old) (resolve new) else none) with
  | none =>
    refine hfail m x hfine ?_
    rw [Unmoved, or_iff_not_imp_left, Bool.not_eq_false]
    exact fun hx => by rwa [if_pos hx] at hre
  | some t =>
    have hcontents := contents_rename (Option.ite_none_right_eq_some.mp hre).2
    rw [view_withFiles m hcontents]
    exact hok

theorem leads_chmod {mode : Nat}
    (hf : Leads sha256 fine Q (f ()) v) : Leads sha256 fine Q (syncOp (.chmod path mode) >>= f) v := by
  refine leads_op fun m x m' r es hm _ hexec => ?_
  subst hm
  cases hexec
  rw [view_setFile, contents_setFile (by exact fun _ => rfl)]
  exact hf

theorem leads_utimens {mtimeNs : Nat} (hf : Leads sha256 fine Q (f ()) v) :
    Leads sha256 fine Q (syncOp (.utimens path mtimeNs) >>= f) v := by
  refine leads_op fun m x m' r es hm _ hexec => ?_
  subst hm
  cases hexec
  rw [view_setFile, contents_setFile (by exact fun _ => rfl)]
  exact hf

theorem unlinkLink_leads {Q : SyncView → Unit → Prop} (hQ : Q v ()) :
    Leads sha256 fine Q (unlinkLink path) v := by
  rintro m rfl
  refine brings_op fun x m₁ node es _ hexec => ?_
  cases hexec
  refine Ensures.when (fun hlink => brings_op fun x m₂ ok es _ hexec => ?_) fun _ => hQ
  cases hexec
  cases hun : (if x.ok then unlink m.files (resolve path) else none) with
  | none => exact hQ
  | some t =>
    have hcontents := contents_unlink (Option.ite_none_right_eq_some.mp hun).2
    have hnone : contents m.files (resolve path) = none := by
      rw [contents]
      split
      · rename_i f hf
        rw [SyncMem.nodeAt, hf] at hlink
        contradiction
      · rfl
    rw [← hnone, update_eq_self] at hcontents
    have hview := view_withFiles m hcontents
    exact until_pure.mpr (hview.symm ▸ hQ)

end Leads

end OdinLink
