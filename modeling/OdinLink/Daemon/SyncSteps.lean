import OdinLink.Daemon.SyncOps

/-!
# What an operation changes

Only a few operations change the file system, and each of them in one way; nothing else in the state
but what an operation is for changes with it.
-/

namespace OdinLink

open Paths FileTree Scripts

namespace SyncMem
variable (m : SyncMem)

theorem withFiles_fst (o : Option Files) :
    (m.withFiles o).1 = {m with files := o.getD m.files} := by
  cases o <;> rfl

theorem setFile_cases (path : List UInt8) (f : FileData → FileData) :
    m.setFile path f = m ∨ ∃ data, m.files.lookup (resolve path) = some (.file data) ∧
      m.setFile path f = {m with files := m.files.insert (resolve path) (.file (f data))} := by
  rw [setFile, nodeAt]
  split
  · exact .inr ⟨_, ‹_›, rfl⟩
  · exact .inl rfl

theorem setFile_eq (path : List UInt8) (f : FileData → FileData) :
    m.setFile path f = {m with files := (m.setFile path f).files} := by
  rcases m.setFile_cases path f with hset | ⟨data, -, hset⟩ <;> rw [hset]

end SyncMem

inductive Edited (t : Files) : SyncOp → Files → Prop where
  | same (op : SyncOp) : Edited t op t
  | unlinked {path : List UInt8} {t' : Files} (hun : unlink t (resolve path) = some t') :
      Edited t (.unlink path) t'
  | removed {rel localPath cachePath path : List UInt8} {t' : Files}
      (hun : unlink t (resolve path) = some t') :
      Edited t (.catalogRemoveLocalCopy rel localPath cachePath) t'
  | made (path : List UInt8) (limit : Nat) :
      Edited t (.mkdirWithParents path) (mkdirs t (wayTo path) limit).1
  | linked {target path : List UInt8} {t' : Files}
      (hadd : add t (resolve path) (.link target) = some t') : Edited t (.symlink target path) t'
  | created {dir : List UInt8} {path : List Name} {f : FileData} {t' : Files}
      (hadd : add t path (.file f) = some t') (hmine : f.mine = false) : Edited t (.mkstemp dir) t'
  | renamed {old new : List UInt8} {t' : Files}
      (hre : rename t (resolve old) (resolve new) = some t') : Edited t (.rename old new) t'
  | rewritten (op : SyncOp) {path : List Name} {f f' : FileData}
      (hf : t.lookup path = some (.file f)) (hmine : f'.mine = f.mine) :
      Edited t op (t.insert path (.file f'))
  | rmdir {path : List UInt8} {t' : Files} (hrm : FileTree.rmdir t (resolve path) = some t') :
      Edited t (.rmdir path) t'

section Files
variable {m m' : SyncMem} {sha256 : List UInt8 → List UInt8} {op : SyncOp} {x : SyncEnv}
  {r : op.Res} {es : List SyncEvent}
variable {path : List Name}

theorem setFile_edited (op : SyncOp) (path : List UInt8) {f : FileData → FileData}
    (hf : ∀ data, (f data).mine = data.mine) : Edited m.files op (m.setFile path f).files := by
  rcases m.setFile_cases path f with hset | ⟨data, hdata, hset⟩
  · rw [hset]
    exact .same op
  · rw [hset]
    exact .rewritten op hdata (hf data)

theorem getD_edited {c : Prop} [Decidable c] {o : Option Files}
    (ho : ∀ t', o = some t' → Edited m.files op t') :
    Edited m.files op (m.withFiles (if c then o else none)).1.files := by
  rw [SyncMem.withFiles_fst]
  split
  · cases o with
    | none => exact .same op
    | some t' => exact ho t' rfl
  · exact .same op

theorem removeLocalCopy_cases (m : SyncMem) (rel localPath cachePath : List UInt8) (x : SyncEnv) :
    removeLocalCopy m rel localPath cachePath x = (m, false, []) ∨
      ∃ path c, (path = localPath ∨ path = cachePath) ∧
        removeLocalCopy m rel localPath cachePath x = dropCopy m path c x := by
  rw [removeLocalCopy]
  split
  · exact .inl rfl
  · split
    · exact .inr ⟨_, _, .inl rfl, rfl⟩
    · exact .inr ⟨_, _, .inr rfl, rfl⟩
    · exact .inr ⟨_, _, .inl rfl, rfl⟩
    · exact .inl rfl

theorem exec_edited (hexec : exec sha256 m op x = some (m', r, es)) :
    Edited m.files op m'.files := by
  cases op with
  | catalogRemoveLocalCopy rel localPath cachePath =>
    rcases removeLocalCopy_cases m rel localPath cachePath x with heq | ⟨path, c, -, heq⟩
    · cases heq.symm.trans (Option.some.inj hexec)
      exact .same _
    · cases heq.symm.trans (Option.some.inj hexec)
      exact getD_edited fun t' hun => .removed hun
  | unlink path =>
    cases hexec
    exact getD_edited fun t' hun => .unlinked hun
  | mkdirWithParents path =>
    cases hexec
    exact .made path x.limit
  | symlink target path =>
    cases hexec
    exact getD_edited fun t' hadd => .linked hadd
  | mkstemp dir =>
    rw [exec] at hexec
    split at hexec <;> cases hexec
    exact getD_edited fun t' hadd => .created hadd rfl
  | rename old new =>
    cases hexec
    exact getD_edited fun t' hre => .renamed hre
  | rmdir path =>
    cases hexec
    exact getD_edited fun t' hrm => .rmdir hrm
  | write path data =>
    rw [exec] at hexec
    split at hexec <;> cases hexec
    · exact setFile_edited _ path fun _ => rfl
    · exact .same _
  | chmod path mode | utimens path mtimeNs =>
    cases hexec
    exact setFile_edited _ path fun _ => rfl
  | lockFetch | awaitFetch | lockTx | send =>
    rw [exec] at hexec
    split at hexec <;> cases hexec
    all_goals exact .same _
  | _ =>
    cases hexec
    exact .same _

variable {t t' : Files} {q : List Name}

theorem Edited.isDir_of_isDir (he : Edited t op t') (hq : isDir t q = true) :
    isDir t' q = true ∨ ∃ path, op = .rmdir path ∧ q = resolve path := by
  cases he with
  | same => exact .inl hq
  | unlinked hun | removed hun => exact .inl (isDir_unlink hun hq)
  | made path limit => exact .inl (isDir_iff.mpr (lookup_mkdirs_of_some (isDir_iff.mp hq)))
  | linked hadd | created hadd => exact .inl (isDir_add hadd hq)
  | renamed hre =>
    obtain ⟨node, hold, hdir, hnew, -, rfl⟩ := rename_eq hre
    refine .inl (isDir_iff.mpr ?_)
    rw [isDir_iff] at hq
    rw [lookup_insert_eq, if_neg, lookup_erase_eq, if_neg, hq]
    · rintro rfl
      exact hdir (Option.some.inj (hold.symm.trans hq))
    · rintro rfl
      rw [isDir_iff.mpr hq] at hnew
      contradiction
  | rewritten _ hf =>
    refine .inl (isDir_iff.mpr ?_)
    rw [isDir_iff] at hq
    rw [lookup_insert_eq, if_neg, hq]
    rintro rfl
    exact absurd (hf.symm.trans hq) (by simp)
  | @rmdir path _ hrm =>
    by_cases heq : q = resolve path
    · exact .inr ⟨path, rfl, heq⟩
    · exact .inl (isDir_rmdir hrm hq heq)

def isMine (t : Files) (q : List Name) : Prop := ∃ f, t.lookup q = some (.file f) ∧ f.mine = true

theorem userFile_iff : m.userFile q = true ↔ isMine m.files q := by
  rw [SyncMem.userFile, isMine]
  split <;> simp_all

theorem isMine_of_erase (hq : isMine (t.erase path) q) : isMine t q := by
  obtain ⟨f, hf, hmine⟩ := hq
  rw [lookup_erase_eq] at hf
  split at hf
  · contradiction
  · exact ⟨f, hf, hmine⟩

theorem isMine_of_insert {node : Node FileData} (hq : isMine (t.insert path node) q) :
    isMine t q ∨ q = path ∧ ∃ f, node = .file f ∧ f.mine = true := by
  obtain ⟨f, hf, hmine⟩ := hq
  rw [lookup_insert_eq] at hf
  split at hf
  · exact .inr ⟨‹_›, f, Option.some.inj hf, hmine⟩
  · exact .inl ⟨f, hf, hmine⟩

theorem isMine_of_unlink (hun : unlink t path = some t') (hq : isMine t' q) :
    isMine t q := by
  rw [(unlink_eq hun).2] at hq
  exact isMine_of_erase hq

theorem isMine_of_add {node : Node FileData} (hadd : add t path node = some t')
    (hnode : ∀ f, node = .file f → f.mine = false) (hq : isMine t' q) : isMine t q := by
  rw [(add_eq hadd).2] at hq
  refine (isMine_of_insert hq).resolve_right ?_
  rintro ⟨-, f, hf, hmine⟩
  rw [hnode f hf] at hmine
  contradiction

theorem Edited.isMine_of_isMine (he : Edited t op t') (hq : isMine t' q) :
    isMine t q ∨ ∃ old new, op = .rename old new ∧ q = resolve new ∧ isMine t (resolve old) := by
  cases he with
  | same => exact .inl hq
  | unlinked hun | removed hun => exact .inl (isMine_of_unlink hun hq)
  | made path limit =>
    obtain ⟨f, hf, hmine⟩ := hq
    rw [(mkdirs_spec t (wayTo path) limit).1] at hf
    split at hf
    · exact absurd (Option.some.inj hf) (by simp)
    · exact .inl ⟨f, hf, hmine⟩
  | linked hadd => exact .inl (isMine_of_add hadd (by simp) hq)
  | created hadd hnew => exact .inl (isMine_of_add hadd (by simp [hnew]) hq)
  | @renamed old new _ hre =>
    obtain ⟨node, hold, -, -, -, rfl⟩ := rename_eq hre
    rcases isMine_of_insert hq with hq | ⟨heq, f, rfl, hmine⟩
    · exact .inl (isMine_of_erase hq)
    · exact .inr ⟨old, new, rfl, heq, f, hold, hmine⟩
  | rewritten _ hold hsame =>
    rcases isMine_of_insert hq with hq | ⟨rfl, f, hf, hmine⟩
    · exact .inl hq
    · cases hf
      exact .inl ⟨_, hold, hsame ▸ hmine⟩
  | rmdir hrm =>
    rw [rmdir_eq hrm] at hq
    exact .inl (isMine_of_erase hq)

end Files

structure Locks where
  fetch : Bool
  tx : Bool
  deriving DecidableEq, Repr

def Locks.none : Locks := ⟨false, false⟩

def SyncMem.locksAndSent (m : SyncMem) : Locks × List SyncMsg :=
  (⟨m.fetchLocked, m.txLocked⟩, m.sent)

def SyncOp.isLock : SyncOp → Bool
  | .lockFetch | .unlockFetch | .awaitFetch | .lockTx | .unlockTx | .send _ => true
  | _ => false

def SyncMem.known (m : SyncMem) : Catalog × List CatalogEntry × Bool :=
  (m.catalog, m.listing, m.listingInProgress)

def SyncOp.changesKnown : SyncOp → Bool
  | .setListing _ _ | .catalogSet _ _ | .catalogRemove _ | .catalogUpdateRemote _
  | .catalogMarkCached _ | .catalogMarkBoth _ | .catalogRemoveLocalCopy _ _ _ => true
  | _ => false

def SyncOp.editsFiles : SyncOp → Bool
  | .catalogRemoveLocalCopy _ _ _ | .unlink _ | .mkdirWithParents _ | .symlink _ _ | .mkstemp _
  | .write _ _ | .rename _ _ | .chmod _ _ | .utimens _ _ | .rmdir _ => true
  | _ => false

section State
variable {m m' : SyncMem} {sha256 : List UInt8 → List UInt8} {op : SyncOp} {x : SyncEnv}
  {r : op.Res} {es : List SyncEvent}

theorem exec_editsFiles (hexec : exec sha256 m op x = some (m', r, es)) (hop : op.editsFiles = true) :
    ∃ t c, m' = {m with files := t, catalog := c} ∧ (op.changesKnown = false → c = m.catalog) := by
  have hfiles {t : Files} (hm : m' = {m with files := t}) : ∃ t c,
      m' = {m with files := t, catalog := c} ∧ (op.changesKnown = false → c = m.catalog) :=
    ⟨t, m.catalog, hm, fun _ => rfl⟩
  cases op with
  | catalogRemoveLocalCopy rel localPath cachePath =>
    rcases removeLocalCopy_cases m rel localPath cachePath x with heq | ⟨path, c, -, heq⟩
    · cases heq.symm.trans (Option.some.inj hexec)
      exact hfiles rfl
    · cases heq.symm.trans (Option.some.inj hexec)
      rw [m.withFiles_fst]
      exact ⟨_, _, rfl, nofun⟩
  | unlink | symlink | rename | rmdir =>
    cases hexec
    exact hfiles (m.withFiles_fst _)
  | mkdirWithParents =>
    cases hexec
    exact hfiles rfl
  | mkstemp =>
    rw [exec] at hexec
    split at hexec <;> cases hexec
    exact hfiles (m.withFiles_fst _)
  | write path data =>
    rw [exec] at hexec
    split at hexec <;> cases hexec
    · exact hfiles (m.setFile_eq path _)
    · exact hfiles rfl
  | chmod path | utimens path =>
    cases hexec
    exact hfiles (m.setFile_eq path _)
  | _ => contradiction

structure ExecKeeps (m : SyncMem) (op : SyncOp) (m' : SyncMem) : Prop where
  fetch : m'.fetch = m.fetch ∨ op = .setFetch m'.fetch
  listing : m'.listing = m.listing ∨ ∃ b, op = .setListing m'.listing b
  handling : m'.handling = m.handling
  known : op.changesKnown = false → m'.known = m.known
  locks : op.isLock = false → m'.locksAndSent = m.locksAndSent

theorem exec_keeps (hexec : exec sha256 m op x = some (m', r, es)) : ExecKeeps m op m' := by
  by_cases hop : op.editsFiles = true
  · obtain ⟨t, c, rfl, hc⟩ := exec_editsFiles hexec hop
    refine ⟨.inl rfl, .inl rfl, rfl, fun h => ?_, fun _ => rfl⟩
    rw [hc h]
    rfl
  cases op with
  | setFetch f =>
    cases hexec
    exact ⟨.inr rfl, .inl rfl, rfl, fun _ => rfl, fun _ => rfl⟩
  | setListing listing inProgress =>
    cases hexec
    exact ⟨.inl rfl, .inr ⟨_, rfl⟩, rfl, nofun, fun _ => rfl⟩
  | catalogSet | catalogRemove | catalogUpdateRemote | catalogMarkCached | catalogMarkBoth =>
    cases hexec
    exact ⟨.inl rfl, .inl rfl, rfl, nofun, fun _ => rfl⟩
  | unlockFetch | unlockTx =>
    cases hexec
    exact ⟨.inl rfl, .inl rfl, rfl, fun _ => rfl, nofun⟩
  | lockFetch | awaitFetch | lockTx | send =>
    rw [exec] at hexec
    split at hexec <;> cases hexec
    all_goals exact ⟨.inl rfl, .inl rfl, rfl, fun _ => rfl, nofun⟩
  | _ =>
    first
    | exact absurd rfl hop
    | cases hexec
      exact ⟨.inl rfl, .inl rfl, rfl, fun _ => rfl, fun _ => rfl⟩

end State

/-- The paths that an operation gives to a call that creates, unlinks, renames, changes the mode of,
links, removes or opens what is there. -/
def SyncOp.touches (m : SyncMem) (q : List Name) : SyncOp → Prop
  | .unlink path | .symlink _ path | .chmod path _ | .rmdir path | .openRead path
  | .sha256File path | .readDir path => q = resolve path
  | .rename old new => q = resolve old ∨ q = resolve new
  | .catalogRemoveLocalCopy _ localPath cachePath => q = resolve localPath ∨ q = resolve cachePath
  | .mkdirWithParents path => q ∈ wayTo path ∧ m.files.lookup q = none
  | .mkstemp dir => ∃ name, slash ∉ name ∧ q = resolve (dir ++ slash :: (syncTmpPrefix ++ name))
  | .addWatchRecursive path _ => resolve path <+: q
  | _ => False

def SyncOp.drops (q : List Name) : SyncOp → Prop
  | .unlink path => q = resolve path
  | .rename old new => q = resolve old ∨ q = resolve new
  | .catalogRemoveLocalCopy _ localPath cachePath => q = resolve localPath ∨ q = resolve cachePath
  | _ => False

def SyncEvent.About (m : SyncMem) (op : SyncOp) : SyncEvent → Prop
  | .touched _ q => op.touches m q
  | .lost q => op.drops q ∧ m.userFile q = true

section Events
variable {m m' : SyncMem} {sha256 : List UInt8 → List UInt8} {op : SyncOp} {x : SyncEnv}
  {r : op.Res} {es : List SyncEvent} {e : SyncEvent}

theorem mem_loss {path : List Name} (he : e ∈ m.loss path) :
    e = .lost path ∧ m.userFile path = true := by
  rw [SyncMem.loss] at he
  split at he
  · exact ⟨List.mem_singleton.mp he, ‹_›⟩
  · contradiction

theorem exec_events (hexec : exec sha256 m op x = some (m', r, es)) (he : e ∈ es) :
    e.About m op := by
  have hloss {path : List Name} {b : Bool} (hdrops : op.drops path)
      (he : e ∈ if b then m.loss path else []) : e.About m op := by
    obtain ⟨rfl, huser⟩ := mem_loss (List.mem_ite_nil_right.mp he).2
    exact ⟨hdrops, huser⟩
  cases op with
  | catalogRemoveLocalCopy rel localPath cachePath =>
    rcases removeLocalCopy_cases m rel localPath cachePath x with heq | ⟨path, c, hpath, heq⟩
    · cases heq.symm.trans (Option.some.inj hexec)
      contradiction
    · cases heq.symm.trans (Option.some.inj hexec)
      have hor : resolve path = resolve localPath ∨ resolve path = resolve cachePath :=
        hpath.imp (congrArg resolve) (congrArg resolve)
      rcases List.mem_cons.mp he with rfl | he
      · exact hor
      · exact hloss hor he
  | unlink path =>
    cases hexec
    rcases List.mem_cons.mp he with rfl | he
    · exact rfl
    · exact hloss rfl he
  | mkdirWithParents path =>
    cases hexec
    obtain ⟨q, hq, rfl⟩ := List.mem_map.mp he
    exact (mkdirs_spec m.files (wayTo path) x.limit).2 q hq
  | mkstemp dir =>
    rw [exec] at hexec
    split at hexec <;> cases hexec
    rw [List.mem_singleton.mp he]
    exact ⟨x.name, ‹_›, rfl⟩
  | rename old new =>
    cases hexec
    rcases List.mem_append.mp he with he | he
    · rcases List.mem_pair.mp he with rfl | rfl
      · exact .inl rfl
      · exact .inr rfl
    · rcases List.mem_append.mp (List.mem_ite_nil_right.mp he).2 with he | he
      · obtain ⟨rfl, huser⟩ := mem_loss he
        exact ⟨.inl rfl, huser⟩
      · obtain ⟨rfl, huser⟩ := mem_loss he
        exact ⟨.inr rfl, huser⟩
  | symlink | chmod | rmdir | openRead | sha256File | readDir =>
    cases hexec
    rw [List.mem_singleton.mp he]
    exact rfl
  | addWatchRecursive path rel =>
    cases hexec
    obtain ⟨q, hq, rfl⟩ := List.mem_map.mp he
    have hpre := (List.mem_filter.mp hq).2
    rw [Bool.and_eq_true, List.isPrefixOf_iff_prefix] at hpre
    exact hpre.1
  | lockFetch | awaitFetch | lockTx | send | write =>
    rw [exec] at hexec
    split at hexec <;> cases hexec
    all_goals contradiction
  | _ =>
    cases hexec
    contradiction

end Events

end OdinLink
