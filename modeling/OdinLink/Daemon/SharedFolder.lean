import OdinLink.Daemon.Confinement

/-!
# One shared folder

The engine has the name of the shared folder, and the catalog has another copy of it, under which it
removes files. Both are set at the start; `odl_daemon_sync_set_folder` changes the first.
-/

namespace OdinLink

open Paths FileTree Scripts History

def copyFolder (path : List UInt8) : List UInt8 := path.take 511

/-- The folders between two calls; `asked` is the shared folder that was set last. -/
structure FolderConfig where
  dirs : SyncDirs
  enabled : Bool
  asked : List UInt8

/-- The folders `OdinLink`, `.odl_tb5/remote` and `.cache/odl_tb5/files` in the home directory. -/
def odlDaemonSyncInit (home : List UInt8) : FolderConfig :=
  let shared := copyFolder (join home [79, 100, 105, 110, 76, 105, 110, 107])
  let odl : List UInt8 := [111, 100, 108, 95, 116, 98, 53]
  ⟨⟨shared, copyFolder (join (join home (dot :: odl)) [114, 101, 109, 111, 116, 101]),
    copyFolder (join (join (join home [46, 99, 97, 99, 104, 101]) odl) [102, 105, 108, 101, 115]),
    copyFolder shared⟩, false, shared⟩

/-- `opens` is whether the device and the stream can be opened. The scan and the exchange that
follow are file operations. -/
def odlDaemonSyncSetEnabled (s : FolderConfig) (enabled opens : Bool) : FolderConfig :=
  {s with enabled := enabled && (s.enabled || opens)}

def odlDaemonSyncSetFolder (s : FolderConfig) (path : List UInt8) (opens : Bool) :
    FolderConfig × Int :=
  if path = [] then (s, errInval)
  else if s.dirs.shared = path then ({s with asked := path}, 0)
  else
    let off := if s.enabled then odlDaemonSyncSetEnabled s false opens else s
    let moved := {off with dirs := {off.dirs with shared := copyFolder path}, asked := path}
    (if s.enabled then odlDaemonSyncSetEnabled moved true opens else moved, 0)

inductive FolderOp where
  | setFolder (path : List UInt8) (opens : Bool)
  | setEnabled (enabled opens : Bool)
  | file (program : SyncDirs → Sync Unit)

def FolderConfig.step (s : FolderConfig) : FolderOp → FolderConfig
  | .setFolder path opens => (odlDaemonSyncSetFolder s path opens).1
  | .setEnabled enabled opens => odlDaemonSyncSetEnabled s enabled opens
  | .file _ => s

/-- The catalog removes a local copy under the path under which the engine has the file, in the
folder that was set last. -/
def OneFolder (cwd : List Name) (s : FolderConfig) : Prop :=
  ∀ rel, resolveFrom cwd (s.dirs.localStore ++ slash :: rel) =
      resolveFrom cwd (sharedPath s.dirs rel) ∧
    resolveFrom cwd (sharedPath s.dirs rel) = resolveFrom cwd (join s.asked rel)

def SetsSame (cwd : List Name) (s : FolderConfig) : FolderOp → Prop
  | .setFolder path _ => path ≠ [] →
    resolveFrom cwd path = resolveFrom cwd s.dirs.shared ∧
      resolveFrom cwd (copyFolder path) = resolveFrom cwd s.dirs.shared
  | _ => True

structure FolderConfig.Named (s : FolderConfig) : Prop where
  length_le : s.dirs.shared.length ≤ 511
  shared : s.dirs.shared ≠ []
  store : s.dirs.localStore ≠ []
  asked : s.asked ≠ []

theorem copyFolder_ne_nil {path : List UInt8} (hpath : path ≠ []) : copyFolder path ≠ [] := by
  simpa [copyFolder] using hpath

theorem odlDaemonSyncInit_named (home : List UInt8) : (odlDaemonSyncInit home).Named := by
  have hshared : (odlDaemonSyncInit home).dirs.shared ≠ [] := by
    refine copyFolder_ne_nil fun hnil => ?_
    have hcomps := congrArg comps hnil
    rw [comps_join] at hcomps
    exact absurd (List.append_eq_nil_iff.mp hcomps).2 (by decide)
  exact ⟨List.length_take_le _ _, hshared, copyFolder_ne_nil hshared, hshared⟩

section Step
variable {s : FolderConfig} {path : List UInt8} {opens : Bool}

theorem oneFolder_iff (hs : s.Named) (cwd : List Name) : OneFolder cwd s ↔
    resolveFrom cwd s.dirs.localStore = resolveFrom cwd s.dirs.shared ∧
      resolveFrom cwd s.dirs.shared = resolveFrom cwd s.asked := by
  simp only [OneFolder, sharedPath, resolveFrom_append_slash hs.store, resolveFrom_join hs.shared,
    resolveFrom_join hs.asked]
  constructor
  · intro hone
    exact hone []
  · rintro ⟨hstore, hasked⟩ rel
    rw [hstore, hasked]
    exact ⟨rfl, rfl⟩

theorem setFolder_dirs (hpath : path ≠ []) (hs : s.Named) :
    (s.step (.setFolder path opens)).dirs = {s.dirs with shared := copyFolder path} ∧
      (s.step (.setFolder path opens)).asked = path := by
  rw [FolderConfig.step, odlDaemonSyncSetFolder, if_neg hpath]
  split
  · rename_i hsame
    subst hsame
    rw [copyFolder, List.take_of_length_le hs.length_le]
    exact ⟨rfl, rfl⟩
  · cases s.enabled <;> exact ⟨rfl, rfl⟩

theorem step_named (op : FolderOp) (hs : s.Named) : (s.step op).Named := by
  cases op with
  | setFolder path opens =>
    by_cases hpath : path = []
    · subst hpath
      exact hs
    · obtain ⟨hdirs, hasked⟩ := @setFolder_dirs s path opens hpath hs
      refine ⟨?_, ?_, ?_, ?_⟩
      · rw [hdirs]
        exact List.length_take_le _ _
      · rw [hdirs]
        exact copyFolder_ne_nil hpath
      · rw [hdirs]
        exact hs.store
      · rwa [hasked]
  | setEnabled | file => exact ⟨hs.length_le, hs.shared, hs.store, hs.asked⟩

theorem step_oneFolder_iff (cwd : List Name) (op : FolderOp) (hs : s.Named)
    (hone : OneFolder cwd s) : OneFolder cwd (s.step op) ↔ SetsSame cwd s op := by
  cases op with
  | setFolder path opens =>
    by_cases hpath : path = []
    · subst hpath
      exact ⟨fun _ hne => absurd rfl hne, fun _ => hone⟩
    · obtain ⟨hdirs, hasked⟩ := @setFolder_dirs s path opens hpath hs
      rw [oneFolder_iff (step_named _ hs), hdirs, hasked, SetsSame, ((oneFolder_iff hs cwd).mp hone).1]
      constructor
      · rintro ⟨hfolder, hname⟩ -
        exact ⟨hname.symm.trans hfolder.symm, hfolder.symm⟩
      · intro hsame
        obtain ⟨hname, hfolder⟩ := hsame hpath
        exact ⟨hfolder.symm, hfolder.trans hname.symm⟩
  | setEnabled | file => exact ⟨fun _ => trivial, fun _ => hone⟩

end Step

/-- Engine and catalog use one folder all the time if and only if no call sets another one. -/
theorem one_folder_iff_sets_same (cwd : List Name) (home : List UInt8) (ops : List FolderOp) :
    Throughout FolderConfig.step (OneFolder cwd) (odlDaemonSyncInit home) ops ↔
      Meets FolderConfig.step (SetsSame cwd) (odlDaemonSyncInit home) ops := by
  have hinit := odlDaemonSyncInit_named home
  refine throughout_iff_meets (fun (s : FolderConfig) op (hs : s.Named) => step_named op hs)
    (fun s op => step_oneFolder_iff cwd op) hinit ((oneFolder_iff hinit cwd).mpr ⟨?_, rfl⟩) ops
  exact congrArg (resolveFrom cwd) (List.take_of_length_le hinit.length_le)

def twoFolders : SyncMem :=
  let mine : Node FileData := .file ⟨[1], 0o644, 0, true⟩
  let odinLink : Name := [79, 100, 105, 110, 76, 105, 110, 107]
  {plainMem with
    files := ((((AList.insert [] .dir ∅).insert [odinLink] .dir).insert [[98]] .dir).insert
      [odinLink, [120]] mine).insert [[98], [120]] mine
    catalog := Catalog.set ∅ [120] ⟨[120], noInfo, .localOnly⟩}

/-- After the shared folder was changed from `/OdinLink` to `/b`, the peer's request to remove `x`
deletes the file in the former folder and leaves the other. -/
theorem removal_in_former_folder :
    let d := ((odlDaemonSyncInit [47]).step (.setFolder [47, 98] true)).dirs
    ∃ m' es, finish (exec id) (syncDispatch d (.removeReq [120])) twoFolders
        (List.replicate 6 fineEnv) = some (m', (), es) ∧
      m'.sent = [.removeAck [120] 0] ∧ (m'.nodeAt (sharedPath d [120])).isSome = true ∧
      .lost (resolve (join (odlDaemonSyncInit [47]).dirs.shared [120])) ∈ es := by
  refine ⟨_, _, rfl, ?_⟩
  decide +kernel

end OdinLink
