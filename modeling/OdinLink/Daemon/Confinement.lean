import OdinLink.Daemon.HandlerRule

/-!
# Where the handlers reach

A handler uses the path in a message as it comes, and `..` in it leads out of the shared folder.
-/

namespace OdinLink

open Paths FileTree Scripts Threads History

section Saved
variable (d : SyncDirs)

def SyncOp.Fair : SyncOp → Prop
  | .setFetch f => SafeFetch d f
  | .setListing listing _ => SafeListing listing
  | .rmdir path => Confined d (resolve path)
  | .mkstemp dir => dir = d.shared ∨ dir = d.cache
  | _ => True

structure SavedSafe (m : SyncMem) : Prop where
  fetch : SafeFetch d m.fetch
  listing : SafeListing m.listing

/-- The folders are there as well, unless one is in the other. -/
structure SyncInv (m : SyncMem) : Prop extends SavedSafe d m where
  dirs : ∀ q ∈ baseDirs d, isDir m.files q = true ∨ Confined d q

variable {d} {msg : SyncMsg} {g : Knowledge} {moves : List UInt8 → List UInt8 → Prop}
  {m m' : SyncMem} {sha256 : List UInt8 → List UInt8} {op : SyncOp} {x : SyncEnv} {r : op.Res}
  {es : List SyncEvent}

theorem fair_of_handlerAllows (hallows : handlerAllows d msg g op) : op.Fair d := by
  cases op with
  | setFetch | setListing | rmdir | mkstemp => exact hallows
  | _ => trivial

theorem fair_of_otherAllows (hallows : otherAllows d moves op) : op.Fair d := by
  cases op with
  | setFetch => exact hallows
  | setListing | rmdir | mkstemp => exact hallows.elim
  | _ => trivial

theorem SavedSafe.of_exec (hsaved : SavedSafe d m) (hfair : op.Fair d)
    (hexec : exec sha256 m op x = some (m', r, es)) : SavedSafe d m' := by
  obtain ⟨hfetch, hlisting, -, -, -⟩ := exec_keeps hexec
  constructor
  · rcases hfetch with heq | heq
    · exact heq ▸ hsaved.fetch
    · rw [heq] at hfair
      exact hfair
  · rcases hlisting with heq | ⟨b, heq⟩
    · exact heq ▸ hsaved.listing
    · rw [heq] at hfair
      exact hfair

theorem SyncInv.of_exec (hinv : SyncInv d m) (hfair : op.Fair d)
    (hexec : exec sha256 m op x = some (m', r, es)) : SyncInv d m' := by
  refine ⟨hinv.toSavedSafe.of_exec hfair hexec, fun q hq => ?_⟩
  rcases hinv.dirs q hq with hdir | hconf
  · rcases (exec_edited hexec).isDir_of_isDir hdir with hdir | ⟨path, rfl, rfl⟩
    · exact .inl hdir
    · exact .inr hfair
  · exact .inr hconf

theorem SavedSafe.safeResult (hsaved : SavedSafe d m) (hfair : op.Fair d)
    (hexec : exec sha256 m op x = some (m', r, es)) : SafeResult d op r := by
  cases op with
  | getFetch =>
    cases hexec
    exact hsaved.fetch
  | getListing =>
    cases hexec
    exact hsaved.listing
  | mkstemp dir =>
    rw [exec] at hexec
    split at hexec <;> cases hexec
    intro path hpath
    obtain ⟨-, hpath⟩ := Option.ite_none_right_eq_some.mp hpath
    exact ⟨dir, x.name, hfair, ‹_›, (Option.some.inj hpath).symm⟩
  | _ => trivial

theorem touches_confined (hinv : SyncInv d m) (hallows : handlerAllows d msg g op) {q : List Name}
    (htouch : op.touches m q) : Confined d q := by
  cases op with
  | unlink path =>
    rw [show q = resolve path from htouch]
    exact hallows.1
  | rename old new =>
    rcases htouch with rfl | rfl
    · exact hallows.1.confined
    · exact .inr hallows.2
  | catalogRemoveLocalCopy rel localPath cachePath =>
    rcases htouch with rfl | rfl
    · exact hallows.2.1
    · exact hallows.2.2
  | mkdirWithParents path =>
    obtain ⟨hq, hnone⟩ := htouch
    rcases hallows q hq with hbase | hconf
    · refine (hinv.dirs q hbase).resolve_left fun hdir => ?_
      rw [isDir_iff.mp hdir] at hnone
      contradiction
    · exact hconf
  | mkstemp dir =>
    obtain ⟨name, hname, rfl⟩ := htouch
    exact IsTmp.confined ⟨dir, name, hallows, hname, rfl⟩
  | addWatchRecursive path rel =>
    obtain ⟨ws, rfl⟩ := htouch
    rcases (show Confined d (resolve path) from hallows) with hin | hin
    · exact .inl (hin.append ws)
    · exact .inr (hin.append ws)
  | symlink target path | chmod path mode | rmdir path | openRead path | sha256File path =>
    rw [show q = resolve path from htouch]
    exact hallows
  | readDir path => exact hallows.elim
  | _ => exact htouch.elim

end Saved

def SyncThread.Bound (d : SyncDirs) (moves : List UInt8 → List UInt8 → Prop) (p : SyncThread) :
    Prop :=
  if p.role = .receiver then ∃ msg g, Follows (handlerRule d msg) (fun _ _ => True) p.script g
  else Follows (otherRule d moves) (fun _ _ => True) p.script ()

section Steps
variable {d : SyncDirs} {sha256 : List UInt8 → List UInt8} {m m' : SyncMem}

theorem syncThreadOp_eq {p p' : SyncThread} {x : SyncEnv} {es : List SyncLog}
    (hop : syncThreadOp sha256 m p x = some (m', p', es)) :
    (p.role = .receiver ∧ (∃ a, p' = ⟨.idle, .pure a⟩) ∧ m' = {m with handling := none} ∧
      es = []) ∨
    ∃ script fs, opStep (exec sha256) m p.script x = some (m', script, fs) ∧
      p' = ⟨p.role, script⟩ ∧ es = fs.map (⟨p.role, ·⟩) := by
  rw [syncThreadOp.eq_def] at hop
  split at hop
  · cases hop
    exact .inl ⟨‹_›, ⟨_, rfl⟩, rfl, rfl⟩
  · obtain ⟨⟨m₁, script, fs⟩, hstep, heq⟩ := Option.map_eq_some_iff.mp hop
    cases heq
    exact .inr ⟨script, fs, hstep, rfl, rfl⟩

theorem syncThreadOp_confined {p p' : SyncThread} {x : SyncEnv} {es : List SyncLog}
    {moves : List UInt8 → List UInt8 → Prop} (hinv : SyncInv d m) (hp : p.Bound d moves)
    (hop : syncThreadOp sha256 m p x = some (m', p', es)) :
    SyncInv d m' ∧ p'.Bound d moves ∧
      ∀ e ∈ es, e.role = .receiver → ∀ how q, e.event = .touched how q → Confined d q := by
  rcases syncThreadOp_eq hop with ⟨-, ⟨a, rfl⟩, rfl, rfl⟩ | ⟨script, fs, hstep, rfl, rfl⟩
  · exact ⟨⟨⟨hinv.fetch, hinv.listing⟩, hinv.dirs⟩, trivial, by simp⟩
  · by_cases hrole : p.role = .receiver
    · rw [SyncThread.Bound, if_pos hrole] at hp
      obtain ⟨msg, g, hfollows⟩ := hp
      obtain ⟨op, k, r, -, hallows, hexec, hnext⟩ := hfollows.opStep _ hstep
      have hfair := fair_of_handlerAllows hallows
      refine ⟨hinv.of_exec hfair hexec, ?_, ?_⟩
      · rw [SyncThread.Bound, if_pos hrole]
        exact ⟨msg, _, hnext (hinv.safeResult hfair hexec)⟩
      · intro e he _ how q hevent
        obtain ⟨ev, hev, rfl⟩ := List.mem_map.mp he
        obtain rfl : ev = .touched how q := hevent
        exact touches_confined hinv hallows (exec_events hexec hev)
    · rw [SyncThread.Bound, if_neg hrole] at hp
      obtain ⟨op, k, r, -, hallows, hexec, hnext⟩ := Follows.opStep _ hp hstep
      have hfair := fair_of_otherAllows hallows
      refine ⟨hinv.of_exec hfair hexec, ?_, ?_⟩
      · rw [SyncThread.Bound, if_neg hrole]
        exact hnext (hinv.safeResult hfair hexec)
      · intro e he hreceiver
        obtain ⟨ev, -, rfl⟩ := List.mem_map.mp he
        exact absurd hreceiver hrole

end Steps

def safeMove (d : SyncDirs) : Move SyncStart SyncEnv → Bool
  | .start (.receive msg) => decide msg.Safe
  | .start (.userRmdir path) => decide (path ∉ baseDirs d)
  | _ => true

structure SyncMem.SetUp (d : SyncDirs) (m : SyncMem) : Prop where
  fetch : m.fetch.tmpPath = none
  listing : m.listing = []
  dirs : ∀ q ∈ baseDirs d, isDir m.files q = true

theorem SyncMem.SetUp.inv {d : SyncDirs} {m : SyncMem} (hm : m.SetUp d) : SyncInv d m :=
  ⟨⟨safeFetch_none hm.fetch, by simp [hm.listing, SafeListing]⟩, fun q hq => .inl (hm.dirs q hq)⟩

section Starts
variable {d : SyncDirs} {m m' : SyncMem} {o : Option SyncThread} {es : List SyncLog}

theorem SyncInv.of_files (hinv : SyncInv d m) {t : Files}
    (ht : ∀ q ∈ baseDirs d, isDir m.files q = true → isDir t q = true) :
    SyncInv d {m with files := t} :=
  ⟨⟨hinv.fetch, hinv.listing⟩, fun q hq => (hinv.dirs q hq).imp_left (ht q hq)⟩

theorem syncStart_confined (moves : List UInt8 → List UInt8 → Prop) {x : SyncStart}
    (hstore : resolve d.localStore = resolve d.shared)
    (hmoves : ∀ rel, x = .fetch rel → moves (cachePath d rel) (sharedPath d rel))
    (hok : safeMove d (.start x) = true) (hinv : SyncInv d m)
    (hstart : syncStart d m x = some (m', o, es)) :
    SyncInv d m' ∧ (∀ p ∈ o, p.Bound d moves) ∧ es = [] := by
  cases x with
  | receive msg =>
    rw [syncStart] at hstart
    split at hstart <;> cases hstart
    refine ⟨⟨⟨hinv.fetch, hinv.listing⟩, hinv.dirs⟩, ?_, rfl⟩
    rintro p ⟨rfl⟩
    refine ⟨msg, ⟨msg.path.toList.map (sharedPath d), []⟩, ?_⟩
    refine syncDispatch_follows (fun _ _ => hstore) (of_decide_eq_true hok) fun rel hrel => ?_
    exact List.mem_map_of_mem (Option.mem_toList.mpr hrel)
  | scan fuel =>
    cases hstart
    refine ⟨hinv, ?_, rfl⟩
    rintro p ⟨rfl⟩
    exact scanFolder_follows fuel _ _
  | inotify rel kind =>
    cases hstart
    refine ⟨hinv, ?_, rfl⟩
    rintro p ⟨rfl⟩
    exact inotifyEvent_follows kind
  | catalogTimer =>
    cases hstart
    refine ⟨hinv, ?_, rfl⟩
    rintro p ⟨rfl⟩
    exact syncExchangeCatalog_follows_other
  | fetch rel =>
    cases hstart
    refine ⟨hinv, ?_, rfl⟩
    rintro p ⟨rfl⟩
    exact (fetchFile_follows (hmoves rel rfl)).bind fun _ _ => trivial
  | userPut path bytes =>
    rw [syncStart] at hstart
    split at hstart <;> cases hstart
    refine ⟨hinv.of_files fun q _ hq => ?_, by simp, rfl⟩
    rw [isDir_iff] at hq ⊢
    rw [lookup_insert_eq, if_neg, hq]
    rintro rfl
    exact ‹¬ _› (isDir_iff.mpr hq)
  | userRemove path =>
    obtain ⟨t, hun, heq⟩ := Option.map_eq_some_iff.mp hstart
    cases heq
    exact ⟨hinv.of_files fun q _ hq => isDir_unlink hun hq, by simp, rfl⟩
  | userMkdir path =>
    obtain ⟨t, hadd, heq⟩ := Option.map_eq_some_iff.mp hstart
    cases heq
    exact ⟨hinv.of_files fun q _ hq => isDir_add hadd hq, by simp, rfl⟩
  | userRmdir path =>
    obtain ⟨t, hrm, heq⟩ := Option.map_eq_some_iff.mp hstart
    cases heq
    refine ⟨hinv.of_files fun q hbase hq => isDir_rmdir hrm hq ?_, by simp, rfl⟩
    rintro rfl
    exact of_decide_eq_true hok hbase

end Starts

section Runs
variable {d : SyncDirs} {sha256 : List UInt8 → List UInt8} {m₀ : SyncMem}

/-- As long as every path received leads below the folder it is taken from, and the catalog's local
store is the shared folder, whatever a handler creates, unlinks, renames, changes the mode of,
links, removes or opens is below the shared folder or the cache. -/
theorem messages_confined (hstore : resolve d.localStore = resolve d.shared) (hm₀ : m₀.SetUp d)
    {s : Sys SyncMem SyncThread} {h : List SyncLog}
    (hr : Reaches (syncProg d sha256).step (fun _ _ a => safeMove d a = true) ⟨m₀, []⟩ s h) :
    ∀ e ∈ h, e.role = .receiver → ∀ how q, e.event = .touched how q → Confined d q := by
  refine (accounted (fun j : Empty => j.elim) (fun j => j.elim)
    (fun _ p => p.Bound d fun _ _ => True)
    (fun m h => SyncInv d m ∧
      ∀ e ∈ h, e.role = .receiver → ∀ how q, e.event = .touched how q → Confined d q)
    (fun j => j.elim) ⟨hm₀.inv, by simp⟩ ?_ ?_ hr).2.2.2
  · intro s h x m o es _ hok _ ⟨hinv, hconf⟩ hstart
    obtain ⟨hinv', hbound, rfl⟩ := syncStart_confined (fun _ _ => True) hstore (fun _ _ => trivial) hok
      hinv hstart
    refine ⟨fun j => j.elim, hbound, fun _ _ hq => hq, hinv', ?_⟩
    rwa [List.append_nil]
  · intro s h i x p m p' es _ _ _ hbound ⟨hinv, hconf⟩ hp hop
    obtain ⟨hinv', hp', hnew⟩ :=
      syncThreadOp_confined hinv (hbound p (List.mem_of_getElem? hp)) hop
    refine ⟨fun j => j.elim, hp', fun k q _ hq => hbound q (List.mem_of_getElem? hq), hinv', ?_⟩
    intro e he
    exact (List.mem_append.mp he).elim (hconf e) (hnew e)

end Runs

def plainDirs : SyncDirs := ⟨[47, 115], [47, 102], [47, 99], [47, 115]⟩

def plainFiles : Files := ((AList.insert [] .dir ∅).insert [[115]] .dir).insert [[99]] .dir

def plainMem : SyncMem where
  files := plainFiles
  catalog := ∅
  suppress := []
  fetch := ⟨[], false, 0, none, none, [], noInfo, 0, 0⟩
  fetchLocked := false
  txLocked := false
  listing := []
  listingInProgress := false
  inotifyOn := true
  watches := []
  sent := []
  handling := none

theorem plainMem_setUp : plainMem.SetUp plainDirs := ⟨rfl, rfl, by decide⟩

def fineEnv : SyncEnv := ⟨true, 9, [120], none⟩

def announceBelow : List (Move SyncStart SyncEnv) := List.flatten
  [[.start (.receive (.fileChanged [97, 47, 98] noInfo))], List.replicate 7 (.run 0 fineEnv)]

theorem messages_confined_announceBelow : ∃ s h, Reaches (syncProg plainDirs id).step
    (fun _ _ a => safeMove plainDirs a = true) ⟨plainMem, []⟩ s h ∧
      ⟨.receiver, .touched .create [[115], [97]]⟩ ∈ h ∧
      ⟨.receiver, .touched .symlink [[115], [97], [98]]⟩ ∈ h ∧
      ∀ e ∈ h, e.role = .receiver → ∀ how q, e.event = .touched how q → Confined plainDirs q := by
  have hr : Reaches (syncProg plainDirs id).step (fun _ _ a => safeMove plainDirs a = true)
      ⟨plainMem, []⟩ _ _ :=
    .of_acts announceBelow (by decide +kernel)
  exact ⟨_, _, hr, by decide +kernel, by decide +kernel, messages_confined rfl plainMem_setUp hr⟩

def announceOutside : List (Move SyncStart SyncEnv) := List.flatten
  [[.start (.receive (.fileChanged [46, 46, 47, 120] noInfo))], List.replicate 6 (.run 0 fineEnv)]

theorem announcement_links_outside : ∃ s h, Reaches (syncProg plainDirs id).step
    (fun _ _ _ => True) ⟨plainMem, []⟩ s h ∧
      ⟨.receiver, .touched .symlink [[120]]⟩ ∈ h ∧ ¬ Confined plainDirs [[120]] ∧
      s.mem.files.lookup [[120]] = some (.link (fusePath plainDirs [46, 46, 47, 120])) := by
  have hr : Reaches (syncProg plainDirs id).step (fun _ _ _ => True) ⟨plainMem, []⟩ _ _ :=
    .of_free announceOutside (by decide +kernel)
  exact ⟨_, _, hr, by decide +kernel, by decide, by decide +kernel⟩

end OdinLink
