import OdinLink.Daemon.Leftovers

/-!
# Where leftovers of earlier messages count

A message that does not cover what its handler reads is told apart by some state of the engine.
-/

namespace OdinLink

open Paths FileTree Scripts

/-! States that tell one message from another. -/

def deafEnv : SyncEnv := ⟨false, 0, [], none⟩

def bare : SyncMem := {plainMem with files := ∅, inotifyOn := false}

def knowing (rel : List UInt8) (location : FileLocation) : SyncMem :=
  {bare with catalog := AList.insert rel ⟨rel, noInfo, location⟩ ∅}

def awaiting (rel : List UInt8) : SyncMem :=
  {plainMem with fetch := {plainMem.fetch with
    pendingPath := rel, inProgress := true, tmpPath := some []}}

def receiving : SyncMem :=
  {plainMem with
    files := AList.insert [] (.file ⟨[], 0, 0, false⟩) ∅
    fetch := {plainMem.fetch with tmpFd := some [], tmpPath := some [], numChunks := 2}}

def linked (d : SyncDirs) (rel : List UInt8) : SyncMem :=
  {knowing rel .remote with files := AList.insert (resolve (sharedPath d rel)) (.link []) ∅}

def locationAt (rel : List UInt8) (m : SyncMem) : Option FileLocation :=
  (m.catalog.lookup rel).map (·.location)

section Probes
variable {d : SyncDirs} {sha256 : List UInt8 → List UInt8} {rel rel' : List UInt8}
  {info : FileInfo} {n st : Nat}

theorem knowing_lookup (rel : List UInt8) (location : FileLocation) :
    (knowing rel location).catalog.lookup rel = some ⟨rel, noInfo, location⟩ :=
  AList.lookup_insert _

theorem knowing_lookup_ne (hne : rel' ≠ rel) (location : FileLocation) :
    (knowing rel location).catalog.lookup rel' = none :=
  AList.lookup_insert_ne hne

theorem finish_replicate {α : Type} {op : SyncOp} {f : op.Res → Sync α} {m : SyncMem} {x : SyncEnv} :
    finish (exec sha256) (Script.perform op >>= f) m (List.replicate (n + 1) x) =
      (exec sha256 m op x).bind fun r => (finish (exec sha256) (f r.2.1) r.1
        (List.replicate n x)).map fun q => (q.1, q.2.1, r.2.2 ++ q.2.2) :=
  rfl

variable (d sha256)

def seen {α : Type} (msg : SyncMsg) (m : SyncMem) (x : SyncEnv) (see : SyncMem → α) : Option α :=
  (finish (exec sha256) (syncDispatch d msg) m (List.replicate 9 x)).map fun r => see r.1

variable {d sha256}

theorem fileMeta_seen : seen d sha256 (.fileMeta rel info n) plainMem deafEnv
    (fun m => (m.suppress, m.fetch.info)) = some ([rel], info) :=
  rfl

theorem fileData_seen {i : Nat} {data : List UInt8} : seen d sha256 (.fileData i data) receiving fineEnv
    (fun m => m.files.lookup []) = some (some (.file ⟨data, 0, 0, false⟩)) := by
  cases data <;> rfl

theorem fileAck_seen : seen d sha256 (.fileAck rel st) (knowing rel .remote) deafEnv (locationAt rel) =
    some (some (if st = 0 then .both else .remote)) := by
  by_cases hst : st = 0
  · simp [seen, syncDispatch, Script.when, hst, syncOp, Script.perform, finish, exec, List.replicate,
      Catalog.markBoth, knowing_lookup, locationAt]
  · simp [seen, syncDispatch, Script.when, hst, knowing_lookup, locationAt]

theorem seen_unknown {α : Type} (msg : SyncMsg) {rest : Option CatalogEntry → Sync Unit}
    (hmsg : syncDispatch d msg = syncOp (.catalogLookup rel') >>= rest) (hnone : rest none = pure ())
    (hne : rel' ≠ rel) (location : FileLocation) (see : SyncMem → α) :
    seen d sha256 msg (knowing rel location) deafEnv see = some (see (knowing rel location)) := by
  rw [seen, hmsg, syncOp, finish_replicate]
  simp only [exec, knowing_lookup_ne hne, Option.bind_some]
  rw [hnone]
  rfl

theorem fileDelete_seen : seen d sha256 (.fileDelete rel) (knowing rel .both) deafEnv (locationAt rel) =
    some (some .localOnly) := by
  rw [seen, syncDispatch, syncHandleFileDelete, syncOp, finish_replicate]
  simp only [exec, knowing_lookup, Option.bind_some]
  simp [finish, syncOp, Script.perform, exec, locationAt, Catalog.set, relocate]

theorem dirDelete_seen : seen d sha256 (.dirDelete rel) plainMem deafEnv (fun m => m.suppress) =
    some [rel] :=
  rfl

theorem listingEntry_seen : seen d sha256 (.listingEntry rel info) plainMem deafEnv
    (fun m => m.listing) = some [⟨copyPath rel, info, .remote⟩] :=
  rfl

theorem fetchReq_seen : seen d sha256 (.fetchReq rel) plainMem fineEnv (fun m => m.sent) =
    some [.fetchResp (copyPath rel) noInfo 0 1] :=
  rfl

theorem removeAck_seen : seen d sha256 (.removeAck rel st) (knowing rel .both) deafEnv
    (locationAt rel) = some (some (if st = 0 then .localOnly else .both)) := by
  by_cases hst : st = 0
  · rw [seen, syncDispatch, syncHandleRemoveAck, Script.when, if_pos hst, syncOp,
      finish_replicate]
    simp only [exec, knowing_lookup, Option.bind_some]
    simp [finish, syncOp, Script.perform, exec, locationAt, Catalog.set, relocate, hst]
  · simp [seen, syncDispatch, syncHandleRemoveAck, Script.when, hst, knowing_lookup,
      locationAt]

theorem removeReq_seen : seen d sha256 (.removeReq rel) (knowing rel .remote) deafEnv
    (fun m => m.suppress) = some [rel] := by
  have hcopy (localPath cachePath : List UInt8) :
      removeLocalCopy {knowing rel .remote with suppress := [rel]} rel localPath cachePath deafEnv =
        ({knowing rel .remote with suppress := [rel]}, false, []) := by
    simp only [removeLocalCopy, knowing_lookup]
  rw [seen, syncDispatch, syncHandleRemoveReq, syncOp, finish_replicate]
  simp only [exec, knowing_lookup, Option.bind_some, Option.isSome_some, if_true]
  rw [syncOp, finish_replicate]
  simp only [exec, Option.bind_some]
  rw [syncOp, finish_replicate]
  simp only [exec, Option.bind_some]
  erw [hcopy]
  rfl

theorem removeReq_seen_ne (hne : rel' ≠ rel) : seen d sha256 (.removeReq rel') (knowing rel .remote)
    deafEnv (fun m => m.suppress) = some [] := by
  rw [seen, syncDispatch, syncHandleRemoveReq, syncOp, finish_replicate]
  simp only [exec, knowing_lookup_ne hne, Option.bind_some]
  rfl

theorem fileChanged_seen : seen d sha256 (.fileChanged rel info) (knowing rel .localOnly) deafEnv
    (fun m => (m.catalog.lookup rel).map fun e => (e.location, e.info)) =
      some (some (.both, info)) := by
  rw [seen, syncDispatch, syncHandleFileChanged, syncOp, finish_replicate]
  simp only [exec, knowing_lookup, Option.bind_some]
  simp [finish, syncOp, Script.perform, exec, Catalog.set, announced, isHere, Script.when]

theorem fileChanged_seen_ne (hne : rel' ≠ rel) : seen d sha256 (.fileChanged rel' info)
    (knowing rel .localOnly) deafEnv
    (fun m => (m.catalog.lookup rel).map fun e => (e.location, e.info)) =
      some (some (.localOnly, noInfo)) := by
  have hset (e : CatalogEntry) : ((knowing rel .localOnly).catalog.set rel' e).lookup rel =
      some ⟨rel, noInfo, .localOnly⟩ := by
    rw [Catalog.set, AList.lookup_insert_ne (Ne.symm hne), knowing_lookup]
  rw [seen, syncDispatch, syncHandleFileChanged, syncOp, finish_replicate]
  simp only [exec, knowing_lookup_ne hne, Option.bind_some]
  cases hdir : info.isDir <;>
    exact congrArg (fun o => some (Option.map (fun e : CatalogEntry => (e.location, e.info)) o))
      (hset _)

theorem dirCreate_seen {mtimeNs mode : Nat} {x : SyncEnv}
    (hx : (wayTo (sharedPath d rel)).length ≤ x.limit) :
    seen d sha256 (.dirCreate rel mtimeNs mode) bare x (fun m => (m.suppress, m.catalog)) =
      some ([rel], Catalog.set ∅ rel
        ⟨copyPath rel, ⟨0, mtimeNs, dirMode mode, true, List.replicate 32 0⟩, .both⟩) := by
  have hok : (mkdirs (∅ : Files) (wayTo (sharedPath d rel)) x.limit).2.2 = true :=
    mkdirs_ok (fun q _ => .inl rfl) hx
  rw [seen, syncDispatch, syncHandleDirCreate, syncOp, finish_replicate]
  simp only [exec, Option.bind_some]
  rw [syncOp, finish_replicate]
  simp only [exec, Option.bind_some, bare, hok, Script.when, if_true]
  rfl

theorem fetchResp_seen : seen d sha256 (.fetchResp rel' info n st) (awaiting rel) deafEnv
    (fun m => m.fetch) = some (if rel ≠ rel' then (awaiting rel).fetch else if st ≠ 0 then
      {(awaiting rel).fetch with
        result := if st = 1 then errNoEnt else errIo, inProgress := false}
      else {(awaiting rel).fetch with
        relPath := copyPath rel', info := info, numChunks := n, chunksGot := 0,
        tmpFd := none, tmpPath := none, result := errIo, inProgress := false}) := by
  rw [seen, syncDispatch, syncHandleFetchResp, syncOp, finish_replicate]
  simp only [exec, awaiting, plainMem, Bool.false_eq_true, if_false, Option.bind_some]
  rw [syncOp, finish_replicate]
  simp only [exec, Option.bind_some]
  rcases eq_or_ne rel rel' with rfl | hrel <;> by_cases hst : st = 0 <;>
    simp only [*, ne_eq, not_true_eq_false, not_false_eq_true, or_true, or_false, if_true, if_false,
      reduceCtorEq] <;> rfl

theorem fileRemoved_seen {isDir : Bool} : seen d sha256 (.fileRemoved rel isDir) (knowing rel .both)
    deafEnv (locationAt rel) = some (some .localOnly) := by
  rw [seen, syncDispatch, syncHandleFileRemoved, syncOp, finish_replicate]
  simp only [exec, knowing_lookup, Option.bind_some]
  simp [finish, syncOp, Script.perform, exec, locationAt, Catalog.set, relocate]

theorem linked_node (d : SyncDirs) (rel : List UInt8) :
    (linked d rel).files.lookup (resolve (sharedPath d rel)) = some (.link []) :=
  AList.lookup_insert _

theorem fileRemoved_seen_linked {isDir : Bool} :
    seen d sha256 (.fileRemoved rel isDir) (linked d rel) fineEnv
    (fun m => m.files.lookup (resolve (sharedPath d rel))) =
      some (if isDir then some (.link []) else none) := by
  have hcatalog : (linked d rel).catalog.lookup rel = some ⟨rel, noInfo, .remote⟩ :=
    knowing_lookup rel .remote
  have hleaf : isLeaf (linked d rel).files (resolve (sharedPath d rel)) = true := by
    rw [isLeaf, linked_node]
  have hdir : FileTree.isDir (linked d rel).files (resolve (sharedPath d rel)) = false := by
    rw [FileTree.isDir, linked_node]
  have hunlink : unlink (linked d rel).files (resolve (sharedPath d rel)) =
      some ((linked d rel).files.erase (resolve (sharedPath d rel))) := if_pos hleaf
  have hrmdir : rmdir (linked d rel).files (resolve (sharedPath d rel)) = none :=
    if_neg (by simp [hdir])
  rw [seen, syncDispatch, syncHandleFileRemoved, syncOp, finish_replicate]
  simp only [exec, hcatalog, Option.bind_some]
  cases isDir with
  | true =>
    simp only [if_true, removeRemoteDir, bind_assoc]
    rw [syncOp, finish_replicate]
    simp only [exec, Option.bind_some]
    rw [syncOp, finish_replicate]
    simp only [exec, Option.bind_some, fineEnv, if_true, hrmdir]
    exact congrArg some (linked_node d rel)
  | false =>
    simp only [Bool.false_eq_true, if_false, syncRemoveRemoteSymlink, unlinkLink, bind_assoc]
    rw [syncOp, finish_replicate]
    simp only [exec, Option.bind_some]
    rw [syncOp, finish_replicate]
    simp only [exec, Option.bind_some, SyncMem.nodeAt, linked_node, isLink, Script.when, if_true,
      bind_assoc]
    rw [syncOp, finish_replicate]
    simp only [exec, Option.bind_some, fineEnv, if_true, hunlink]
    exact congrArg some (AList.lookup_erase _ _)

end Probes

section Converse
variable {d : SyncDirs} {sha256 : List UInt8 → List UInt8} {msg : List UInt8}

def Told {α : Type} (msg : List UInt8) (read : Mem → α) : Prop :=
  ∀ buf buf' : Mem, read (buf.dmaWrite (received msg)) = read (buf'.dmaWrite (received msg))

def ActsAlike (d : SyncDirs) (sha256 : List UInt8 → List UInt8) (msg : List UInt8)
    (parse : Mem → SyncMsg) : Prop :=
  ∀ {α : Type} (m : SyncMem) (x : SyncEnv) (see : SyncMem → α),
    Told msg fun mem => seen d sha256 (parse mem) m x see

theorem ActsAlike.seen_eq {parse : Mem → SyncMsg} (h : ActsAlike d sha256 msg parse) {α : Type}
    (m : SyncMem) (x : SyncEnv) (see : SyncMem → α) (buf buf' : Mem) :
    seen d sha256 (parse (buf.dmaWrite (received msg))) m x see =
      seen d sha256 (parse (buf'.dmaWrite (received msg))) m x see :=
  h m x see buf buf'

theorem actsAlike_of_sees (hsees : SeesOnlyMessage d sha256 msg) (hh : handled msg = true) {t : Nat}
    (ht : (padded msg).le32 8 = t) {parse : Mem → SyncMsg}
    (hparse : ∀ mem, mem.le32 8 = t → mem.syncMsg = some (parse mem)) :
    ActsAlike d sha256 msg parse := by
  intro α m x see buf buf'
  have hscript (buf : Mem) : (recvAction buf msg).script d =
      syncDispatch d (parse (buf.dmaWrite (received msg))) :=
    script_of_handled hh (hparse _ ((type_eq hh buf).trans ht))
  have heq := hsees buf buf' m (List.replicate 9 x)
  rw [hscript buf, hscript buf'] at heq
  dsimp only
  rw [seen, seen, heq]

theorem relPath_of_not_ends (hh : handled msg = true) (hends : pathEnds msg = false) :
    (cleared.dmaWrite (received msg)).relPath = (received msg).drop 24 ∧
      ((marked (received msg).length).dmaWrite (received msg)).relPath =
        (received msg).drop 24 ++ [1] := by
  have hlen := ((handled_iff cleared).mp hh).1
  have hle : (received msg).length ≤ recvBufSize := List.length_take_le _ _
  have hnot : 0 ∉ (received msg).drop 24 := by
    intro hmem
    rw [pathEnds, List.contains_iff_mem.mpr hmem] at hends
    contradiction
  obtain ⟨k, hk⟩ : ∃ k, strLimit = (received msg).length - 24 + (k + 2) := by
    refine ⟨strLimit - 2 - ((received msg).length - 24), ?_⟩
    rw [recvBufSize, odlSyncChunkSize] at hle
    rw [strLimit]
    omega
  have hcleared : (cleared.dmaWrite (received msg)).cstr (received msg).length (k + 2) = [] :=
    if_pos (dmaWrite_of_le le_rfl)
  have hmarked : ((marked (received msg).length).dmaWrite (received msg)).cstr (received msg).length
      (k + 2) = [1] := by
    have hnext : (marked (received msg).length).dmaWrite (received msg) ((received msg).length + 1) =
        0 := by
      rw [dmaWrite_of_le (Nat.le_succ _), marked, if_neg (Nat.succ_ne_self _)]
    rw [Mem.cstr, dmaWrite_of_le le_rfl, marked, if_pos rfl, if_neg (by decide), Mem.cstr,
      if_pos hnext]
  rw [Mem.relPath, Mem.relPath, hk, cstr_of_not_mem hnot hlen, cstr_of_not_mem hnot hlen, hcleared,
    hmarked, List.append_nil]
  exact ⟨rfl, rfl⟩

theorem pathEnds_of_told (hh : handled msg = true) (hpath : Told msg Mem.relPath) :
    pathEnds msg = true := by
  by_contra hends
  obtain ⟨h₁, h₂⟩ := relPath_of_not_ends hh (Bool.eq_false_of_not_eq_true hends)
  have heq := hpath cleared (marked (received msg).length)
  rw [h₁, h₂] at heq
  simpa using congrArg List.length heq

theorem length_le_of_not_reaches {n : Nat} (h : ¬reaches msg (n + 1) = true) :
    (received msg).length ≤ n := by
  rw [reaches, decide_eq_true_eq] at h
  omega

theorem reaches_of_read {off n : Nat} (hn : 0 < n) (hread : Told msg fun mem => mem.read off n) :
    reaches msg (off + n) = true := by
  by_contra hreach
  have hle : (received msg).length ≤ off + (n - 1) := by
    rw [reaches, decide_eq_true_eq] at hreach
    omega
  have heq := congrArg (fun l => l.getD (n - 1) 0) (hread cleared (marked (off + (n - 1))))
  have hlt : n - 1 < n := by omega
  simp only [Mem.read, List.getD_eq_getElem?_getD, List.getElem?_map,
    List.getElem?_range hlt, Option.map_some, Option.getD_some, dmaWrite_of_le hle, marked,
    cleared] at heq
  simp at heq

theorem reaches_of_field {off : Nat} (hfield : Told msg fun mem => mem.le32 off) :
    reaches msg (off + 4) = true := by
  by_contra hreach
  have hle : (received msg).length ≤ off + 3 := length_le_of_not_reaches hreach
  have heq := hfield cleared (marked (off + 3))
  dsimp only at heq
  rw [le32_marked hle] at heq
  omega

theorem cstr_of_zero (mem : Mem) {off j n : Nat} (hj : mem (off + j) = 0) (hn : j ≤ n) :
    mem.cstr off n = mem.cstr off j := by
  induction j generalizing off n with
  | zero =>
    cases n with
    | zero => rfl
    | succ n => exact if_pos hj
  | succ j ih =>
    obtain ⟨n, rfl⟩ : ∃ k, n = k + 1 := ⟨n - 1, by omega⟩
    have hnext : mem (off + 1 + j) = 0 := by rw [Nat.add_assoc, Nat.add_comm 1 j, hj]
    rw [Mem.cstr, Mem.cstr, ih hnext (by omega)]

theorem reaches_of_zero
    (hzero : ∀ buf buf' : Mem,
      (buf.dmaWrite (received msg)).relPath = (buf'.dmaWrite (received msg)).relPath →
      ((buf.dmaWrite (received msg)).le32 280 = 0 ↔ (buf'.dmaWrite (received msg)).le32 280 = 0)) :
    (reaches msg 284 || (padded msg).le32 280 != 0) = true := by
  by_contra hnot
  rw [Bool.or_eq_true, not_or, bne_iff_ne, not_not] at hnot
  obtain ⟨hreach, hpadded⟩ := hnot
  have hle : (received msg).length ≤ 280 + 3 := length_le_of_not_reaches hreach
  have hsame {i : Nat} (hi : i < 283) :
      cleared.dmaWrite (received msg) i = (marked 283).dmaWrite (received msg) i := by
    by_cases hlt : i < (received msg).length
    · exact dmaWrite_of_lt _ _ hlt
    · rw [dmaWrite_of_le (Nat.le_of_not_lt hlt), dmaWrite_of_le (Nat.le_of_not_lt hlt), marked,
        if_neg (by omega)]
      rfl
  have hbyte : cleared.dmaWrite (received msg) (24 + 256) = 0 := by
    have hnat : (padded msg 280).toNat = 0 := by
      rw [Mem.le32] at hpadded
      omega
    exact UInt8.toNat_inj.mp hnat
  have hpath : (cleared.dmaWrite (received msg)).relPath =
      ((marked 283).dmaWrite (received msg)).relPath := by
    have hbyte' : (marked 283).dmaWrite (received msg) (24 + 256) = 0 := by
      rw [← hsame (by decide), hbyte]
    rw [Mem.relPath, Mem.relPath, cstr_of_zero _ hbyte (by decide),
      cstr_of_zero _ hbyte' (by decide)]
    exact cstr_congr fun i hi => hsame (by omega)
  have hiff := (hzero cleared (marked 283) hpath).mp hpadded
  rw [le32_marked hle] at hiff
  omega

theorem dirMode_add (mode : Nat) : dirMode (mode + 16777216) ≠ dirMode mode := by
  rw [dirMode, dirMode]
  split <;> split <;> omega

theorem reaches_of_fetch (d : SyncDirs) (sha256 : List UInt8 → List UInt8)
    (hsame : ∀ buf buf' : Mem,
      seen d sha256 (.fetchResp (padded msg).relPath ((buf.dmaWrite (received msg)).fileInfo false 312)
        ((buf.dmaWrite (received msg)).le32 300) ((buf.dmaWrite (received msg)).le32 304))
        (awaiting (padded msg).relPath) deafEnv (fun m => m.fetch) =
      seen d sha256 (.fetchResp (padded msg).relPath ((buf'.dmaWrite (received msg)).fileInfo false 312)
        ((buf'.dmaWrite (received msg)).le32 300) ((buf'.dmaWrite (received msg)).le32 304))
        (awaiting (padded msg).relPath) deafEnv (fun m => m.fetch)) :
    (reaches msg 344 || (reaches msg 308 && (padded msg).le32 304 != 0) ||
      decide (1 < (padded msg).le32 304)) = true := by
  by_cases hreach : reaches msg 308 = true
  · -- the status is known, and the hash matters if it is zero
    have hstatus := field_congr hreach (show 304 + 4 ≤ 308 by decide)
    by_cases hzero : (padded msg).le32 304 = 0
    · have hsha : reaches msg (312 + 32) = true := by
        refine reaches_of_read (by decide) fun buf buf' => ?_
        have heq := hsame buf buf'
        rw [hstatus buf cleared, hstatus buf' cleared] at heq
        change seen d sha256 (.fetchResp _ _ _ ((padded msg).le32 304)) _ _ _ =
          seen d sha256 (.fetchResp _ _ _ ((padded msg).le32 304)) _ _ _ at heq
        simp only [hzero, fetchResp_seen, Option.some.injEq, FetchState.mk.injEq, ne_eq,
          not_true_eq_false, if_false] at heq
        exact congrArg FileInfo.sha256 heq.2.2.2.2.2.2.1
      rw [hsha, Bool.true_or, Bool.true_or]
    · rw [hreach, bne_iff_ne.mpr hzero, Bool.and_self, Bool.or_true, Bool.true_or]
  · -- the last byte of the status can be anything
    have hlen : (received msg).length ≤ 304 + 3 := length_le_of_not_reaches hreach
    have hmarked := le32_marked hlen
    have heq := hsame cleared (marked (304 + 3))
    change seen d sha256 (.fetchResp _ _ _ ((padded msg).le32 304)) _ _ _ = _ at heq
    rw [fetchResp_seen, fetchResp_seen, hmarked] at heq
    have hlarge : 1 < (padded msg).le32 304 := by
      by_contra hsmall
      rcases (by omega : (padded msg).le32 304 = 0 ∨ (padded msg).le32 304 = 1) with hst | hst <;>
        simp [hst, awaiting, errNoEnt, errIo] at heq
    rw [decide_eq_true hlarge, Bool.or_true]

theorem ActsAlike.path_told {parse : Mem → SyncMsg} (h : ActsAlike d sha256 msg parse) {α : Type}
    (m : List UInt8 → SyncMem) (see : List UInt8 → SyncMem → α)
    (hdiff : ∀ mem mem', mem'.relPath ≠ mem.relPath →
      seen d sha256 (parse mem) (m mem.relPath) deafEnv (see mem.relPath) ≠
        seen d sha256 (parse mem') (m mem.relPath) deafEnv (see mem.relPath)) :
    Told msg Mem.relPath := by
  intro buf buf'
  by_contra hne
  exact hdiff _ _ (Ne.symm hne) (h.seen_eq _ _ _ buf buf')

theorem ActsAlike.zero_told {parse : Mem → SyncMsg} (h : ActsAlike d sha256 msg parse) {α : Type}
    (yes no : α) (hne : yes ≠ no) (m : List UInt8 → SyncMem) (x : SyncEnv)
    (see : List UInt8 → SyncMem → α)
    (hsee : ∀ mem, seen d sha256 (parse mem) (m mem.relPath) x (see mem.relPath) =
      some (if mem.le32 280 = 0 then yes else no)) :
    (reaches msg 284 || (padded msg).le32 280 != 0) = true := by
  refine reaches_of_zero fun buf buf' hpath => ?_
  have heq := h.seen_eq (m (buf.dmaWrite (received msg)).relPath) x
    (see (buf.dmaWrite (received msg)).relPath) buf buf'
  rw [hsee, hpath, hsee, Option.some.injEq] at heq
  split at heq <;> split at heq <;> simp_all

section Types
variable (hh : handled msg = true)
include hh

theorem fileMeta_told (h : ActsAlike d sha256 msg fun mem =>
      .fileMeta mem.relPath (mem.fileInfo false 304) (mem.le32 300)) :
    (reaches msg 336 && pathEnds msg) = true := by
  have hsame := h.seen_eq plainMem deafEnv fun m => (m.suppress, m.fetch.info)
  simp only [fileMeta_seen, Option.some.injEq, Prod.mk.injEq, List.cons.injEq, and_true] at hsame
  rw [Bool.and_eq_true]
  exact ⟨reaches_of_read (by decide) fun buf buf' => congrArg FileInfo.sha256 (hsame buf buf').2,
    pathEnds_of_told hh fun buf buf' => (hsame buf buf').1⟩

omit hh in
theorem fileData_told (h : ActsAlike d sha256 msg fun mem =>
      .fileData (mem.le32 24) (mem.read 32 (mem.le32 28))) :
    (reaches msg 32 && reaches msg (32 + (padded msg).le32 28)) = true := by
  have hdata := h.seen_eq receiving fineEnv fun m => m.files.lookup []
  simp only [fileData_seen, Option.some.injEq, Node.file.injEq, FileData.mk.injEq,
    and_true] at hdata
  have hlen (buf buf' : Mem) : (buf.dmaWrite (received msg)).le32 28 =
      (buf'.dmaWrite (received msg)).le32 28 := by
    simpa using congrArg List.length (hdata buf buf')
  have hreach : reaches msg 32 = true := reaches_of_field hlen
  rw [hreach, Bool.true_and]
  rcases Nat.eq_zero_or_pos ((padded msg).le32 28) with hzero | hpos
  · rw [hzero]
    exact hreach
  · refine reaches_of_read hpos fun buf buf' => ?_
    have heq := hdata buf buf'
    rwa [hlen buf cleared, hlen buf' cleared] at heq

omit hh in
theorem fileAck_told (h : ActsAlike d sha256 msg fun mem => .fileAck mem.relPath (mem.le32 280)) :
    (reaches msg 284 || (padded msg).le32 280 != 0) = true := by
  refine h.zero_told (some .both) (some .remote) (by decide) (knowing · .remote) deafEnv locationAt
    fun mem => ?_
  rw [fileAck_seen, apply_ite some]

theorem fileDelete_told (h : ActsAlike d sha256 msg fun mem => .fileDelete mem.relPath) :
    pathEnds msg = true := by
  refine pathEnds_of_told hh (h.path_told (knowing · .both) locationAt fun mem mem' hne => ?_)
  rw [fileDelete_seen, seen_unknown (.fileDelete _) rfl rfl hne, locationAt, knowing_lookup]
  simp

theorem dirCreate_told (h : ActsAlike d sha256 msg fun mem =>
      .dirCreate mem.relPath (mem.le64 280) (mem.le32 288)) :
    (reaches msg 292 && pathEnds msg) = true := by
  have hsame (buf buf' : Mem) := h.seen_eq bare
    ⟨false, (wayTo (sharedPath d (buf.dmaWrite (received msg)).relPath)).length +
      (wayTo (sharedPath d (buf'.dmaWrite (received msg)).relPath)).length, [], none⟩
    (fun m => (m.suppress, m.catalog)) buf buf'
  have hboth (buf buf' : Mem) := Option.some.inj <|
    (dirCreate_seen (Nat.le_add_right _ _)).symm.trans
      ((hsame buf buf').trans (dirCreate_seen (Nat.le_add_left _ _)))
  simp only [Prod.mk.injEq, List.cons.injEq, and_true] at hboth
  have hpath (buf buf' : Mem) := (hboth buf buf').1
  have hmode : reaches msg 292 = true := by
    by_contra hreach
    have hle : (received msg).length ≤ 288 + 3 := length_le_of_not_reaches hreach
    have heq := congrArg (fun c => (c.lookup (padded msg).relPath).map (·.info.mode))
      (hboth cleared (marked (288 + 3))).2
    rw [hpath (marked (288 + 3)) cleared, le32_marked hle] at heq
    simp only [Catalog.set, padded, AList.lookup_insert, Option.map_some, Option.some.injEq] at heq
    exact dirMode_add _ heq.symm
  rw [hmode, Bool.true_and]
  exact pathEnds_of_told hh hpath

theorem dirDelete_told (h : ActsAlike d sha256 msg fun mem => .dirDelete mem.relPath) :
    pathEnds msg = true := by
  have hsame := h.seen_eq plainMem deafEnv fun m => m.suppress
  simp only [dirDelete_seen, Option.some.injEq, List.cons.injEq, and_true] at hsame
  exact pathEnds_of_told hh hsame

omit hh in
theorem listingEntry_told (h : ActsAlike d sha256 msg fun mem =>
      .listingEntry mem.relPath (mem.fileInfo (mem.le32 300 != 0) 304)) :
    reaches msg 336 = true := by
  have hsame := h.seen_eq plainMem deafEnv fun m => m.listing
  simp only [listingEntry_seen, Option.some.injEq, List.cons.injEq, and_true,
    CatalogEntry.mk.injEq] at hsame
  exact reaches_of_read (by decide) fun buf buf' => congrArg FileInfo.sha256 (hsame buf buf').2

theorem fetchReq_told (h : ActsAlike d sha256 msg fun mem => .fetchReq mem.relPath) :
    (reaches msg 279 || pathEnds msg) = true := by
  have hsame := h.seen_eq plainMem fineEnv fun m => m.sent
  simp only [fetchReq_seen, Option.some.injEq, List.cons.injEq, and_true,
    SyncMsg.fetchResp.injEq] at hsame
  by_contra hnot
  rw [Bool.or_eq_true, not_or] at hnot
  obtain ⟨h₁, h₂⟩ := relPath_of_not_ends hh (Bool.eq_false_of_not_eq_true hnot.2)
  have heq := congrArg List.length (hsame cleared (marked (received msg).length))
  have hshort : (received msg).length < 279 := by simpa [reaches] using hnot.1
  rw [h₁, h₂, copyPath, copyPath] at heq
  simp only [List.length_take, List.length_append, List.length_drop, List.length_singleton] at heq
  omega

theorem fetchResp_told (h : ActsAlike d sha256 msg fun mem =>
      .fetchResp mem.relPath (mem.fileInfo false 312) (mem.le32 300) (mem.le32 304)) :
    (pathEnds msg && (reaches msg 344 || (reaches msg 308 && (padded msg).le32 304 != 0) ||
      decide (1 < (padded msg).le32 304))) = true := by
  have hpath : Told msg Mem.relPath := by
    refine h.path_told awaiting (fun _ m => m.fetch) fun mem mem' hne => ?_
    rw [fetchResp_seen, fetchResp_seen]
    by_cases hzero : mem.le32 304 = 0 <;> simp [awaiting, hzero, Ne.symm hne]
  rw [Bool.and_eq_true]
  refine ⟨pathEnds_of_told hh hpath, reaches_of_fetch d sha256 fun buf buf' => ?_⟩
  have heq := h.seen_eq (awaiting (padded msg).relPath) deafEnv (fun m => m.fetch) buf buf'
  rwa [hpath buf cleared, hpath buf' cleared] at heq

theorem removeReq_told (h : ActsAlike d sha256 msg fun mem => .removeReq mem.relPath) :
    pathEnds msg = true := by
  refine pathEnds_of_told hh
    (h.path_told (knowing · .remote) (fun _ m => m.suppress) fun mem mem' hne => ?_)
  rw [removeReq_seen, removeReq_seen_ne hne]
  simp

omit hh in
theorem removeAck_told (h : ActsAlike d sha256 msg fun mem => .removeAck mem.relPath (mem.le32 280)) :
    (reaches msg 284 || (padded msg).le32 280 != 0) = true := by
  refine h.zero_told (some .localOnly) (some .both) (by decide) (knowing · .both) deafEnv locationAt
    fun mem => ?_
  rw [removeAck_seen, apply_ite some]

theorem fileChanged_told (h : ActsAlike d sha256 msg fun mem =>
      .fileChanged mem.relPath (mem.fileInfo (mem.le32 300 != 0) 304)) :
    (reaches msg 336 && pathEnds msg) = true := by
  have hpath : Told msg Mem.relPath := by
    refine h.path_told (knowing · .localOnly) (fun rel m =>
      (m.catalog.lookup rel).map fun e => (e.location, e.info)) fun mem mem' hne => ?_
    rw [fileChanged_seen, fileChanged_seen_ne hne]
    simp
  have hsha : reaches msg (304 + 32) = true := by
    refine reaches_of_read (by decide) fun buf buf' => ?_
    have heq := h.seen_eq (knowing (buf.dmaWrite (received msg)).relPath .localOnly) deafEnv
      (fun m => (m.catalog.lookup (buf.dmaWrite (received msg)).relPath).map fun e =>
        (e.location, e.info)) buf buf'
    rw [fileChanged_seen, hpath buf buf', fileChanged_seen] at heq
    simp only [Option.some.injEq, Prod.mk.injEq, true_and] at heq
    exact congrArg FileInfo.sha256 heq
  rw [hsha, pathEnds_of_told hh hpath, Bool.and_self]

theorem fileRemoved_told (h : ActsAlike d sha256 msg fun mem =>
      .fileRemoved mem.relPath (mem.le32 280 != 0)) :
    (pathEnds msg && (reaches msg 284 || (padded msg).le32 280 != 0)) = true := by
  have hpath : Told msg Mem.relPath := by
    refine h.path_told (knowing · .both) locationAt fun mem mem' hne => ?_
    rw [fileRemoved_seen, seen_unknown (.fileRemoved _ _) rfl rfl hne, locationAt, knowing_lookup]
    simp
  rw [Bool.and_eq_true]
  refine ⟨pathEnds_of_told hh hpath, h.zero_told none (some (.link [])) (by simp) (linked d) fineEnv
    (fun rel m => m.files.lookup (resolve (sharedPath d rel))) fun mem => ?_⟩
  rw [fileRemoved_seen_linked]
  by_cases hzero : mem.le32 280 = 0 <;> simp [hzero]

end Types

theorem selfContained_of_sees (hsees : SeesOnlyMessage d sha256 msg) : selfContained msg = true := by
  cases hh : handled msg with
  | false => rw [selfContained, hh, Bool.not_false, Bool.true_or]
  | true =>
    have htype : (padded msg).le32 8 ∈ syncTypes := ((handled_iff cleared).mp hh).2.2
    have hacts {t : Nat} := actsAlike_of_sees (t := t) hsees hh
    rw [selfContained, hh, Bool.not_true, Bool.false_or]
    simp only [syncTypes, List.mem_cons, List.not_mem_nil, or_false] at htype
    rcases htype with ht | ht | ht | ht | ht | ht | ht | ht | ht | ht | ht | ht | ht | ht | ht <;>
      simp only [ht]
    · exact fileMeta_told hh (hacts ht fun mem hm => by simp only [Mem.syncMsg, hm])
    · exact fileData_told (hacts ht fun mem hm => by simp only [Mem.syncMsg, hm])
    · exact fileAck_told (hacts ht fun mem hm => by simp only [Mem.syncMsg, hm])
    · exact fileDelete_told hh (hacts ht fun mem hm => by simp only [Mem.syncMsg, hm])
    · exact dirCreate_told hh (hacts ht fun mem hm => by simp only [Mem.syncMsg, hm])
    · exact dirDelete_told hh (hacts ht fun mem hm => by simp only [Mem.syncMsg, hm])
    · exact listingEntry_told (hacts ht fun mem hm => by simp only [Mem.syncMsg, hm])
    · exact fetchReq_told hh (hacts ht fun mem hm => by simp only [Mem.syncMsg, hm])
    · exact fetchResp_told hh (hacts ht fun mem hm => by simp only [Mem.syncMsg, hm])
    · exact removeReq_told hh (hacts ht fun mem hm => by simp only [Mem.syncMsg, hm])
    · exact removeAck_told (hacts ht fun mem hm => by simp only [Mem.syncMsg, hm])
    · exact fileChanged_told hh (hacts ht fun mem hm => by simp only [Mem.syncMsg, hm])
    · exact fileRemoved_told hh (hacts ht fun mem hm => by simp only [Mem.syncMsg, hm])

end Converse

def shortChunk : List UInt8 := List.flatten
  [[0x53, 0x4C, 0x44, 0x4F], [1, 0, 0, 0], [2, 0, 0, 0], [8, 0, 0, 0], List.replicate 8 0,
    [0, 0, 0, 0], [4, 0, 0, 0]]

end OdinLink
