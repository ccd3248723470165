import OdinLink.Daemon.SyncOps
import OdinLink.Lib.Threads

/-!
# The sync engine

The handlers of the peer's messages, as the receiver runs them one after the other; `fetch_file`,
which any thread may call; and what the main loop does, the scan of the shared folder and the
handling of inotify events. All of them are programs of operations on the state of the daemon, and
take turns after every operation.
-/

namespace OdinLink

open Paths FileTree Scripts Threads

abbrev Sync := Script SyncOp SyncOp.Res

def syncOp (op : SyncOp) : Sync op.Res := .perform op

def odlSyncChunkSize : Nat := 512 * 1024

def errNoEnt : Int := -2

def errIo : Int := -5

def errInval : Int := -22

def errInProgress : Int := -115

section Handlers
variable (d : SyncDirs)

def sharedPath (rel : List UInt8) : List UInt8 := join d.shared rel

def fusePath (rel : List UInt8) : List UInt8 := join d.fuse rel

def cachePath (rel : List UInt8) : List UInt8 := join d.cache rel

def syncCreateRemoteSymlink (rel : List UInt8) : Sync Unit := do
  syncOp (.suppressAdd rel)
  let lst ← syncOp (.lstat (sharedPath d rel))
  .when (lst.isSome) do
    let _ ← syncOp (.unlink (sharedPath d rel))
  let _ ← syncOp (.mkdirWithParents (dirname (sharedPath d rel)))
  let _ ← syncOp (.symlink (fusePath d rel) (sharedPath d rel))

def isLink : Option (Node FileData) → Bool
  | some (.link _) => true
  | _ => false

def unlinkLink (path : List UInt8) : Sync Unit := do
  let lst ← syncOp (.lstat path)
  .when (isLink lst) do
    let _ ← syncOp (.unlink path)

def syncRemoveRemoteSymlink (rel : List UInt8) : Sync Unit := do
  syncOp (.suppressAdd rel)
  unlinkLink (sharedPath d rel)

def watchIfOn (rel : List UInt8) : Sync Unit := do
  let on : Bool ← syncOp .inotifyOn
  .when on (syncOp (.addWatchRecursive (sharedPath d rel) rel))

def unwatchIfOn (rel : List UInt8) : Sync Unit := do
  let on : Bool ← syncOp .inotifyOn
  .when on (syncOp (.removeWatch rel))

/-! The exchange of catalogs. -/

def sendListing : List CatalogEntry → Sync Unit
  | [] => pure ()
  | e :: es => do
    .when (e.location = .localOnly ∨ e.location = .both) do
      let _ ← syncOp (.send (.listingEntry e.relPath e.info))
    sendListing es

def syncExchangeCatalog : Sync Unit := do
  syncOp .lockTx
  let ok : Bool ← syncOp (.send .syncReq)
  .when ok do
    let entries ← syncOp (.catalogListDir [])
    sendListing entries
    let _ ← syncOp (.send .listingEnd)
  syncOp .unlockTx

def syncHandleListingEntry (rel : List UInt8) (info : FileInfo) : Sync Unit := do
  let l ← syncOp .getListing
  syncOp (.setListing (⟨copyPath rel, info, .remote⟩ :: l.1) true)

def linkListing : List CatalogEntry → Sync Unit
  | [] => pure ()
  | e :: es => do
    let existing ← syncOp (.catalogLookup e.relPath)
    .when ((existing.any fun x => decide (x.location = .remote ∨ x.location = .cached)) ∧
        e.info.isDir = false) (syncCreateRemoteSymlink d e.relPath)
    linkListing es

def syncHandleListingEnd : Sync Unit := do
  let l ← syncOp .getListing
  if l.1 = [] ∧ l.2 = false then pure ()
  else
    syncOp (.catalogUpdateRemote l.1)
    linkListing d l.1
    syncOp (.setListing [] false)

/-! Fetches: the serving side. -/

/-- The number of chunks in the header, a `uint32_t`. -/
def numChunksOf (fileSize : Nat) : Nat :=
  if 0 < fileSize then (fileSize + odlSyncChunkSize - 1) / odlSyncChunkSize % 2 ^ 32 else 1

def readSome (path : List UInt8) (off n : Nat) : Sync (Option (List UInt8)) :=
  if 0 < n then syncOp (.read path off n) else pure (some [])

def serveChunks (path : List UInt8) (fileSize : Nat) : Nat → Nat → Nat → Sync Unit
  | 0, _, _ => pure ()
  | n + 1, i, bytesSent => do
    let toRead :=
      if fileSize < bytesSent + odlSyncChunkSize then fileSize - bytesSent else odlSyncChunkSize
    let data ← readSome path bytesSent toRead
    match data with
    | none => pure ()
    | some data =>
      let ok : Bool ← syncOp (.send (.fileData i data))
      .when ok (serveChunks path fileSize n (i + 1) (bytesSent + data.length))

def sha256Of (path : List UInt8) : Node FileData → Sync (List UInt8)
  | .file f =>
    if 0 < f.bytes.length then syncOp (.sha256File path) else pure (List.replicate 32 0)
  | _ => pure (List.replicate 32 0)

def noInfo : FileInfo := ⟨0, 0, 0, false, List.replicate 32 0⟩

def refuseFetch (rel : List UInt8) (status : Nat) : Sync Unit := do
  syncOp .lockTx
  let _ ← syncOp (.send (.fetchResp rel noInfo 0 status))
  syncOp .unlockTx

def isHere (ce : Option CatalogEntry) : Bool :=
  ce.any fun e => decide (e.location = .localOnly ∨ e.location = .both)

def serveFile (rel : List UInt8) (f : FileData) : Sync Unit := do
  let sha ← sha256Of (sharedPath d rel) (.file f)
  let opened : Bool ← syncOp (.openRead (sharedPath d rel))
  if opened then
    syncOp .lockTx
    let ok : Bool ← syncOp (.send (.fetchResp rel ⟨f.bytes.length, f.mtimeNs, f.mode, false, sha⟩
      (numChunksOf f.bytes.length) 0))
    .when ok (serveChunks (sharedPath d rel) f.bytes.length (numChunksOf f.bytes.length) 0 0)
    syncOp .unlockTx
  else refuseFetch rel 2

def syncHandleFetchReq (req : List UInt8) : Sync Unit := do
  let rel := copyPath req
  let ce ← syncOp (.catalogLookup rel)
  if isHere ce then
    let st ← syncOp (.stat (sharedPath d rel))
    match st with
    | some (.file f) => serveFile d rel f
    | _ => refuseFetch rel 2
  else refuseFetch rel 1

/-! Fetches: the receiving side. -/

def finishEmpty (f : FetchState) (tmp : List UInt8) : Sync Unit := do
  syncOp (.setFetch {f with tmpFd := none})
  let _ ← syncOp (.mkdirWithParents (dirname (cachePath d f.relPath)))
  let _ ← syncOp (.rename tmp (cachePath d f.relPath))
  .when (f.info.mode ≠ 0) (syncOp (.chmod (cachePath d f.relPath) f.info.mode))
  syncOp (.setFetch {f with tmpFd := none, tmpPath := none})
  syncOp (.catalogMarkCached f.relPath)
  syncOp (.setFetch {f with tmpFd := none, tmpPath := none, result := 0, inProgress := false})

def startReceive (f : FetchState) (rel : List UInt8) : Sync Unit := do
  syncOp (.setFetch f)
  let _ ← syncOp (.mkdirWithParents (dirname (cachePath d rel)))
  let tmp ← syncOp (.mkstemp d.cache)
  match tmp with
  | none =>
    syncOp (.setFetch {f with tmpFd := none, tmpPath := none, result := errIo, inProgress := false})
  | some tmp =>
    let f := {f with tmpFd := some tmp, tmpPath := some tmp}
    syncOp (.setFetch f)
    .when (f.numChunks = 0 ∨ f.info.fileSize = 0) (finishEmpty d f tmp)

def syncHandleFetchResp (rel : List UInt8) (info : FileInfo) (numChunks status : Nat) :
    Sync Unit := do
  syncOp .lockFetch
  let f ← syncOp .getFetch
  if f.inProgress = false ∨ f.pendingPath ≠ rel then syncOp .unlockFetch
  else if status ≠ 0 then
    syncOp (.setFetch {f with result := if status = 1 then errNoEnt else errIo, inProgress := false})
    syncOp .unlockFetch
  else
    startReceive d
      {f with relPath := copyPath rel, info := info, numChunks := numChunks, chunksGot := 0} rel
    syncOp .unlockFetch

def dropTmp (f : FetchState) (tmp : List UInt8) : Sync Unit := do
  let _ ← syncOp (.unlink tmp)
  syncOp (.setFetch {f with tmpFd := none, tmpPath := none, result := errIo, inProgress := false})

def finishFetch (f : FetchState) (tmp : List UInt8) : Sync Unit := do
  syncOp (.setFetch {f with tmpFd := none})
  let _ ← syncOp (.mkdirWithParents (dirname (cachePath d f.relPath)))
  let ok : Bool ← syncOp (.rename tmp (cachePath d f.relPath))
  if ok then
    .when (f.info.mode ≠ 0) (syncOp (.chmod (cachePath d f.relPath) f.info.mode))
    syncOp (.utimens (cachePath d f.relPath) f.info.mtimeNs)
    syncOp (.setFetch {f with tmpFd := none, tmpPath := none})
    syncOp (.catalogMarkCached f.relPath)
    .when f.inProgress
      (syncOp (.setFetch
        {f with tmpFd := none, tmpPath := none, result := 0, inProgress := false}))
  else dropTmp f tmp

def writeSome (fd data : List UInt8) : Sync Bool :=
  if 0 < data.length then syncOp (.write fd data) else pure true

def receiveChunk (f : FetchState) (fd tmp data : List UInt8) : Sync Unit := do
  let ok : Bool ← writeSome fd data
  if ok then
    let f := {f with chunksGot := (f.chunksGot + 1) % 2 ^ 32}
    syncOp (.setFetch f)
    .when (f.numChunks ≤ f.chunksGot) (finishFetch d f tmp)
  else dropTmp f tmp

def syncHandleFileData (data : List UInt8) : Sync Unit := do
  syncOp .lockFetch
  let f ← syncOp .getFetch
  match f.tmpFd, f.tmpPath with
  | some fd, some tmp =>
    receiveChunk d f fd tmp data
    syncOp .unlockFetch
  | _, _ => syncOp .unlockFetch

def syncHandleFileMeta (rel : List UInt8) (info : FileInfo) (numChunks : Nat) : Sync Unit := do
  syncOp .lockFetch
  let f ← syncOp .getFetch
  let f := {f with relPath := copyPath rel, info := info, numChunks := numChunks, chunksGot := 0}
  syncOp (.setFetch f)
  syncOp (.suppressAdd rel)
  let tmp ← syncOp (.mkstemp d.shared)
  syncOp (.setFetch {f with tmpFd := tmp, tmpPath := tmp})
  syncOp .unlockFetch

/-! Removals and announcements. -/

def relocate (e : CatalogEntry) (location : FileLocation) : CatalogEntry :=
  {e with location := location}

def syncHandleFileDelete (rel : List UInt8) : Sync Unit := do
  let ce ← syncOp (.catalogLookup rel)
  match ce with
  | none => pure ()
  | some e =>
    match e.location with
    | .remote =>
      syncRemoveRemoteSymlink d rel
      syncOp (.catalogRemove rel)
    | .both => syncOp (.catalogSet rel (relocate e .localOnly))
    | .cached =>
      let _ ← syncOp (.unlink (cachePath d rel))
      syncRemoveRemoteSymlink d rel
      syncOp (.catalogRemove rel)
    | .localOnly => pure ()

def dirMode (mode : Nat) : Nat := if mode = 0 then 0o755 else mode

def syncHandleDirCreate (rel : List UInt8) (mtimeNs mode : Nat) : Sync Unit := do
  syncOp (.suppressAdd rel)
  let ok : Bool ← syncOp (.mkdirWithParents (sharedPath d rel))
  .when ok do
    syncOp (.catalogSet rel
      ⟨copyPath rel, ⟨0, mtimeNs, dirMode mode, true, List.replicate 32 0⟩, .both⟩)
    watchIfOn d rel

def syncHandleDirDelete (rel : List UInt8) : Sync Unit := do
  syncOp (.suppressAdd rel)
  let ok : Bool ← syncOp (.rmdir (sharedPath d rel))
  .when ok do
    syncOp (.catalogRemove rel)
    unwatchIfOn rel

def sendRemoveAck (rel : List UInt8) (status : Nat) : Sync Unit := do
  syncOp .lockTx
  let _ ← syncOp (.send (.removeAck (copyPath rel) status))
  syncOp .unlockTx

def syncHandleRemoveReq (rel : List UInt8) : Sync Unit := do
  let ce ← syncOp (.catalogLookup rel)
  if ce.isSome then
    syncOp (.suppressAdd rel)
    let ok : Bool ← syncOp (.catalogRemoveLocalCopy rel (d.localStore ++ slash :: rel)
      (d.cache ++ slash :: rel))
    sendRemoveAck rel (if ok then 0 else 2)
  else sendRemoveAck rel 1

def syncHandleRemoveAck (rel : List UInt8) (status : Nat) : Sync Unit := do
  .when (status = 0) do
    let ce ← syncOp (.catalogLookup rel)
    match ce with
    | none => pure ()
    | some e =>
      match e.location with
      | .both => syncOp (.catalogSet rel (relocate e .localOnly))
      | .remote =>
        syncRemoveRemoteSymlink d rel
        syncOp (.catalogRemove rel)
      | _ => pure ()

def announced (existing : Option CatalogEntry) : FileLocation :=
  if isHere existing then .both else .remote

def createRemoteDir (rel : List UInt8) : Sync Unit := do
  syncOp (.suppressAdd rel)
  let _ ← syncOp (.mkdirWithParents (sharedPath d rel))
  watchIfOn d rel

def syncHandleFileChanged (rel : List UInt8) (info : FileInfo) : Sync Unit := do
  let existing ← syncOp (.catalogLookup rel)
  syncOp (.catalogSet rel ⟨copyPath rel, info, announced existing⟩)
  .when (announced existing = .remote)
    (if info.isDir then createRemoteDir d rel else syncCreateRemoteSymlink d rel)

def removeRemoteDir (rel : List UInt8) : Sync Unit := do
  syncOp (.suppressAdd rel)
  let _ ← syncOp (.rmdir (sharedPath d rel))
  unwatchIfOn rel

def syncHandleFileRemoved (rel : List UInt8) (isDir : Bool) : Sync Unit := do
  let ce ← syncOp (.catalogLookup rel)
  match ce with
  | none => pure ()
  | some e =>
    match e.location with
    | .remote =>
      (if isDir then removeRemoteDir d rel else syncRemoveRemoteSymlink d rel)
      syncOp (.catalogRemove rel)
    | .both => syncOp (.catalogSet rel (relocate e .localOnly))
    | .cached =>
      let _ ← syncOp (.unlink (cachePath d rel))
      syncRemoveRemoteSymlink d rel
      syncOp (.catalogRemove rel)
    | .localOnly => pure ()

/-- `sync_dispatch_msg`. -/
def syncDispatch : SyncMsg → Sync Unit
  | .fileMeta rel info numChunks => syncHandleFileMeta d rel info numChunks
  | .fileData _ data => syncHandleFileData d data
  | .fileAck rel status => .when (status = 0) (syncOp (.catalogMarkBoth rel))
  | .fileDelete rel => syncHandleFileDelete d rel
  | .dirCreate rel mtimeNs mode => syncHandleDirCreate d rel mtimeNs mode
  | .dirDelete rel => syncHandleDirDelete d rel
  | .syncReq => syncExchangeCatalog
  | .listingEntry rel info => syncHandleListingEntry rel info
  | .listingEnd => syncHandleListingEnd d
  | .fetchReq rel => syncHandleFetchReq d rel
  | .fetchResp rel info numChunks status => syncHandleFetchResp d rel info numChunks status
  | .removeReq rel => syncHandleRemoveReq d rel
  | .removeAck rel status => syncHandleRemoveAck d rel status
  | .fileChanged rel info => syncHandleFileChanged d rel info
  | .fileRemoved rel isDir => syncHandleFileRemoved d rel isDir

/-! `odl_daemon_sync_fetch_file`. -/

def fetchRequest (rel : List UInt8) : Sync (Option Int) := do
  if rel = [] then pure (some errInval)
  else
    let ce ← syncOp (.catalogLookup rel)
    if ce.any fun e => decide (e.location ≠ .remote) then pure (some 0)
    else
      syncOp .lockFetch
      let f ← syncOp .getFetch
      syncOp (.setFetch
        {f with pendingPath := copyPath rel, inProgress := true, result := errInProgress})
      syncOp .unlockFetch
      syncOp .lockTx
      let ok : Bool ← syncOp (.send (.fetchReq (copyPath rel)))
      syncOp .unlockTx
      if ok then pure none
      else
        syncOp .lockFetch
        let f ← syncOp .getFetch
        syncOp (.setFetch {f with inProgress := false})
        syncOp .unlockFetch
        pure (some errIo)

def moveToShared (rel : List UInt8) : Sync Unit := do
  syncOp (.suppressAdd rel)
  unlinkLink (sharedPath d rel)
  let _ ← syncOp (.mkdirWithParents (dirname (sharedPath d rel)))
  let ok : Bool ← syncOp (.rename (cachePath d rel) (sharedPath d rel))
  .when ok (syncOp (.catalogMarkBoth rel))

def fetchMove (rel : List UInt8) : Sync Int := do
  syncOp .awaitFetch
  let f ← syncOp .getFetch
  syncOp .unlockFetch
  .when (f.result = 0) (moveToShared d rel)
  pure f.result

def fetchFile (rel : List UInt8) : Sync Int := do
  let r ← fetchRequest rel
  match r with
  | some result => pure result
  | none => fetchMove d rel

/-! The main loop. -/

def scanned (rel : List UInt8) (node : Node FileData) (sha : List UInt8) : CatalogEntry :=
  match node with
  | .file f => ⟨copyPath rel, ⟨f.bytes.length, f.mtimeNs, f.mode, false, sha⟩, .localOnly⟩
  | _ => ⟨copyPath rel, ⟨0, 0, 0o755, true, sha⟩, .localOnly⟩

def childRel (dirRel name : List UInt8) : List UInt8 :=
  if dirRel = [] then name else dirRel ++ slash :: name

def scanNames (scan : List UInt8 → List UInt8 → Sync Unit) (path rel : List UInt8) :
    List Name → Sync Unit
  | [] => pure ()
  | name :: names => do
    .when (syncTmpPrefix.isPrefixOf name = false) do
      let node ← syncOp (.lstat (join path name))
      match node with
      | some .dir =>
        syncOp (.catalogSet (childRel rel name)
          (scanned (childRel rel name) .dir (List.replicate 32 0)))
        scan (join path name) (childRel rel name)
      | some (.file f) =>
        let sha ← sha256Of (join path name) (.file f)
        syncOp (.catalogSet (childRel rel name) (scanned (childRel rel name) (.file f) sha))
      | _ => pure ()
    scanNames scan path rel names

/-- `sync_scan_shared_folder_recursive`, down to a depth of `fuel`. -/
def scanFolder : Nat → List UInt8 → List UInt8 → Sync Unit
  | 0, _, _ => pure ()
  | fuel + 1, path, rel => do
    let names ← syncOp (.readDir path)
    scanNames (scanFolder fuel) path rel names

inductive InotifyKind where
  | closeWrite
  | createDir
  | createFile
  | delete (isDir : Bool)
  | movedFrom (isDir : Bool)
  | movedTo (isDir : Bool)
  deriving DecidableEq, Repr

def changedInfo (st : Option (Node FileData)) (isDir : Bool) (sha : List UInt8) : FileInfo :=
  match st with
  | some (.file f) => ⟨f.bytes.length, f.mtimeNs, f.mode, isDir, sha⟩
  | some _ => ⟨0, 0, 0o755, isDir, sha⟩
  | none => ⟨0, 0, 0, isDir, sha⟩

def inotifySendFileChanged (rel : List UInt8) (isDir : Bool) : Sync Unit := do
  let st ← syncOp (.stat (sharedPath d rel))
  let sha ← sha256Of (sharedPath d rel) (if isDir then .dir else st.getD .dir)
  let info := changedInfo st isDir sha
  syncOp (.catalogSet rel ⟨copyPath rel, info, .localOnly⟩)
  syncOp .lockTx
  let _ ← syncOp (.send (.fileChanged (copyPath rel) info))
  syncOp .unlockTx

def forgetLocal (rel : List UInt8) : Option CatalogEntry → Sync Unit
  | none => pure ()
  | some e =>
    if e.location = .both then syncOp (.catalogSet rel (relocate e .remote))
    else syncOp (.catalogRemove rel)

def inotifySendFileRemoved (rel : List UInt8) (isDir : Bool) : Sync Unit := do
  let ce ← syncOp (.catalogLookup rel)
  forgetLocal rel ce
  syncOp .lockTx
  let _ ← syncOp (.send (.fileRemoved (copyPath rel) isDir))
  syncOp .unlockTx

/-- One event of `inotify_io_cb`. -/
def inotifyEvent (rel : List UInt8) (kind : InotifyKind) : Sync Unit := do
  let suppressed : Bool ← syncOp (.suppressCheckAndRemove rel)
  .when (suppressed = false) do
    let lst ← syncOp (.lstat (sharedPath d rel))
    .when (isLink lst = false) do
      match kind with
      | .closeWrite => inotifySendFileChanged d rel false
      | .createDir =>
        inotifySendFileChanged d rel true
        syncOp (.addWatchRecursive (sharedPath d rel) rel)
      | .createFile => pure ()
      | .delete isDir | .movedFrom isDir =>
        inotifySendFileRemoved rel isDir
        .when isDir (syncOp (.removeWatch rel))
      | .movedTo isDir =>
        inotifySendFileChanged d rel isDir
        .when isDir (syncOp (.addWatchRecursive (sharedPath d rel) rel))

end Handlers

/-! The operations of a program, for rules that do not go by their results. -/

section Ops
variable {P : SyncOp → Prop} {d : SyncDirs} {path rel : List UInt8}

theorem unlinkLink_ops (hlstat : P (.lstat path)) (hunlink : P (.unlink path)) :
    AllOps P (unlinkLink path) :=
  .op hlstat fun _ => .when (.op hunlink fun _ => trivial)

theorem sendListing_ops {entries : List CatalogEntry}
    (hsend : ∀ rel info, P (.send (.listingEntry rel info))) : AllOps P (sendListing entries) := by
  induction entries with
  | nil => trivial
  | cons e es ih => exact .bind (.when (.op (hsend _ _) fun _ => trivial)) fun _ => ih

theorem syncExchangeCatalog_ops (hlock : P .lockTx ∧ P .unlockTx) (hlist : P (.catalogListDir []))
    (hsend : P (.send .syncReq) ∧ P (.send .listingEnd))
    (hentry : ∀ rel info, P (.send (.listingEntry rel info))) : AllOps P syncExchangeCatalog :=
  .op hlock.1 fun _ => .op hsend.1 fun _ => .bind
    (.when (.op hlist fun _ => .bind (sendListing_ops hentry) fun _ => .op hsend.2 fun _ => trivial))
    fun _ => .lastOp hlock.2

theorem linkListing_ops {listing : List CatalogEntry} (hlookup : ∀ rel, P (.catalogLookup rel))
    (hlink : ∀ rel, AllOps P (syncCreateRemoteSymlink d rel)) : AllOps P (linkListing d listing) := by
  induction listing with
  | nil => trivial
  | cons e es ih => exact .op (hlookup _) fun _ => .bind (.when (hlink _)) fun _ => ih

theorem readSome_ops {off n : Nat} (hread : P (.read path off n)) :
    AllOps P (readSome path off n) := by
  rw [readSome]
  split
  · exact .lastOp hread
  · trivial

theorem writeSome_ops {data : List UInt8} (hwrite : P (.write path data)) :
    AllOps P (writeSome path data) := by
  rw [writeSome]
  split
  · exact .lastOp hwrite
  · trivial

theorem sha256Of_ops {node : Node FileData} (hsha : P (.sha256File path)) :
    AllOps P (sha256Of path node) := by
  rw [sha256Of.eq_def]
  split
  · split
    · exact .lastOp hsha
    · trivial
  · trivial

theorem serveChunks_ops {fileSize n i bytesSent : Nat}
    (hread : ∀ off n, n ≤ odlSyncChunkSize → P (.read path off n))
    (hsend : ∀ i data, P (.send (.fileData i data))) :
    AllOps P (serveChunks path fileSize n i bytesSent) := by
  induction n generalizing i bytesSent with
  | zero => trivial
  | succ n ih =>
    refine .bind (readSome_ops (hread _ _ (by split <;> omega))) fun data => ?_
    cases data with
    | none => trivial
    | some data => exact .op (hsend i data) fun _ => .when ih

theorem syncHandleFetchReq_ops (hlock : P .lockTx ∧ P .unlockTx)
    (hlook : P (.catalogLookup (copyPath rel)) ∧ P (.stat (sharedPath d (copyPath rel))))
    (hopen : P (.sha256File (sharedPath d (copyPath rel))) ∧
      P (.openRead (sharedPath d (copyPath rel))))
    (hread : ∀ path off n, n ≤ odlSyncChunkSize → P (.read path off n))
    (hsend : ∀ rel info n st, P (.send (.fetchResp rel info n st)))
    (hdata : ∀ i data, P (.send (.fileData i data))) : AllOps P (syncHandleFetchReq d rel) := by
  have hrefuse (status : Nat) : AllOps P (refuseFetch (copyPath rel) status) :=
    .op hlock.1 fun _ => .op (hsend _ _ _ _) fun _ => .lastOp hlock.2
  refine .op hlook.1 fun ce => ?_
  split
  · refine .op hlook.2 fun st => ?_
    split
    · refine .bind (sha256Of_ops hopen.1) fun sha => .op hopen.2 fun opened => ?_
      split
      · exact .op hlock.1 fun _ => .op (hsend _ _ _ _) fun _ =>
          .bind (.when (serveChunks_ops (hread _) hdata)) fun _ => .lastOp hlock.2
      · exact hrefuse 2
    · exact hrefuse 2
  · exact hrefuse 1

theorem scanNames_ops {scan : List UInt8 → List UInt8 → Sync Unit} {names : List Name}
    (hread : ∀ path, P (.lstat path) ∧ P (.sha256File path))
    (hset : ∀ rel node sha, P (.catalogSet rel (scanned rel node sha)))
    (hscan : ∀ path rel, AllOps P (scan path rel)) : AllOps P (scanNames scan path rel names) := by
  induction names with
  | nil => trivial
  | cons name names ih =>
    refine .bind (.when (.op (hread _).1 fun node => ?_)) fun _ => ih
    split
    · exact .op (hset _ _ _) fun _ => hscan _ _
    · exact .bind (sha256Of_ops (hread _).2) fun _ => .lastOp (hset _ _ _)
    · trivial

theorem scanFolder_ops {fuel : Nat} (hdir : ∀ path, P (.readDir path))
    (hread : ∀ path, P (.lstat path) ∧ P (.sha256File path))
    (hset : ∀ rel node sha, P (.catalogSet rel (scanned rel node sha))) :
    AllOps P (scanFolder fuel path rel) := by
  induction fuel generalizing path rel with
  | zero => trivial
  | succ fuel ih => exact .op (hdir _) fun _ => scanNames_ops hread hset fun _ _ => ih

end Ops

/-! The threads of one daemon, and its user. -/

inductive SyncRole where
  | receiver
  | mainLoop
  | caller
  | idle
  deriving DecidableEq, Repr

structure SyncThread where
  role : SyncRole
  script : Sync Unit

inductive SyncStart where
  | receive (msg : SyncMsg)
  | scan (fuel : Nat)
  | inotify (rel : List UInt8) (kind : InotifyKind)
  | catalogTimer
  | fetch (rel : List UInt8)
  | userPut (path : List Name) (bytes : List UInt8)
  | userRemove (path : List Name)
  | userMkdir (path : List Name)
  | userRmdir (path : List Name)
  deriving DecidableEq, Repr

structure SyncLog where
  role : SyncRole
  event : SyncEvent
  deriving DecidableEq, Repr

section Daemon
variable (d : SyncDirs) (sha256 : List UInt8 → List UInt8)

def syncStart (m : SyncMem) : SyncStart → Option (SyncMem × Option SyncThread × List SyncLog)
  | .receive msg =>
    if m.handling.isSome then none
    else some ({m with handling := some msg}, some ⟨.receiver, syncDispatch d msg⟩, [])
  | .scan fuel => some (m, some ⟨.mainLoop, scanFolder fuel d.shared []⟩, [])
  | .inotify rel kind => some (m, some ⟨.mainLoop, inotifyEvent d rel kind⟩, [])
  | .catalogTimer => some (m, some ⟨.mainLoop, syncExchangeCatalog⟩, [])
  | .fetch rel => some (m, some ⟨.caller, do let _ ← fetchFile d rel⟩, [])
  | .userPut path bytes =>
    if isDir m.files path then none
    else some ({m with files := m.files.insert path (.file ⟨bytes, 0o644, 0, true⟩)}, none, [])
  | .userRemove path => (unlink m.files path).map fun t => ({m with files := t}, none, [])
  | .userMkdir path => (add m.files path .dir).map fun t => ({m with files := t}, none, [])
  | .userRmdir path => (rmdir m.files path).map fun t => ({m with files := t}, none, [])

def syncThreadOp (m : SyncMem) (p : SyncThread) (x : SyncEnv) :
    Option (SyncMem × SyncThread × List SyncLog) :=
  match p.role, p.script with
  | .receiver, .pure a => some ({m with handling := none}, ⟨.idle, .pure a⟩, [])
  | role, script => (opStep (exec sha256) m script x).map fun r =>
    (r.1, ⟨role, r.2.1⟩, r.2.2.map (⟨role, ·⟩))

def syncProg : Prog SyncMem SyncThread SyncStart SyncEnv SyncLog where
  start := syncStart d
  op := syncThreadOp sha256

end Daemon

end OdinLink
