import OdinLink.Daemon.Catalog
import OdinLink.Lib.FileTree
import OdinLink.Lib.Scripts

/-!
# What the sync engine operates on

The state of one daemon: its file system, the catalog, the fetch that is under way, the peer's
listing as far as it was received, and what was sent. A handler is a program of the operations here,
each of which takes effect at once; every access to the file system is logged with the path that it
resolves to.
-/

namespace OdinLink

open Paths FileTree Scripts

/-- A regular file; `mine` if the user put it there. -/
structure FileData where
  bytes : List UInt8
  mode : Nat
  mtimeNs : Nat
  mine : Bool
  deriving DecidableEq, Repr

abbrev Files := Tree Name FileData

/-- The messages of the wire protocol. A path is what a C string function reads at `rel_path`, and
`data` the `chunk_len` bytes behind the header. -/
inductive SyncMsg where
  | fileMeta (rel : List UInt8) (info : FileInfo) (numChunks : Nat)
  | fileData (chunkIndex : Nat) (data : List UInt8)
  | fileAck (rel : List UInt8) (status : Nat)
  | fileDelete (rel : List UInt8)
  | dirCreate (rel : List UInt8) (mtimeNs mode : Nat)
  | dirDelete (rel : List UInt8)
  | syncReq
  | listingEntry (rel : List UInt8) (info : FileInfo)
  | listingEnd
  | fetchReq (rel : List UInt8)
  | fetchResp (rel : List UInt8) (info : FileInfo) (numChunks status : Nat)
  | removeReq (rel : List UInt8)
  | removeAck (rel : List UInt8) (status : Nat)
  | fileChanged (rel : List UInt8) (info : FileInfo)
  | fileRemoved (rel : List UInt8) (isDir : Bool)
  deriving DecidableEq, Repr

/-- The fields `fetch_*` and `recv_*` of the engine. The temporary file is known by its descriptor
and by its path; a descriptor is named by the path it was opened at. -/
structure FetchState where
  pendingPath : List UInt8
  inProgress : Bool
  result : Int
  tmpFd : Option (List UInt8)
  tmpPath : Option (List UInt8)
  relPath : List UInt8
  info : FileInfo
  numChunks : Nat
  chunksGot : Nat
  deriving DecidableEq, Repr

structure SyncDirs where
  shared : List UInt8
  fuse : List UInt8
  cache : List UInt8
  localStore : List UInt8
  deriving DecidableEq, Repr

/-- `watches` are the directories with an inotify watch, `handling` the message that the receiver is
at, and `sent` what was put on the stream. -/
structure SyncMem where
  files : Files
  catalog : Catalog
  suppress : List (List UInt8)
  fetch : FetchState
  fetchLocked : Bool
  txLocked : Bool
  listing : List CatalogEntry
  listingInProgress : Bool
  inotifyOn : Bool
  watches : List (List UInt8)
  sent : List SyncMsg
  handling : Option SyncMsg

inductive Touch where
  | create
  | unlink
  | rename
  | chmod
  | symlink
  | rmdir
  | openRead
  deriving DecidableEq, Repr

/-- An access to the file system, or the loss of a regular file that the user put there. -/
inductive SyncEvent where
  | touched (how : Touch) (path : List Name)
  | lost (path : List Name)
  deriving DecidableEq, Repr

inductive SyncOp where
  | lockFetch
  | unlockFetch
  | awaitFetch
  | lockTx
  | unlockTx
  | send (msg : SyncMsg)
  | getFetch
  | setFetch (f : FetchState)
  | getListing
  | setListing (listing : List CatalogEntry) (inProgress : Bool)
  | suppressAdd (rel : List UInt8)
  | suppressCheckAndRemove (rel : List UInt8)
  | catalogLookup (rel : List UInt8)
  | catalogSet (rel : List UInt8) (e : CatalogEntry)
  | catalogRemove (rel : List UInt8)
  | catalogUpdateRemote (listing : List CatalogEntry)
  | catalogMarkCached (rel : List UInt8)
  | catalogMarkBoth (rel : List UInt8)
  | catalogListDir (dir : List UInt8)
  | catalogRemoveLocalCopy (rel localPath cachePath : List UInt8)
  | lstat (path : List UInt8)
  | stat (path : List UInt8)
  | unlink (path : List UInt8)
  | mkdirWithParents (path : List UInt8)
  | symlink (target path : List UInt8)
  | mkstemp (dir : List UInt8)
  | write (path data : List UInt8)
  | rename (old new : List UInt8)
  | chmod (path : List UInt8) (mode : Nat)
  | utimens (path : List UInt8) (mtimeNs : Nat)
  | rmdir (path : List UInt8)
  | openRead (path : List UInt8)
  | read (path : List UInt8) (off n : Nat)
  | sha256File (path : List UInt8)
  | readDir (path : List UInt8)
  | inotifyOn
  | addWatchRecursive (path rel : List UInt8)
  | removeWatch (rel : List UInt8)
  deriving DecidableEq, Repr

abbrev SyncOp.Res : SyncOp → Type
  | .send _ | .unlink _ | .mkdirWithParents _ | .symlink _ _ | .write _ _ | .rename _ _
  | .rmdir _ | .openRead _ | .suppressCheckAndRemove _ | .inotifyOn => Bool
  | .catalogRemoveLocalCopy _ _ _ => Bool
  | .getFetch => FetchState
  | .getListing => List CatalogEntry × Bool
  | .catalogLookup _ => Option CatalogEntry
  | .catalogListDir _ => List CatalogEntry
  | .lstat _ | .stat _ => Option (Node FileData)
  | .mkstemp _ | .read _ _ _ => Option (List UInt8)
  | .sha256File _ => List UInt8
  | .readDir _ => List Name
  | _ => Unit

/-- What the surroundings decide: whether a call that can fail succeeds, after how many directories
one that makes several fails, the name of a temporary file, and what is at the other end of a
link. -/
structure SyncEnv where
  ok : Bool
  limit : Nat
  name : Name
  target : Option (Node FileData)
  deriving DecidableEq, Repr

def syncTmpPrefix : List UInt8 :=
  [46, 111, 100, 108, 95, 102, 101, 116, 99, 104, 95, 116, 109, 112, 95]

namespace SyncMem
variable (m : SyncMem)

def nodeAt (path : List UInt8) : Option (Node FileData) := m.files.lookup (resolve path)

def followed (path : List UInt8) (target : Option (Node FileData)) : Option (Node FileData) :=
  match m.nodeAt path with
  | some (.link _) => target
  | node => node

def userFile (path : List Name) : Bool :=
  match m.files.lookup path with
  | some (.file f) => f.mine
  | _ => false

def loss (path : List Name) : List SyncEvent := if m.userFile path then [.lost path] else []

def withFiles (t : Option Files) : SyncMem × Bool :=
  match t with
  | some t => ({m with files := t}, true)
  | none => (m, false)

def setFile (path : List UInt8) (f : FileData → FileData) : SyncMem :=
  match m.nodeAt path with
  | some (.file data) => {m with files := m.files.insert (resolve path) (.file (f data))}
  | _ => m

end SyncMem

section Exec
variable (m : SyncMem)

def dropCopy (path : List UInt8) (catalog : Catalog) (x : SyncEnv) :
    SyncMem × Bool × List SyncEvent :=
  let r := m.withFiles (if x.ok then unlink m.files (resolve path) else none)
  -- ENOENT counts as success
  let gone := r.2 || (x.ok && decide (m.nodeAt path = none))
  ({r.1 with catalog := if gone then catalog else m.catalog}, gone,
    .touched .unlink (resolve path) :: if r.2 then m.loss (resolve path) else [])

/-- `odl_catalog_remove_local_copy`, with the catalog locked. -/
def removeLocalCopy (rel localPath cachePath : List UInt8) (x : SyncEnv) :
    SyncMem × Bool × List SyncEvent :=
  match m.catalog.lookup rel with
  | none => (m, false, [])
  | some e =>
    match e.location with
    | .both => dropCopy m localPath (m.catalog.insert rel {e with location := .remote}) x
    | .cached => dropCopy m cachePath (m.catalog.insert rel {e with location := .remote}) x
    | .localOnly => dropCopy m localPath (m.catalog.erase rel) x
    | .remote => (m, false, [])

/-- The directories that `inotify_add_watch_recursive` opens. -/
def dirsUnder (path : List Name) : List (List Name) :=
  m.files.keys.filter fun q => path.isPrefixOf q && isDir m.files q

variable (sha256 : List UInt8 → List UInt8)

/-- One operation; `none` if it has to wait. -/
def exec (m : SyncMem) : (op : SyncOp) → SyncEnv → Option (SyncMem × op.Res × List SyncEvent)
  | .lockFetch, _ => if m.fetchLocked then none else some ({m with fetchLocked := true}, (), [])
  | .unlockFetch, _ => some ({m with fetchLocked := false}, (), [])
  -- the lock is released while waiting
  | .awaitFetch, _ =>
    if m.fetchLocked || m.fetch.inProgress then none
    else some ({m with fetchLocked := true}, (), [])
  | .lockTx, _ => if m.txLocked then none else some ({m with txLocked := true}, (), [])
  | .unlockTx, _ => some ({m with txLocked := false}, (), [])
  | .send msg, x => some (if x.ok then ({m with sent := m.sent ++ [msg]}, true, []) else (m, false, []))
  | .getFetch, _ => some (m, m.fetch, [])
  | .setFetch f, _ => some ({m with fetch := f}, (), [])
  | .getListing, _ => some (m, (m.listing, m.listingInProgress), [])
  | .setListing listing inProgress, _ =>
    some ({m with listing := listing, listingInProgress := inProgress}, (), [])
  | .suppressAdd rel, _ => some ({m with suppress := rel :: m.suppress.erase rel}, (), [])
  | .suppressCheckAndRemove rel, _ =>
    some ({m with suppress := m.suppress.erase rel}, m.suppress.contains rel, [])
  | .catalogLookup rel, _ => some (m, m.catalog.lookup rel, [])
  | .catalogSet rel e, _ => some ({m with catalog := m.catalog.set rel e}, (), [])
  | .catalogRemove rel, _ => some ({m with catalog := m.catalog.erase rel}, (), [])
  | .catalogUpdateRemote listing, _ =>
    some ({m with catalog := m.catalog.updateRemote listing}, (), [])
  | .catalogMarkCached rel, _ => some ({m with catalog := m.catalog.markCached rel}, (), [])
  | .catalogMarkBoth rel, _ => some ({m with catalog := m.catalog.markBoth rel}, (), [])
  | .catalogListDir dir, _ => some (m, m.catalog.listDir dir, [])
  | .catalogRemoveLocalCopy rel localPath cachePath, x =>
    some (removeLocalCopy m rel localPath cachePath x)
  | .lstat path, _ => some (m, m.nodeAt path, [])
  | .stat path, x => some (m, m.followed path x.target, [])
  | .unlink path, x =>
    let r := m.withFiles (if x.ok then unlink m.files (resolve path) else none)
    some (r.1, r.2,
      .touched .unlink (resolve path) :: if r.2 then m.loss (resolve path) else [])
  | .mkdirWithParents path, x =>
    let r := mkdirs m.files (wayTo path) x.limit
    some ({m with files := r.1}, r.2.2, r.2.1.map (.touched .create))
  | .symlink target path, x =>
    let r := m.withFiles (if x.ok then add m.files (resolve path) (.link target) else none)
    some (r.1, r.2, [.touched .symlink (resolve path)])
  | .mkstemp dir, x =>
    -- the name is chosen by the library, of letters and digits
    if slash ∈ x.name then none
    else
      let path := dir ++ slash :: (syncTmpPrefix ++ x.name)
      let r := m.withFiles
        (if x.ok then add m.files (resolve path) (.file ⟨[], 0o600, 0, false⟩) else none)
      some (r.1, if r.2 then some path else none, [.touched .create (resolve path)])
  | .write path data, x =>
    some (if x.ok then
      (m.setFile path fun f => {f with bytes := f.bytes ++ data}, true, []) else (m, false, []))
  | .rename old new, x =>
    let r := m.withFiles (if x.ok then rename m.files (resolve old) (resolve new) else none)
    some (r.1, r.2, [.touched .rename (resolve old), .touched .rename (resolve new)] ++
      if r.2 ∧ resolve old ≠ resolve new then m.loss (resolve old) ++ m.loss (resolve new) else [])
  | .chmod path mode, _ =>
    some (m.setFile path fun f => {f with mode := mode}, (), [.touched .chmod (resolve path)])
  | .utimens path mtimeNs, _ => some (m.setFile path fun f => {f with mtimeNs := mtimeNs}, (), [])
  | .rmdir path, x =>
    let r := m.withFiles (if x.ok then rmdir m.files (resolve path) else none)
    some (r.1, r.2, [.touched .rmdir (resolve path)])
  | .openRead path, x =>
    some (m, x.ok && (m.followed path x.target).isSome, [.touched .openRead (resolve path)])
  | .read path off n, x =>
    some (m, (match m.followed path x.target with
      | some (.file f) => if x.ok then some (((f.bytes.drop off).take n).take x.limit) else none
      | _ => none), [])
  | .sha256File path, x =>
    some (m, (match m.followed path x.target with
      | some (.file f) => sha256 f.bytes
      | _ => List.replicate 32 0), [.touched .openRead (resolve path)])
  | .readDir path, _ =>
    some (m, readDir m.files (resolve path), [.touched .openRead (resolve path)])
  | .inotifyOn, _ => some (m, m.inotifyOn, [])
  | .addWatchRecursive path rel, _ =>
    some ({m with watches := rel :: m.watches}, (),
      (dirsUnder m (resolve path)).map (.touched .openRead))
  | .removeWatch rel, _ => some ({m with watches := m.watches.erase rel}, (), [])

end Exec

end OdinLink
