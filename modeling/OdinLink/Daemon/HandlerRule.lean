import OdinLink.Daemon.SyncEngine
import OdinLink.Daemon.SyncSteps

/-!
# What the handlers may do

A handler that is given a path below the folder it is taken from stays below the shared folder and
the cache, and it unlinks or replaces something only in the cache, under the name of a temporary
file, or where it has seen that no file of the user is.
-/

namespace OdinLink

open Paths FileTree Scripts

def SyncMsg.path : SyncMsg → Option (List UInt8)
  | .fileMeta rel _ _ | .fileAck rel _ | .fileDelete rel | .dirCreate rel _ _ | .dirDelete rel
  | .listingEntry rel _ | .fetchReq rel | .fetchResp rel _ _ _ | .removeReq rel | .removeAck rel _
  | .fileChanged rel _ | .fileRemoved rel _ => some rel
  | .fileData _ _ | .syncReq | .listingEnd => none

def SafePath (rel : List UInt8) : Prop := Below rel ∧ Below (copyPath rel)

instance (rel : List UInt8) : Decidable (SafePath rel) := inferInstanceAs (Decidable (_ ∧ _))

def SyncMsg.Safe (msg : SyncMsg) : Prop := ∀ rel ∈ msg.path, SafePath rel

instance (msg : SyncMsg) : Decidable msg.Safe :=
  inferInstanceAs (Decidable (∀ rel ∈ msg.path, SafePath rel))

def SyncMsg.announces : SyncMsg → Bool
  | .fileChanged _ _ | .listingEnd => true
  | _ => false

structure Knowledge where
  names : List (List UInt8)
  clear : List (List UInt8)

section Rule
variable (d : SyncDirs) (msg : SyncMsg)

def Confined (q : List Name) : Prop := Inside (resolve d.shared) q ∨ Inside (resolve d.cache) q

instance (q : List Name) : Decidable (Confined d q) := inferInstanceAs (Decidable (_ ∨ _))

def IsTmp (path : List UInt8) : Prop :=
  ∃ dir name, (dir = d.shared ∨ dir = d.cache) ∧ slash ∉ name ∧
    path = dir ++ slash :: (syncTmpPrefix ++ name)

def baseDirs : List (List Name) :=
  resolve d.shared :: resolve d.cache :: (wayTo d.shared ++ wayTo d.cache)

def SafeFetch (f : FetchState) : Prop := ∀ tmp, f.tmpPath = some tmp → IsTmp d tmp ∧ Below f.relPath

def SafeListing (listing : List CatalogEntry) : Prop := ∀ e ∈ listing, Below e.relPath

def handlerAllows (g : Knowledge) : SyncOp → Prop
  | .setFetch f => SafeFetch d f
  | .setListing listing _ => SafeListing listing
  | .unlink path => Confined d (resolve path) ∧
      (path ∈ g.clear ∨ Inside (resolve d.cache) (resolve path) ∨ IsTmp d path)
  | .rename old new => IsTmp d old ∧ Inside (resolve d.cache) (resolve new)
  | .catalogRemoveLocalCopy _ localPath cachePath => (∃ rel, msg = .removeReq rel) ∧
      Confined d (resolve localPath) ∧ Confined d (resolve cachePath)
  | .mkdirWithParents path => ∀ q ∈ wayTo path, q ∈ baseDirs d ∨ Confined d q
  | .mkstemp dir => dir = d.shared ∨ dir = d.cache
  | .symlink _ path | .chmod path _ | .rmdir path | .openRead path | .sha256File path
  | .addWatchRecursive path _ => Confined d (resolve path)
  | .readDir _ => False
  | _ => True

def SafeResult : (op : SyncOp) → op.Res → Prop
  | .getFetch, f => SafeFetch d f
  | .getListing, l => SafeListing l.1
  | .mkstemp _, tmp => ∀ path, tmp = some path → IsTmp d path
  | _, _ => True

def Knowledge.learn (g : Knowledge) : (op : SyncOp) → op.Res → Knowledge
  | .getListing, l =>
    if msg = .listingEnd then {g with names := l.1.map (sharedPath d ·.relPath)} else g
  | .setListing _ _, _ => ⟨[], []⟩
  | .catalogLookup rel, ce =>
    if msg.announces ∧ sharedPath d rel ∈ g.names ∧ isHere ce = false then
      {g with clear := sharedPath d rel :: g.clear}
    else g
  | .lstat path, node =>
    if path ∈ g.names ∧ isLink node then {g with clear := path :: g.clear} else g
  | _, _ => g

def handlerRule : Rule SyncOp SyncOp.Res Knowledge :=
  .ofLearn (handlerAllows d msg) (SafeResult d) (Knowledge.learn d msg)

end Rule

section Follows
variable {d : SyncDirs} {msg : SyncMsg} {g : Knowledge}

variable (d msg g) in
theorem Knowledge.learn_lstat (path : List UInt8) (node : Option (Node FileData)) :
    (g.learn d msg (.lstat path) node).names = g.names ∧
      g.clear ⊆ (g.learn d msg (.lstat path) node).clear ∧
      (path ∈ g.names → isLink node = true → path ∈ (g.learn d msg (.lstat path) node).clear) := by
  simp only [learn]
  split
  · exact ⟨rfl, List.subset_cons_self _ _, fun _ _ => List.mem_cons_self⟩
  · rename_i hnot
    exact ⟨rfl, List.Subset.refl _, fun hpath hlink => absurd ⟨hpath, hlink⟩ hnot⟩

variable (d msg g) in
theorem Knowledge.learn_lookup_names (rel : List UInt8) (ce : Option CatalogEntry) :
    (g.learn d msg (.catalogLookup rel) ce).names = g.names := by
  simp only [learn]
  split <;> rfl

theorem Knowledge.learn_lookup_clear {rel : List UInt8} {ce : Option CatalogEntry}
    (hann : msg.announces = true) (hrel : sharedPath d rel ∈ g.names) (hhere : isHere ce = false) :
    sharedPath d rel ∈ (g.learn d msg (.catalogLookup rel) ce).clear := by
  simp only [learn]
  rw [if_pos ⟨hann, hrel, hhere⟩]
  exact List.mem_cons_self

variable {rel : List UInt8}

theorem confined_shared (hrel : Below rel) : Confined d (resolve (sharedPath d rel)) :=
  .inl hrel.inside

theorem confined_cache (hrel : Below rel) : Confined d (resolve (cachePath d rel)) :=
  .inr hrel.inside

theorem IsTmp.resolve_eq {path : List UInt8} (htmp : IsTmp d path) : ∃ dir name,
    (dir = d.shared ∨ dir = d.cache) ∧ resolve path = resolve dir ++ [syncTmpPrefix ++ name] := by
  obtain ⟨dir, name, hdir, hname, rfl⟩ := htmp
  refine ⟨dir, name, hdir, resolve_child ?_ ?_ ?_ ?_ dir⟩
  · rw [List.mem_append, not_or]
    exact ⟨by decide, hname⟩
  · simp [syncTmpPrefix]
  · simp [syncTmpPrefix, here]
  · simp [syncTmpPrefix, up, dot]

theorem IsTmp.confined {path : List UInt8} (htmp : IsTmp d path) : Confined d (resolve path) := by
  obtain ⟨dir, name, rfl | rfl, heq⟩ := htmp.resolve_eq
  · rw [heq]
    exact .inl (inside_append _ (by simp))
  · rw [heq]
    exact .inr (inside_append _ (by simp))

theorem allows_mkdir {dir path : List UInt8} (hdir : dir = d.shared ∨ dir = d.cache)
    (hway : ∀ q ∈ wayTo path, q ∈ wayTo dir ∨ q = resolve dir ∨ Inside (resolve dir) q) :
    handlerAllows d msg g (.mkdirWithParents path) := by
  intro q hq
  rcases hdir with rfl | rfl
  · rcases hway q hq with hq | rfl | hq
    · exact .inl (by simp [baseDirs, hq])
    · exact .inl (by simp [baseDirs])
    · exact .inr (.inl hq)
  · rcases hway q hq with hq | rfl | hq
    · exact .inl (by simp [baseDirs, hq])
    · exact .inl (by simp [baseDirs])
    · exact .inr (.inr hq)

theorem allows_mkdir_shared (hrel : Below rel) :
    handlerAllows d msg g (.mkdirWithParents (sharedPath d rel)) :=
  allows_mkdir (.inl rfl) fun _ hq => wayTo_join hrel.1 hq

theorem allows_mkdir_shared_parent (hrel : Below rel) :
    handlerAllows d msg g (.mkdirWithParents (dirname (sharedPath d rel))) :=
  allows_mkdir (.inl rfl) fun _ hq => wayTo_dirname_join hrel hq

theorem allows_mkdir_cache_parent (hrel : Below rel) :
    handlerAllows d msg g (.mkdirWithParents (dirname (cachePath d rel))) :=
  allows_mkdir (.inr rfl) fun _ hq => wayTo_dirname_join hrel hq

end Follows

section Handlers
variable {d : SyncDirs} {msg : SyncMsg} {g : Knowledge} {rel : List UInt8}
variable {info : FileInfo}

theorem syncCreateRemoteSymlink_follows (hrel : Below rel) (hclear : sharedPath d rel ∈ g.clear) :
    Follows (handlerRule d msg) (fun g' _ => g'.names = g.names) (syncCreateRemoteSymlink d rel)
      g := by
  refine .op trivial fun _ _ => .op trivial fun lst _ => ?_
  obtain ⟨hnames, hsub, -⟩ := Knowledge.learn_lstat d msg g
    (sharedPath d rel) lst
  have hunlink : handlerAllows d msg (g.learn d msg (.lstat (sharedPath d rel)) lst)
      (.unlink (sharedPath d rel)) :=
    ⟨confined_shared hrel, .inl (hsub hclear)⟩
  refine Follows.bind (Q := fun g' _ => g' = g.learn d msg (.lstat (sharedPath d rel)) lst) ?_ ?_
  · exact Follows.when (fun _ => .op hunlink fun _ _ => rfl) rfl
  · rintro _ _ rfl
    refine .op (allows_mkdir_shared_parent hrel) fun _ _ => ?_
    exact .op (confined_shared hrel) fun _ _ => hnames

theorem unlinkLink_follows {path : List UInt8} (hpath : Confined d (resolve path))
    (hnamed : path ∈ g.names) :
    Abides (handlerRule d msg) (unlinkLink path) g := by
  refine .op trivial fun lst _ => Abides.when fun hlink => ?_
  obtain ⟨-, -, hclear⟩ := Knowledge.learn_lstat d msg g path lst
  exact .op ⟨hpath, .inl (hclear hnamed hlink)⟩ fun _ _ => trivial

theorem syncRemoveRemoteSymlink_follows (hrel : Below rel) (hnamed : sharedPath d rel ∈ g.names) :
    Abides (handlerRule d msg) (syncRemoveRemoteSymlink d rel) g :=
  .op trivial fun _ _ => unlinkLink_follows (confined_shared hrel) hnamed

theorem watchIfOn_follows (hrel : Below rel) : Abides (handlerRule d msg) (watchIfOn d rel) g :=
  .op trivial fun _ _ => Abides.when fun _ => Abides.last (confined_shared hrel)

theorem unwatchIfOn_follows : Abides (handlerRule d msg) (unwatchIfOn rel) g :=
  .op trivial fun _ _ => Abides.when fun _ => Abides.last trivial

theorem syncExchangeCatalog_follows : Abides (handlerRule d msg) syncExchangeCatalog g :=
  (syncExchangeCatalog_ops ⟨fun _ => trivial, fun _ => trivial⟩ (fun _ => trivial)
    ⟨fun _ => trivial, fun _ => trivial⟩ fun _ _ _ => trivial).abides

theorem syncHandleListingEntry_follows (hrel : SafePath rel) :
    Abides (handlerRule d msg) (syncHandleListingEntry rel info) g := by
  refine .op trivial fun l hl => Abides.last ?_
  intro e he
  rcases List.mem_cons.mp he with rfl | he
  · exact hrel.2
  · exact hl e he

theorem linkListing_follows {listing : List CatalogEntry} (hann : msg.announces = true)
    (hsafe : SafeListing listing) (hnames : ∀ e ∈ listing, sharedPath d e.relPath ∈ g.names) :
    Abides (handlerRule d msg) (linkListing d listing) g := by
  induction listing generalizing g with
  | nil => trivial
  | cons e es ih =>
    refine .op trivial fun existing _ => ?_
    have hsame := Knowledge.learn_lookup_names d msg g e.relPath existing
    refine Follows.bind (Q := fun g' _ => g'.names = g.names) ?_ ?_
    · refine Follows.when (fun hremote => ?_) hsame
      refine (syncCreateRemoteSymlink_follows (hsafe e List.mem_cons_self)
        (Knowledge.learn_lookup_clear hann (hnames e List.mem_cons_self) ?_)).mono
        fun _ _ hg => hg.trans hsame
      -- remote or cached is not here
      obtain ⟨x, rfl, hx⟩ := Option.any_eq_true _ _ |>.mp hremote.1
      rcases of_decide_eq_true hx with hx | hx <;> simp [isHere, hx]
    · intro g' _ hg'
      refine ih (fun e he => hsafe e (List.mem_cons_of_mem _ he)) fun e he => ?_
      rw [hg']
      exact hnames e (List.mem_cons_of_mem _ he)

theorem syncHandleListingEnd_follows :
    Abides (handlerRule d .listingEnd) (syncHandleListingEnd d) g := by
  refine .op trivial fun l hl => ?_
  split
  · trivial
  · refine .op trivial fun _ _ => Follows.bind (linkListing_follows rfl hl ?_) ?_
    · intro e he
      exact List.mem_map_of_mem he
    · intro _ _ _
      exact Abides.last (by simp [handlerAllows, SafeListing])

theorem syncHandleFetchReq_follows (hrel : SafePath rel) :
    Abides (handlerRule d msg) (syncHandleFetchReq d rel) g :=
  (syncHandleFetchReq_ops ⟨fun _ => trivial, fun _ => trivial⟩ ⟨fun _ => trivial, fun _ => trivial⟩
    ⟨fun _ => confined_shared hrel.2, fun _ => confined_shared hrel.2⟩ (fun _ _ _ _ _ => trivial)
    (fun _ _ _ _ _ => trivial) fun _ _ _ => trivial).abides

section Fetch
variable {f : FetchState} {tmp : List UInt8}

theorem safeFetch_none (hf : f.tmpPath = none) : SafeFetch d f := by
  intro tmp htmp
  rw [hf] at htmp
  contradiction

theorem chmodIf_follows (hrel : Below rel) (mode : Nat) :
    Abides (handlerRule d msg)
      (.when (mode ≠ 0) (syncOp (.chmod (cachePath d rel) mode))) g :=
  Abides.when fun _ => Abides.last (confined_cache hrel)

theorem finishEmpty_follows (hf : SafeFetch d f) (htmp : f.tmpPath = some tmp) :
    Abides (handlerRule d msg) (finishEmpty d f tmp) g := by
  obtain ⟨htmp, hrel⟩ := hf tmp htmp
  refine .op (fun t ht => hf t ht) fun _ _ => ?_
  refine .op (allows_mkdir_cache_parent hrel) fun _ _ => ?_
  refine .op ⟨htmp, hrel.inside⟩ fun _ _ => ?_
  refine (chmodIf_follows hrel _).bind fun _ _ => ?_
  refine .op (safeFetch_none rfl) fun _ _ => .op trivial fun _ _ => ?_
  exact Abides.last (safeFetch_none rfl)

theorem startReceive_follows (hf : SafeFetch d f) (hrel : SafePath rel)
    (hsame : f.relPath = copyPath rel) :
    Abides (handlerRule d msg) (startReceive d f rel) g := by
  refine .op (fun t ht => hf t ht) fun _ _ => ?_
  refine .op (allows_mkdir_cache_parent hrel.1) fun _ _ => ?_
  refine .op (.inr rfl) fun tmp htmp => ?_
  cases tmp with
  | none => exact Abides.last (safeFetch_none rfl)
  | some tmp =>
    have hsafe : SafeFetch d {f with tmpFd := some tmp, tmpPath := some tmp} := by
      rintro t ⟨rfl⟩
      exact ⟨htmp _ rfl, hsame ▸ hrel.2⟩
    refine .op hsafe fun _ _ => ?_
    exact Abides.when fun _ => finishEmpty_follows hsafe rfl

theorem syncHandleFetchResp_follows {numChunks status : Nat}
    (hrel : SafePath rel) : Abides (handlerRule d msg)
      (syncHandleFetchResp d rel info numChunks status) g := by
  refine .op trivial fun _ _ => .op trivial fun f hf => ?_
  split
  · exact Abides.last trivial
  · split
    · refine .op (fun t ht => hf t ht) fun _ _ => ?_
      exact Abides.last trivial
    · refine Follows.bind (startReceive_follows ?_ hrel rfl) fun _ _ _ => ?_
      · intro t ht
        exact ⟨(hf t ht).1, hrel.2⟩
      · exact Abides.last trivial

theorem dropTmp_follows (htmp : IsTmp d tmp) : Abides (handlerRule d msg) (dropTmp f tmp) g := by
  refine .op ⟨htmp.confined, .inr (.inr htmp)⟩ fun _ _ => ?_
  exact Abides.last (safeFetch_none rfl)

theorem finishFetch_follows (hf : SafeFetch d f) (htmp : f.tmpPath = some tmp) :
    Abides (handlerRule d msg) (finishFetch d f tmp) g := by
  obtain ⟨htmp, hrel⟩ := hf tmp htmp
  refine .op (fun t ht => hf t ht) fun _ _ => ?_
  refine .op (allows_mkdir_cache_parent hrel) fun _ _ => ?_
  refine .op ⟨htmp, hrel.inside⟩ fun ok _ => ?_
  split
  · refine (chmodIf_follows hrel _).bind fun _ _ => ?_
    refine .op trivial fun _ _ => .op (safeFetch_none rfl) fun _ _ => ?_
    refine .op trivial fun _ _ => Abides.when fun _ => ?_
    exact Abides.last (safeFetch_none rfl)
  · exact dropTmp_follows htmp

theorem receiveChunk_follows {fd data : List UInt8} (hf : SafeFetch d f)
    (htmp : f.tmpPath = some tmp) :
    Abides (handlerRule d msg) (receiveChunk d f fd tmp data) g := by
  refine (writeSome_ops fun _ => trivial).abides.bind fun _ ok => ?_
  split
  · refine .op (fun t ht => hf t ht) fun _ _ => Abides.when fun _ => ?_
    exact finishFetch_follows (fun t ht => hf t ht) htmp
  · exact dropTmp_follows (hf tmp htmp).1

theorem syncHandleFileData_follows (data : List UInt8) :
    Abides (handlerRule d msg) (syncHandleFileData d data) g := by
  refine .op trivial fun _ _ => .op trivial fun f hf => ?_
  split
  · rename_i htmp
    refine (receiveChunk_follows hf htmp).bind fun _ _ => ?_
    exact Abides.last trivial
  · exact Abides.last trivial

theorem syncHandleFileMeta_follows {numChunks : Nat} (hrel : SafePath rel) :
    Abides (handlerRule d msg) (syncHandleFileMeta d rel info numChunks) g := by
  refine .op trivial fun _ _ => .op trivial fun f hf => ?_
  refine .op (fun t ht => ⟨(hf t ht).1, hrel.2⟩) fun _ _ => .op trivial fun _ _ => ?_
  refine .op (.inl rfl) fun tmp htmp => ?_
  refine .op (fun t ht => ⟨htmp t ht, hrel.2⟩) fun _ _ => ?_
  exact Abides.last trivial

end Fetch

theorem dropRemote_follows (hrel : Below rel) (hnamed : sharedPath d rel ∈ g.names) :
    Abides (handlerRule d msg)
      (do syncRemoveRemoteSymlink d rel; syncOp (.catalogRemove rel)) g :=
  (syncRemoveRemoteSymlink_follows hrel hnamed).bind fun _ _ => Abides.last trivial

theorem dropCached_follows (hrel : Below rel) (hnamed : sharedPath d rel ∈ g.names) :
    Abides (handlerRule d msg)
      (do
        let _ ← syncOp (.unlink (cachePath d rel))
        syncRemoveRemoteSymlink d rel
        syncOp (.catalogRemove rel)) g :=
  .op ⟨confined_cache hrel, .inr (.inl hrel.inside)⟩ fun _ _ =>
    dropRemote_follows hrel hnamed

theorem syncHandleFileDelete_follows (hrel : Below rel) (hnamed : sharedPath d rel ∈ g.names) :
    Abides (handlerRule d msg) (syncHandleFileDelete d rel) g := by
  refine .op trivial fun ce _ => ?_
  rw [← Knowledge.learn_lookup_names d msg _ rel ce] at hnamed
  split
  · trivial
  · split
    · exact dropRemote_follows hrel hnamed
    · exact Abides.last trivial
    · exact dropCached_follows hrel hnamed
    · trivial

theorem syncHandleDirCreate_follows {mtimeNs mode : Nat} (hrel : Below rel) :
    Abides (handlerRule d msg) (syncHandleDirCreate d rel mtimeNs mode) g := by
  refine .op trivial fun _ _ => .op (allows_mkdir_shared hrel) fun _ _ => ?_
  refine Abides.when fun _ => .op trivial fun _ _ => ?_
  exact watchIfOn_follows hrel

theorem syncHandleDirDelete_follows (hrel : Below rel) :
    Abides (handlerRule d msg) (syncHandleDirDelete d rel) g := by
  refine .op trivial fun _ _ => .op (confined_shared hrel) fun _ _ => ?_
  exact Abides.when fun _ => .op trivial fun _ _ => unwatchIfOn_follows

theorem sendRemoveAck_follows (status : Nat) :
    Abides (handlerRule d msg) (sendRemoveAck rel status) g :=
  .op trivial fun _ _ => .op trivial fun _ _ => Abides.last trivial

theorem syncHandleRemoveReq_follows (hrel : Below rel)
    (hstore : resolve d.localStore = resolve d.shared) :
    Follows (handlerRule d (.removeReq rel)) (fun _ _ => True) (syncHandleRemoveReq d rel) g := by
  refine .op trivial fun ce _ => ?_
  split
  · refine .op trivial fun _ _ => .op ⟨⟨rel, rfl⟩, .inl ?_, .inr ?_⟩ fun _ _ => ?_
    · rw [← hstore]
      exact hrel.inside_append_slash _
    · exact hrel.inside_append_slash _
    · exact sendRemoveAck_follows _
  · exact sendRemoveAck_follows 1

theorem syncHandleRemoveAck_follows {status : Nat} (hrel : Below rel)
    (hnamed : sharedPath d rel ∈ g.names) :
    Abides (handlerRule d msg) (syncHandleRemoveAck d rel status) g := by
  refine Abides.when fun _ => .op trivial fun ce _ => ?_
  rw [← Knowledge.learn_lookup_names d msg _ rel ce] at hnamed
  split
  · trivial
  · split
    · exact Abides.last trivial
    · exact dropRemote_follows hrel hnamed
    · trivial

theorem createRemoteDir_follows (hrel : Below rel) :
    Abides (handlerRule d msg) (createRemoteDir d rel) g :=
  .op trivial fun _ _ => .op (allows_mkdir_shared hrel) fun _ _ =>
    watchIfOn_follows hrel

theorem syncHandleFileChanged_follows (hrel : Below rel)
    (hnamed : sharedPath d rel ∈ g.names) : Follows (handlerRule d (.fileChanged rel info))
      (fun _ _ => True) (syncHandleFileChanged d rel info) g := by
  refine .op trivial fun ce _ => .op trivial fun _ _ => ?_
  refine Abides.when fun hremote => ?_
  have hhere : isHere ce = false := by
    rw [announced] at hremote
    split at hremote
    · contradiction
    · exact Bool.eq_false_iff.mpr ‹_›
  split
  · exact createRemoteDir_follows hrel
  · refine (syncCreateRemoteSymlink_follows hrel ?_).mono fun _ _ _ => trivial
    exact Knowledge.learn_lookup_clear rfl hnamed hhere

theorem removeRemoteDir_follows (hrel : Below rel) :
    Abides (handlerRule d msg) (removeRemoteDir d rel) g :=
  .op trivial fun _ _ => .op (confined_shared hrel) fun _ _ => unwatchIfOn_follows

theorem syncHandleFileRemoved_follows {isDir : Bool} (hrel : Below rel)
    (hnamed : sharedPath d rel ∈ g.names) :
    Abides (handlerRule d msg) (syncHandleFileRemoved d rel isDir) g := by
  refine .op trivial fun ce _ => ?_
  rw [← Knowledge.learn_lookup_names d msg _ rel ce] at hnamed
  split
  · trivial
  · split
    · refine Abides.bind ?_ fun _ _ => Abides.last trivial
      split
      · exact removeRemoteDir_follows hrel
      · exact syncRemoveRemoteSymlink_follows hrel hnamed
    · exact Abides.last trivial
    · exact dropCached_follows hrel hnamed
    · trivial

/-- Every handler keeps to the rule, if the path in the message leads below the shared folder and
the catalog's local store is the shared folder. -/
theorem syncDispatch_follows
    (hstore : ∀ rel, msg = .removeReq rel → resolve d.localStore = resolve d.shared)
    (hmsg : msg.Safe) (hnamed : ∀ rel ∈ msg.path, sharedPath d rel ∈ g.names) :
    Abides (handlerRule d msg) (syncDispatch d msg) g := by
  cases msg with
  | fileMeta rel info numChunks => exact syncHandleFileMeta_follows (hmsg rel rfl)
  | fileData _ data => exact syncHandleFileData_follows data
  | fileAck rel status =>
    exact Abides.when fun _ => Abides.last trivial
  | fileDelete rel => exact syncHandleFileDelete_follows (hmsg rel rfl).1 (hnamed rel rfl)
  | dirCreate rel mtimeNs mode => exact syncHandleDirCreate_follows (hmsg rel rfl).1
  | dirDelete rel => exact syncHandleDirDelete_follows (hmsg rel rfl).1
  | syncReq => exact syncExchangeCatalog_follows
  | listingEntry rel info => exact syncHandleListingEntry_follows (hmsg rel rfl)
  | listingEnd => exact syncHandleListingEnd_follows
  | fetchReq rel => exact syncHandleFetchReq_follows (hmsg rel rfl)
  | fetchResp rel info numChunks status => exact syncHandleFetchResp_follows (hmsg rel rfl)
  | removeReq rel => exact syncHandleRemoveReq_follows (hmsg rel rfl).1 (hstore rel rfl)
  | removeAck rel status => exact syncHandleRemoveAck_follows (hmsg rel rfl).1 (hnamed rel rfl)
  | fileChanged rel info => exact syncHandleFileChanged_follows (hmsg rel rfl).1 (hnamed rel rfl)
  | fileRemoved rel isDir => exact syncHandleFileRemoved_follows (hmsg rel rfl).1 (hnamed rel rfl)

end Handlers

section Others
variable (d : SyncDirs) (moves : List UInt8 → List UInt8 → Prop)

def otherAllows : SyncOp → Prop
  | .setFetch f => SafeFetch d f
  | .setListing _ _ | .rmdir _ | .mkstemp _ => False
  | .rename old new => moves old new
  | _ => True

def otherRule : Rule SyncOp SyncOp.Res Unit :=
  .ofLearn (fun _ => otherAllows d moves) (SafeResult d) (fun g _ _ => g)

variable {d moves} {rel : List UInt8}

theorem abides_other {α : Type} {p : Sync α} (hp : AllOps (otherAllows d moves) p) :
    Abides (otherRule d moves) p () :=
  (hp.mono fun _ hop _ => hop).abides

theorem fetchRequest_follows : Abides (otherRule d moves) (fetchRequest rel) () := by
  rw [fetchRequest]
  split
  · trivial
  · refine .op trivial fun ce _ => ?_
    split
    · trivial
    · refine .op trivial fun _ _ => .op trivial fun f hf => ?_
      refine .op (fun t ht => hf t ht) fun _ _ => .op trivial fun _ _ => ?_
      refine .op trivial fun _ _ => .op trivial fun _ _ => ?_
      refine .op trivial fun ok _ => ?_
      split
      · trivial
      · refine .op trivial fun _ _ => .op trivial fun f hf => ?_
        refine .op (fun t ht => hf t ht) fun _ _ => ?_
        exact .op trivial fun _ _ => trivial

theorem moveToShared_follows (hmoves : moves (cachePath d rel) (sharedPath d rel)) :
    Abides (otherRule d moves) (moveToShared d rel) () := by
  refine .op trivial fun _ _ => (abides_other (unlinkLink_ops trivial trivial)).bind fun _ _ => ?_
  refine .op trivial fun _ _ => .op hmoves fun _ _ => ?_
  exact Abides.when fun _ => Abides.last trivial

theorem fetchFile_follows (hmoves : moves (cachePath d rel) (sharedPath d rel)) :
    Abides (otherRule d moves) (fetchFile d rel) () := by
  refine fetchRequest_follows.bind fun _ r => ?_
  cases r with
  | some result => trivial
  | none =>
    refine .op trivial fun _ _ => .op trivial fun f _ => ?_
    refine .op trivial fun _ _ => Abides.bind ?_ fun _ _ => trivial
    exact Abides.when fun _ => moveToShared_follows hmoves

theorem scanFolder_follows (fuel : Nat) (path rel : List UInt8) :
    Abides (otherRule d moves) (scanFolder fuel path rel) () :=
  abides_other (scanFolder_ops (fun _ => trivial) (fun _ => ⟨trivial, trivial⟩) fun _ _ _ => trivial)

theorem syncExchangeCatalog_follows_other : Abides (otherRule d moves) syncExchangeCatalog () :=
  abides_other (syncExchangeCatalog_ops ⟨trivial, trivial⟩ trivial ⟨trivial, trivial⟩
    fun _ _ => trivial)

theorem inotifySendFileChanged_other (isDir : Bool) :
    AllOps (otherAllows d moves) (inotifySendFileChanged d rel isDir) :=
  .op trivial fun _ => .bind (sha256Of_ops trivial) fun _ => .op trivial fun _ => .op trivial fun _ =>
    .op trivial fun _ => .lastOp trivial

theorem inotifySendFileRemoved_other (isDir : Bool) :
    AllOps (otherAllows d moves) (inotifySendFileRemoved rel isDir) := by
  refine .op trivial fun ce => .bind ?_ fun _ => .op trivial fun _ => .op trivial fun _ =>
    .lastOp trivial
  cases ce with
  | none => trivial
  | some e =>
    rw [forgetLocal]
    split <;> exact .lastOp trivial

theorem inotifyEvent_follows (kind : InotifyKind) :
    Abides (otherRule d moves) (inotifyEvent d rel kind) () := by
  refine abides_other (.op trivial fun _ => .when (.op trivial fun _ => .when ?_))
  cases kind with
  | closeWrite => exact inotifySendFileChanged_other false
  | createDir => exact .bind (inotifySendFileChanged_other true) fun _ => .lastOp trivial
  | createFile => trivial
  | delete isDir | movedFrom isDir =>
    exact .bind (inotifySendFileRemoved_other isDir) fun _ => .when (.lastOp trivial)
  | movedTo isDir =>
    exact .bind (inotifySendFileChanged_other isDir) fun _ => .when (.lastOp trivial)

end Others

end OdinLink
