import OdinLink.Daemon.CatalogExchange
import OdinLink.Daemon.LocalFiles

/-!
# A file that is pushed to the peer

`transfer_file` sends a file that nobody asked for. The sender marks it as being on both sides when
it has come to the end of its loop; the receiver moves it to the cache.
-/

namespace OdinLink

open Paths FileTree Scripts

section Transfer
variable (d : SyncDirs)

def sha256Checked (path : List UInt8) (f : FileData) : Sync (Option (List UInt8)) :=
  if 0 < f.bytes.length then do
    let opened : Bool ← syncOp (.openRead path)
    if opened then
      let sha ← syncOp (.sha256File path)
      pure (some sha)
    else pure none
  else pure (some (List.replicate 32 0))

def pushChunks (rel : List UInt8) (f : FileData) : Sync Int := do
  serveChunks (sharedPath d rel) f.bytes.length (numChunksOf f.bytes.length) 0 0
  syncOp .unlockTx
  syncOp (.catalogMarkBoth rel)
  pure 0

def pushFile (rel : List UInt8) (f : FileData) : Sync Int := do
  let sha ← sha256Checked (sharedPath d rel) f
  match sha with
  | none => pure errIo
  | some sha =>
    let opened : Bool ← syncOp (.openRead (sharedPath d rel))
    if opened then
      syncOp .lockTx
      let ok : Bool ← syncOp (.send (.fileMeta (copyPath rel)
        ⟨f.bytes.length, f.mtimeNs, f.mode, false, sha⟩ (numChunksOf f.bytes.length)))
      if ok then pushChunks d rel f
      else
        syncOp .unlockTx
        pure errIo
    else pure errIo

/-- `odl_daemon_sync_transfer_file`; `stale` is what `-errno` is after a call that succeeded. -/
def transferFile (stale : Int) (rel : List UInt8) : Sync Int := do
  if rel = [] then pure errInval
  else
    let ce ← syncOp (.catalogLookup rel)
    if isHere ce then
      let st ← syncOp (.stat (sharedPath d rel))
      match st with
      | none => pure errNoEnt
      | some (.file f) => pushFile d rel f
      | some _ => pure stale
    else pure errNoEnt

end Transfer

/-! The receiver. -/

def isBoth (ce : Option CatalogEntry) : Bool := ce.any fun e => decide (e.location = .both)

theorem isBoth_markCached {c : Catalog} {rel p : List UInt8} :
    isBoth ((c.markCached rel).lookup p) = isBoth (c.lookup p) := by
  rw [Catalog.markCached]
  split
  · rename_i e he
    split
    · rename_i hremote
      by_cases hp : p = rel
      · subst hp
        rw [AList.lookup_insert, he]
        simp [isBoth, hremote]
      · rw [AList.lookup_insert_ne hp]
    · rfl
  · rfl

structure FetchSpares (d : SyncDirs) (q : List Name) (f : FetchState) : Prop where
  fd : ∀ path, f.tmpFd = some path → resolve path ≠ q
  path : ∀ path, f.tmpPath = some path → resolve path ≠ q
  target : f.tmpPath ≠ none → resolve (cachePath d f.relPath) ≠ q

section Receiver
variable (d : SyncDirs) (q : List Name)

def pushAllows (_ : Unit) : SyncOp → Prop
  | .setFetch f => FetchSpares d q f
  | .catalogMarkCached _ => True
  | op => op.spares q ∧ op.changesKnown = false

def pushSafe : (op : SyncOp) → op.Res → Prop
  | .getFetch, f => FetchSpares d q f
  | .mkstemp _, tmp => ∀ path, tmp = some path → resolve path ≠ q
  | _, _ => True

def pushRule : Rule SyncOp SyncOp.Res Unit := .ofLearn (pushAllows d q) (pushSafe d q) fun _ _ _ => ()

variable {d q} {f : FetchState} {tmp : List UInt8}

theorem dropTmp_push (htmp : resolve tmp ≠ q) :
    Abides (pushRule d q) (dropTmp f tmp) () := by
  refine .op ⟨htmp, rfl⟩ fun _ _ => Abides.last ?_
  exact ⟨by simp, by simp, by simp⟩

theorem finishFetch_push (hf : FetchSpares d q f) (htmp : f.tmpPath = some tmp) :
    Abides (pushRule d q) (finishFetch d f tmp) () := by
  have htarget := hf.target (by simp [htmp])
  have hnone : FetchSpares d q {f with tmpFd := none, tmpPath := none} :=
    ⟨by simp, by simp, by simp⟩
  refine .op ⟨by simp, hf.path, hf.target⟩ fun _ _ => .op ⟨trivial, rfl⟩ fun _ _ => ?_
  refine .op ⟨⟨hf.path tmp htmp, htarget⟩, rfl⟩ fun ok _ => ?_
  split
  · refine Abides.bind (Abides.when fun _ => Abides.last ⟨trivial, rfl⟩) fun _ _ => ?_
    refine .op ⟨trivial, rfl⟩ fun _ _ => .op hnone fun _ _ =>
      .op trivial fun _ _ => Abides.when fun _ => Abides.last ?_
    exact ⟨by simp, by simp, by simp⟩
  · exact dropTmp_push (hf.path tmp htmp)

theorem syncHandleFileData_push {data : List UInt8} :
    Abides (pushRule d q) (syncHandleFileData d data) () := by
  refine .op ⟨trivial, rfl⟩ fun _ _ => .op ⟨trivial, rfl⟩ fun f hf => ?_
  have hf : FetchSpares d q f := hf
  split
  · rename_i fd tmp hfd htmp
    refine Abides.bind ?_ fun _ _ => Abides.last ⟨trivial, rfl⟩
    refine Abides.bind ?_ fun _ ok => ?_
    · rw [writeSome]
      split
      · exact Abides.last ⟨hf.fd fd hfd, rfl⟩
      · trivial
    · split
      · refine .op ⟨hf.fd, hf.path, hf.target⟩ fun _ _ => Abides.when fun _ => ?_
        exact finishFetch_push ⟨hf.fd, hf.path, hf.target⟩ htmp
      · exact dropTmp_push (hf.path tmp htmp)
  · exact Abides.last ⟨trivial, rfl⟩

theorem syncHandleFileMeta_push {rel : List UInt8} {info : FileInfo} {n : Nat}
    (htmp : ∀ name, slash ∉ name → resolve (d.shared ++ slash :: (syncTmpPrefix ++ name)) ≠ q)
    (htarget : resolve (cachePath d (copyPath rel)) ≠ q) :
    Abides (pushRule d q) (syncHandleFileMeta d rel info n) () := by
  refine .op ⟨trivial, rfl⟩ fun _ _ => .op ⟨trivial, rfl⟩ fun f hf => ?_
  have hf : FetchSpares d q f := hf
  refine .op ⟨hf.fd, hf.path, fun _ => htarget⟩ fun _ _ => .op ⟨trivial, rfl⟩ fun _ _ => ?_
  refine .op ⟨htmp, rfl⟩ fun tmp hsafe => ?_
  refine .op ⟨hsafe, hsafe, fun _ => htarget⟩ fun _ _ => ?_
  exact Abides.last ⟨trivial, rfl⟩

end Receiver

structure Spared (d : SyncDirs) (q : List Name) (b : SyncMem) (p bytes : List UInt8)
    (m : SyncMem) : Prop where
  fetch : FetchSpares d q m.fetch
  file : FileAt m.files q bytes ↔ FileAt b.files q bytes
  both : isBoth (m.catalog.lookup p) = isBoth (b.catalog.lookup p)

section Delivered
variable {d : SyncDirs} {q : List Name} {sha256 : List UInt8 → List UInt8} {b m m' : SyncMem}
  {p bytes : List UInt8}

theorem Spared.exec {op : SyncOp} {x : SyncEnv} {r : op.Res} {es : List SyncEvent}
    (hm : Spared d q b p bytes m) (hallows : pushAllows d q () op)
    (hexec : OdinLink.exec sha256 m op x = some (m', r, es)) :
    pushSafe d q op r ∧ Spared d q b p bytes m' := by
  have hplain (hspares : op.spares q) (hknown : op.changesKnown = false)
      (hfetch : ∀ f, op ≠ .setFetch f) : Spared d q b p bytes m' := by
    refine ⟨?_, (exec_spares hspares hexec).trans hm.file, ?_⟩
    · rw [(exec_keeps hexec).fetch.resolve_right fun h => hfetch _ h]
      exact hm.fetch
    · have hcatalog : m'.catalog = m.catalog := congrArg Prod.fst ((exec_keeps hexec).known hknown)
      rw [hcatalog]
      exact hm.both
  cases op with
  | setFetch f =>
    cases hexec
    exact ⟨trivial, hallows, hm.file, hm.both⟩
  | catalogMarkCached rel =>
    cases hexec
    exact ⟨trivial, hm.fetch, hm.file, isBoth_markCached.trans hm.both⟩
  | getFetch =>
    cases hexec
    exact ⟨hm.fetch, hm⟩
  | mkstemp dir =>
    refine ⟨?_, hplain hallows.1 hallows.2 (by simp)⟩
    rw [OdinLink.exec] at hexec
    split at hexec <;> cases hexec
    rintro path hpath
    cases (Option.ite_none_right_eq_some.mp hpath).2
    exact hallows.1 x.name ‹_›
  | _ => exact ⟨trivial, hplain hallows.1 hallows.2 (by simp)⟩

theorem Spared.runs {script : Sync Unit} (hm : Spared d q b p bytes m)
    (hscript : Abides (pushRule d q) script ()) (hruns : Runs sha256 script m m') :
    Spared d q b p bytes m' := by
  obtain ⟨xs, es, hfin⟩ := hruns
  obtain ⟨-, -, hm'⟩ := Follows.finish (fun _ => Spared d q b p bytes) hscript
    (fun _ _ _ _ _ _ _ hm hallows hexec => hm.exec hallows hexec) hm hfin
  exact hm'

def isPush (p : List UInt8) (msgs : List SyncMsg) : Prop :=
  ∃ info n chunks, msgs = .fileMeta (copyPath p) info n :: chunks ∧
    ∀ msg ∈ chunks, ∃ i data, msg = .fileData i data

theorem Spared.chunks {chunks : List SyncMsg} (hm : Spared d q b p bytes m)
    (hchunks : ∀ msg ∈ chunks, ∃ i data, msg = .fileData i data)
    (hall : Handled d sha256 chunks m m') : Spared d q b p bytes m' := by
  induction hall with
  | nil m => exact hm
  | cons hruns hrest ih =>
    obtain ⟨i, data, rfl⟩ := hchunks _ List.mem_cons_self
    exact ih (hm.runs syncHandleFileData_push hruns) fun msg hmsg =>
      hchunks msg (List.mem_cons_of_mem _ hmsg)

end Delivered

section Sender
variable {d : SyncDirs} {sha256 : List UInt8 → List UInt8} {m : SyncMem} {p : List UInt8}

theorem readSome_gives {path : List UInt8} {off n : Nat} :
    Gives sha256 (fun m' _ => m' = m) (readSome path off n) m := by
  rw [readSome]
  split
  · refine gives_lastOp fun _ _ _ _ hexec => ?_
    cases hexec
    rfl
  · exact rfl

theorem serveChunks_gives {path : List UInt8} {fileSize n i bytesSent : Nat} :
    Gives sha256 (fun m' _ => ∃ l, m' = m.sending l ∧ ∀ msg ∈ l, ∃ i data, msg = .fileData i data)
      (serveChunks path fileSize n i bytesSent) m := by
  have hnil (m : SyncMem) : ∃ l, m = m.sending l ∧ ∀ msg ∈ l, ∃ i data, msg = .fileData i data :=
    ⟨[], m.sending_nil.symm, by simp⟩
  induction n generalizing m i bytesSent with
  | zero => exact hnil m
  | succ n ih =>
    refine Ensures.bind readSome_gives ?_
    rintro _ data rfl
    cases data with
    | none => exact hnil _
    | some data =>
      refine gives_send (Ensures.when (fun _ => ih.mono ?_) fun hno => absurd rfl hno) (hnil _)
      rintro _ _ ⟨l, rfl, hl⟩
      refine ⟨.fileData i data :: l, SyncMem.sending_sending _ _ _, fun msg hmsg => ?_⟩
      rcases List.mem_cons.mp hmsg with rfl | hmsg
      · exact ⟨i, data, rfl⟩
      · exact hl msg hmsg

theorem sha256Checked_gives {path : List UInt8} {f : FileData} :
    Gives sha256 (fun m' _ => m' = m) (sha256Checked path f) m := by
  rw [sha256Checked]
  split
  · refine gives_op fun _ _ opened _ hexec => ?_
    cases hexec
    split
    · refine gives_op fun _ _ _ _ hexec => ?_
      cases hexec
      exact rfl
    · exact rfl
  · exact rfl

theorem isBoth_markBoth {c : Catalog} {e : CatalogEntry} (he : c.lookup p = some e) :
    isBoth ((c.markBoth p).lookup p) = true := by
  simp [Catalog.markBoth, he, isBoth]

theorem pushChunks_gives {f : FileData} {e : CatalogEntry} (he : m.catalog.lookup p = some e) :
    Gives sha256 (fun m' _ => isBoth (m'.catalog.lookup p) = true ∧
      ∃ l, m'.sent = m.sent ++ l ∧ ∀ msg ∈ l, ∃ i data, msg = .fileData i data)
      (pushChunks d p f) m := by
  refine Ensures.bind serveChunks_gives ?_
  rintro _ _ ⟨l, rfl, hl⟩
  refine gives_op fun _ _ _ _ hunlock => ?_
  cases hunlock
  refine gives_op fun _ _ _ _ hmark => ?_
  cases hmark
  exact ⟨isBoth_markBoth he, l, rfl, hl⟩

theorem transferFile_gives {stale : Int} {f : FileData}
    (hfile : m.nodeAt (sharedPath d p) = some (.file f)) :
    Gives sha256 (fun m' r => r = 0 → isBoth (m'.catalog.lookup p) = true ∧
      ∃ msgs, m'.sent = m.sent ++ msgs ∧ isPush p msgs) (transferFile d stale p) m := by
  rw [transferFile]
  split
  · exact fun h => absurd h (by decide)
  refine gives_op fun _ _ ce _ hlookup => ?_
  cases hlookup
  split
  · rename_i hhere
    obtain ⟨e, he, -⟩ := (Option.any_eq_true _ _).mp hhere
    refine gives_op fun _ _ st _ hstat => ?_
    cases hstat
    rw [SyncMem.followed, hfile]
    refine Ensures.bind sha256Checked_gives ?_
    rintro _ sha rfl
    cases sha with
    | none => exact fun h => absurd h (by decide)
    | some sha =>
      refine gives_op fun _ _ opened _ hopen => ?_
      cases hopen
      split
      · refine gives_op fun _ _ _ _ hlock => ?_
        rw [exec] at hlock
        split at hlock <;> cases hlock
        refine gives_send ?_ ?_
        · rw [if_pos rfl]
          refine Ensures.mono (pushChunks_gives (e := e) (by exact he)) ?_
          rintro m' r ⟨hboth, l, hl, hchunks⟩ -
          exact ⟨hboth, _ :: l, hl.trans (List.append_assoc _ _ _), _, _, l, rfl, hchunks⟩
        · refine gives_op fun _ _ _ _ _ => fun h => absurd h (by decide)
      · exact fun h => absurd h (by decide)
  · exact fun h => absurd h (by decide)

end Sender

structure PushAgrees (d : SyncDirs) (p bytes : List UInt8) (a b : SyncMem) : Prop where
  arrived : FileAt b.files (resolve (sharedPath d p)) bytes
  bothThere : isBoth (b.catalog.lookup p) = true
  bothHere : isBoth (a.catalog.lookup p) = true
  held : isBoth (a.catalog.lookup p) = true → FileAt b.files (resolve (sharedPath d p)) bytes ∨
    FileAt b.files (resolve (cachePath d p)) bytes

section Push
variable {dA dB : SyncDirs} {sha256 : List UInt8 → List UInt8} {a a' b b' : SyncMem}
  {p : List UInt8} {stale : Int} {f : FileData} {xs : List SyncEnv} {es : List SyncEvent}
  {msgs : List SyncMsg}

variable (hapart : FoldersApart dB) (hp : SafePath p)
  (hname : reserved (resolve (sharedPath dB p)) = false)
  (hidle : b.fetch.tmpFd = none ∧ b.fetch.tmpPath = none)
  (hfile : a.nodeAt (sharedPath dA p) = some (.file f))
  (hpush : finish (exec sha256) (transferFile dA stale p) a xs = some (a', 0, es))
  (hsent : a'.sent = a.sent ++ msgs) (hall : Handled dB sha256 msgs b b')

include hapart hp hname hidle hfile hpush hsent hall

theorem push_spares_peer : isBoth (a'.catalog.lookup p) = true ∧
    Spared dB (resolve (sharedPath dB p)) b p f.bytes b' := by
  obtain ⟨hboth, msgs', hmsgs', hchunks⟩ :=
    (transferFile_gives hfile).finish (.of_forall fun _ _ _ _ => trivial) hpush rfl
  rw [hsent, List.append_cancel_left_eq] at hmsgs'
  subst hmsgs'
  obtain ⟨info, n, chunks, rfl, hchunks⟩ := hchunks
  have htarget : resolve (cachePath dB (copyPath (copyPath p))) ≠ resolve (sharedPath dB p) := by
    intro heq
    have hcopy : copyPath (copyPath p) = copyPath p := by simp [copyPath, List.take_take]
    have hcache : Inside (resolve dB.cache) (resolve (cachePath dB (copyPath p))) := hp.2.inside
    rw [hcopy] at heq
    rw [heq] at hcache
    exact hp.1.inside.disjoint hcache hapart.1 hapart.2
  have htmp (name : List UInt8) (hslash : slash ∉ name) :
      resolve (dB.shared ++ slash :: (syncTmpPrefix ++ name)) ≠ resolve (sharedPath dB p) := by
    intro heq
    have htmp : IsTmp dB (dB.shared ++ slash :: (syncTmpPrefix ++ name)) :=
      ⟨dB.shared, name, .inl rfl, hslash, rfl⟩
    rw [← heq, htmp.reserved] at hname
    contradiction
  have hspared : Spared dB (resolve (sharedPath dB p)) b p f.bytes b :=
    ⟨⟨by simp [hidle.1], by simp [hidle.2], fun h => absurd hidle.2 h⟩, Iff.rfl, rfl⟩
  cases hall with
  | cons hruns hrest =>
    exact ⟨hboth, (hspared.runs (syncHandleFileMeta_push htmp htarget) hruns).chunks hchunks hrest⟩

/-- A push that returned 0 and was delivered in full has left the file at the peer, with both
catalogs in agreement, if and only if the file was there before and the peer's catalog said so. -/
theorem push_agrees_iff : PushAgrees dB p f.bytes a' b' ↔
    FileAt b.files (resolve (sharedPath dB p)) f.bytes ∧ isBoth (b.catalog.lookup p) = true := by
  obtain ⟨hboth, hend⟩ := push_spares_peer hapart hp hname hidle hfile hpush hsent hall
  rw [← hend.file, ← hend.both]
  exact ⟨fun h => ⟨h.arrived, h.bothThere⟩, fun h => ⟨h.1, h.2, hboth, fun _ => .inl h.1⟩⟩

end Push

def withFile (location : FileLocation) : SyncMem :=
  {plainMem with
    files := plainFiles.insert [[115], [97]] (.file ⟨[1], 0o644, 0, true⟩)
    catalog := Catalog.set ∅ [97] ⟨[97], ⟨1, 0, 0o644, false, [1]⟩, location⟩}

theorem withFile_pushed : ∃ a' es, finish (exec id) (transferFile plainDirs 0 [97])
    (withFile .localOnly) (List.replicate 12 fineEnv) = some (a', 0, es) := by
  have hres : (finish (exec id) (transferFile plainDirs 0 [97]) (withFile .localOnly)
      (List.replicate 12 fineEnv)).map (fun r => r.2.1) = some 0 := by
    decide +kernel
  obtain ⟨⟨a', r, es⟩, hfin, rfl⟩ := Option.map_eq_some_iff.mp hres
  exact ⟨a', es, hfin⟩

theorem push_agrees_known : ∃ a' b' es, finish (exec id) (transferFile plainDirs 0 [97])
    (withFile .localOnly) (List.replicate 12 fineEnv) = some (a', 0, es) ∧
      Handled plainDirs id a'.sent (withFile .both) b' ∧ PushAgrees plainDirs [97] [1] a' b' := by
  obtain ⟨a', es, hpush⟩ := withFile_pushed
  have hfree : (withFile .both).Free := ⟨rfl, rfl⟩
  obtain ⟨b', hall⟩ := hfree.exists_handled id plainDirs a'.sent
  refine ⟨a', b', es, hpush, hall, ?_⟩
  exact (push_agrees_iff plainDirs_apart (by decide) (by decide) ⟨rfl, rfl⟩ rfl hpush rfl hall).mpr
    ⟨⟨_, rfl, rfl⟩, rfl⟩

theorem push_does_not_arrive : ∃ a' b' es, finish (exec id) (transferFile plainDirs 0 [97])
    (withFile .localOnly) (List.replicate 12 fineEnv) = some (a', 0, es) ∧
      Handled plainDirs id a'.sent plainMem b' ∧ isBoth (a'.catalog.lookup [97]) = true ∧
      ¬ FileAt b'.files (resolve (sharedPath plainDirs [97])) [1] ∧
      isBoth (b'.catalog.lookup [97]) = false := by
  obtain ⟨a', es, hpush⟩ := withFile_pushed
  have hfree : plainMem.Free := ⟨rfl, rfl⟩
  obtain ⟨b', hall⟩ := hfree.exists_handled id plainDirs a'.sent
  obtain ⟨hboth, hend⟩ :=
    push_spares_peer plainDirs_apart (by decide) (by decide) ⟨rfl, rfl⟩ rfl hpush rfl hall
  refine ⟨a', b', es, hpush, hall, hboth, ?_, hend.both⟩
  rw [hend.file]
  rintro ⟨f, hf, -⟩
  contradiction

end OdinLink
