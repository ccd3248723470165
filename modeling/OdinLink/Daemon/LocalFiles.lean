import OdinLink.Daemon.Confinement

/-!
# The files of the user

An announcement of a file that the catalog does not know to be here makes a link, and the link takes
the place of whatever is there. The catalog lags behind the files until the scan or an inotify event
has been handled, and in that time a file of the user is unlinked.
-/

namespace OdinLink

open Paths FileTree Scripts Threads History

section Conditions
variable (d : SyncDirs)

def namedPaths (m : SyncMem) : List (List UInt8) :=
  match m.handling with
  | none => []
  | some msg =>
    if msg = .listingEnd then m.listing.map (sharedPath d ·.relPath)
    else msg.path.toList.map (sharedPath d)

def reserved (q : List Name) : Bool := q.getLast?.any (syncTmpPrefix.isPrefixOf ·)

def SyncThread.looksUp (p : SyncThread) : Option (List UInt8) :=
  match p.role, p.script with
  | .receiver, .call (.catalogLookup rel) _ => some rel
  | _, _ => none

def recorded (m : SyncMem) (rel : List UInt8) : Bool :=
  !m.userFile (resolve (sharedPath d rel)) || isHere (m.catalog.lookup rel)

def SyncMsg.removes : SyncMsg → Bool
  | .removeReq _ => true
  | _ => false

/-- No removal is requested, every path leads below the shared folder, an announcement finds the
catalog up to date, and the user puts files only in the shared folder, under names of their own and
not at a path that the message at hand is about. -/
def carefulMove (s : Sys SyncMem SyncThread) : Move SyncStart SyncEnv → Bool
  | .start (.receive msg) => decide msg.Safe && !msg.removes
  | .start (.fetch rel) => decide (Below rel)
  | .start (.userPut path _) => decide (Inside (resolve d.shared) path) && !reserved path &&
      !((namedPaths d s.mem).map resolve).contains path
  | .run i _ => !s.mem.handling.any SyncMsg.announces ||
      (s.pcs[i]?.bind SyncThread.looksUp).all (recorded d s.mem)
  | _ => true

def UserFiles (t : Files) : Prop :=
  ∀ q, isMine t q → Inside (resolve d.shared) q ∧ reserved q = false

def FoldersApart : Prop :=
  ¬ resolve d.shared <+: resolve d.cache ∧ ¬ resolve d.cache <+: resolve d.shared

structure Knows (m : SyncMem) (g : Knowledge) : Prop where
  names : g.names ⊆ namedPaths d m
  clear : ∀ path ∈ g.clear, path ∈ namedPaths d m ∧ ¬ isMine m.files (resolve path)

end Conditions

section Ops
variable {d : SyncDirs} {msg : SyncMsg} {g : Knowledge} {m m' : SyncMem}
  {sha256 : List UInt8 → List UInt8} {op : SyncOp} {x : SyncEnv} {r : op.Res}
  {es : List SyncEvent} {q : List Name}

theorem IsTmp.reserved {path : List UInt8} (htmp : IsTmp d path) :
    reserved (resolve path) = true := by
  obtain ⟨dir, name, -, heq⟩ := htmp.resolve_eq
  rw [OdinLink.reserved, heq, List.getLast?_append_of_ne_nil _ (by simp)]
  simp

theorem UserFiles.not_tmp {t : Files} (hu : UserFiles d t) {path : List UInt8}
    (htmp : IsTmp d path) : ¬ isMine t (resolve path) := by
  intro hmine
  have hfree := (hu _ hmine).2
  rw [htmp.reserved] at hfree
  contradiction

theorem UserFiles.not_cache {t : Files} (hu : UserFiles d t) (hapart : FoldersApart d)
    (hq : Inside (resolve d.cache) q) : ¬ isMine t q := by
  intro hmine
  exact (hu q hmine).1.disjoint hq hapart.1 hapart.2

theorem drops_not_mine (hallows : handlerAllows d msg g op) (hmsg : msg.removes = false)
    (hu : UserFiles d m.files) (hapart : FoldersApart d) (hknows : Knows d m g)
    (hdrops : op.drops q) : ¬ isMine m.files q := by
  cases op with
  | unlink path =>
    obtain rfl : q = resolve path := hdrops
    rcases hallows.2 with hclear | hcache | htmp
    · exact (hknows.clear path hclear).2
    · exact hu.not_cache hapart hcache
    · exact hu.not_tmp htmp
  | rename old new =>
    rcases hdrops with rfl | rfl
    · exact hu.not_tmp hallows.1
    · exact hu.not_cache hapart hallows.2
  | catalogRemoveLocalCopy =>
    obtain ⟨⟨rel, rfl⟩, -⟩ := hallows
    contradiction
  | _ => exact hdrops.elim

section Exec
variable (hexec : exec sha256 m op x = some (m', r, es))
include hexec

theorem isMine_of_exec
    (hmove : ∀ old new, op = .rename old new → ¬ isMine m.files (resolve old))
    (hq : isMine m'.files q) : isMine m.files q := by
  rcases (exec_edited hexec).isMine_of_isMine hq with hmine | ⟨old, new, hop, -, hmine⟩
  · exact hmine
  · exact absurd hmine (hmove old new hop)

theorem namedPaths_of_exec (hop : ∀ listing b, op ≠ .setListing listing b) :
    namedPaths d m' = namedPaths d m := by
  obtain ⟨-, hlisting, hhandling, -, -⟩ := exec_keeps hexec
  rcases hlisting with heq | ⟨b, heq⟩
  · rw [namedPaths, namedPaths, hhandling, heq]
  · exact absurd heq (hop _ b)

end Exec

theorem Knows.mono (hknows : Knows d m g) (hnamed : namedPaths d m' = namedPaths d m)
    (hmine : ∀ path ∈ namedPaths d m, isMine m'.files (resolve path) → isMine m.files (resolve path)) :
    Knows d m' g := by
  refine ⟨hnamed ▸ hknows.names, fun path hpath => ?_⟩
  obtain ⟨hin, hnot⟩ := hknows.clear path hpath
  exact ⟨hnamed ▸ hin, fun h => hnot (hmine path hin h)⟩

theorem Knows.add (hknows : Knows d m g) {path : List UInt8} (hpath : path ∈ g.names)
    (hnot : ¬ isMine m.files (resolve path)) : Knows d m {g with clear := path :: g.clear} := by
  refine ⟨hknows.names, fun p hp => ?_⟩
  rcases List.mem_cons.mp hp with rfl | hp
  · exact ⟨hknows.names hpath, hnot⟩
  · exact hknows.clear p hp

theorem Knows.learn (hknows : Knows d m g) (hhandling : m.handling = some msg)
    (hmove : ∀ old new, op = .rename old new → ¬ isMine m.files (resolve old))
    (hrec : ∀ rel, op = .catalogLookup rel → msg.announces = true → recorded d m rel = true)
    (hexec : exec sha256 m op x = some (m', r, es)) : Knows d m' (g.learn d msg op r) := by
  have hmine (q : List Name) : isMine m'.files q → isMine m.files q := isMine_of_exec hexec hmove
  cases op with
  | setListing listing b => exact ⟨List.nil_subset _, by simp [Knowledge.learn]⟩
  | getListing =>
    cases hexec
    simp only [Knowledge.learn]
    split
    · rename_i hmsg
      refine ⟨?_, hknows.clear⟩
      simp only [namedPaths, hhandling, if_pos hmsg]
      exact List.Subset.refl _
    · exact hknows
  | catalogLookup rel =>
    cases hexec
    simp only [Knowledge.learn]
    split
    · rename_i hlearn
      obtain ⟨hann, hnamed, hhere⟩ := hlearn
      refine hknows.add hnamed fun huser => ?_
      have hrel := hrec rel rfl hann
      rw [recorded, hhere, userFile_iff.mpr huser] at hrel
      contradiction
    · exact hknows
  | lstat path =>
    cases hexec
    simp only [Knowledge.learn]
    split
    · rename_i hlearn
      refine hknows.add hlearn.1 ?_
      rintro ⟨f, hf, -⟩
      rw [SyncMem.nodeAt, hf] at hlearn
      exact absurd hlearn.2 (by simp [isLink])
    · exact hknows
  | _ => exact hknows.mono (namedPaths_of_exec hexec (by simp)) fun path _ => hmine (resolve path)

end Ops

def SyncThread.Careful (d : SyncDirs) (m : SyncMem) (p : SyncThread) : Prop :=
  if p.role = .receiver then ∃ msg g, m.handling = some msg ∧ msg.removes = false ∧ Knows d m g ∧
    Follows (handlerRule d msg) (fun _ _ => True) p.script g
  else Follows (otherRule d fun old _ => Inside (resolve d.cache) (resolve old))
    (fun _ _ => True) p.script ()

structure KeepsFiles (d : SyncDirs) (m : SyncMem) (h : List SyncLog) : Prop where
  saved : SavedSafe d m
  user : UserFiles d m.files
  kept : ∀ e ∈ h, e.role = .receiver → ∀ q, e.event ≠ .lost q

section Steps
variable {d : SyncDirs} {sha256 : List UInt8 → List UInt8} {m m' : SyncMem} {h : List SyncLog}
variable {p : SyncThread}

theorem SyncThread.Careful.other (hp : p.Careful d m) (hrole : p.role ≠ .receiver) :
    p.Careful d m' := by
  rw [SyncThread.Careful, if_neg hrole] at hp ⊢
  exact hp

theorem SyncThread.Careful.mono (hp : p.Careful d m) (hhandling : m'.handling = m.handling)
    (hlisting : m'.listing = m.listing)
    (hmine : ∀ path ∈ namedPaths d m, isMine m'.files (resolve path) → isMine m.files (resolve path)) :
    p.Careful d m' := by
  by_cases hrole : p.role = .receiver
  · rw [SyncThread.Careful, if_pos hrole] at hp ⊢
    obtain ⟨msg, g, hmsg, hremoves, hknows, hfollows⟩ := hp
    have hnamed : namedPaths d m' = namedPaths d m := by
      rw [namedPaths, namedPaths, hhandling, hlisting]
    exact ⟨msg, g, hhandling ▸ hmsg, hremoves, hknows.mono hnamed hmine, hfollows⟩
  · exact hp.other hrole

theorem UserFiles.of_exec {op : SyncOp} {x : SyncEnv} {r : op.Res} {es : List SyncEvent}
    (hu : UserFiles d m.files)
    (hmove : ∀ old new, op = .rename old new → ¬ isMine m.files (resolve old))
    (hexec : exec sha256 m op x = some (m', r, es)) : UserFiles d m'.files :=
  fun q hq => hu q (isMine_of_exec hexec hmove hq)

theorem receiver_keeps {x : SyncEnv} {script : Sync Unit} {fs : List SyncEvent}
    (hapart : FoldersApart d) (hsafe : KeepsFiles d m h) (hrole : p.role = .receiver)
    (hp : p.Careful d m)
    (hrec : m.handling.any SyncMsg.announces = true → p.looksUp.all (recorded d m) = true)
    (hstep : opStep (exec sha256) m p.script x = some (m', script, fs)) :
    SyncThread.Careful d m' ⟨.receiver, script⟩ ∧
      KeepsFiles d m' (h ++ fs.map (⟨.receiver, ·⟩)) ∧ m'.handling = m.handling := by
  rw [SyncThread.Careful, if_pos hrole] at hp
  obtain ⟨msg, g, hmsg, hremoves, hknows, hfollows⟩ := hp
  obtain ⟨op, k, r, hscript, hallows, hexec, hnext⟩ := hfollows.opStep _ hstep
  have hfair := fair_of_handlerAllows hallows
  have hmove (old new : List UInt8) (hop : op = .rename old new) :
      ¬ isMine m.files (resolve old) := by
    subst hop
    exact hsafe.user.not_tmp hallows.1
  have hhandling : m'.handling = m.handling := (exec_keeps hexec).handling
  refine ⟨?_, ⟨hsafe.saved.of_exec hfair hexec, hsafe.user.of_exec hmove hexec, ?_⟩, hhandling⟩
  · rw [SyncThread.Careful, if_pos rfl]
    refine ⟨msg, _, hhandling ▸ hmsg, hremoves, hknows.learn hmsg hmove ?_ hexec,
      hnext (hsafe.saved.safeResult hfair hexec)⟩
    rintro rel rfl hann
    rw [hmsg, Option.any_some] at hrec
    simpa [SyncThread.looksUp, hrole, hscript] using hrec hann
  · intro e he _ q hlost
    rcases List.mem_append.mp he with he | he
    · exact hsafe.kept e he ‹_› q hlost
    · obtain ⟨ev, hev, rfl⟩ := List.mem_map.mp he
      obtain rfl : ev = .lost q := hlost
      obtain ⟨hdrops, huser⟩ := exec_events hexec hev
      exact drops_not_mine hallows hremoves hsafe.user hapart hknows hdrops (userFile_iff.mp huser)

theorem other_keeps {x : SyncEnv} {script : Sync Unit} {fs : List SyncEvent}
    (hapart : FoldersApart d) (hsafe : KeepsFiles d m h) (hrole : p.role ≠ .receiver)
    (hp : p.Careful d m) (hstep : opStep (exec sha256) m p.script x = some (m', script, fs)) :
    SyncThread.Careful d m' ⟨p.role, script⟩ ∧ KeepsFiles d m' (h ++ fs.map (⟨p.role, ·⟩)) ∧
      (∀ q : SyncThread, q.Careful d m → q.Careful d m') ∧ m'.handling = m.handling := by
  rw [SyncThread.Careful, if_neg hrole] at hp
  obtain ⟨op, k, r, -, hallows, hexec, hnext⟩ := Follows.opStep _ hp hstep
  have hfair := fair_of_otherAllows hallows
  have hmove (old new : List UInt8) (hop : op = .rename old new) :
      ¬ isMine m.files (resolve old) := by
    subst hop
    exact hsafe.user.not_cache hapart hallows
  obtain ⟨-, hlisting, hhandling, -, -⟩ := exec_keeps hexec
  have hsame : m'.listing = m.listing := by
    rcases hlisting with heq | ⟨b, rfl⟩
    · exact heq
    · exact hallows.elim
  refine ⟨?_, ⟨hsafe.saved.of_exec hfair hexec, hsafe.user.of_exec hmove hexec, ?_⟩, ?_, hhandling⟩
  · rw [SyncThread.Careful, if_neg hrole]
    exact hnext (hsafe.saved.safeResult hfair hexec)
  · intro e he hreceiver q hlost
    rcases List.mem_append.mp he with he | he
    · exact hsafe.kept e he hreceiver q hlost
    · obtain ⟨ev, -, rfl⟩ := List.mem_map.mp he
      exact hrole hreceiver
  · intro q hq
    exact hq.mono hhandling hsame fun path _ => isMine_of_exec hexec hmove

end Steps

section Starts
variable {d : SyncDirs} {m m' : SyncMem} {h : List SyncLog} {o : Option SyncThread}
  {es : List SyncLog} {s : Sys SyncMem SyncThread}

def SyncThread.receives (p : SyncThread) : Bool := decide (p.role = .receiver)

structure StartKeeps (d : SyncDirs) (m m' : SyncMem) (o : Option SyncThread) (h : List SyncLog) :
    Prop where
  flag : one m'.handling.isSome = one m.handling.isSome + (o.map fun p => one p.receives).getD 0
  new : ∀ p ∈ o, p.Careful d m'
  old : ∀ p : SyncThread, p.Careful d m → p.Careful d m'
  safe : KeepsFiles d m' h

theorem start_thread {p : SyncThread} (hsafe : KeepsFiles d m h) (hrole : p.role ≠ .receiver)
    (hp : Abides (otherRule d fun old _ => Inside (resolve d.cache) (resolve old))
      p.script ()) : StartKeeps d m m (some p) h := by
  refine ⟨?_, ?_, fun _ hq => hq, hsafe⟩
  · simp [SyncThread.receives, hrole]
  · rintro q ⟨rfl⟩
    rw [SyncThread.Careful, if_neg hrole]
    exact hp

theorem start_files {t : Files} (hsafe : KeepsFiles d m h)
    (ht : ∀ q, isMine t q → isMine m.files q ∨
      Inside (resolve d.shared) q ∧ reserved q = false ∧ q ∉ (namedPaths d m).map resolve) :
    StartKeeps d m {m with files := t} none h := by
  refine ⟨by simp, by simp, fun p hp => hp.mono rfl rfl fun path hpath hmine => ?_, ?_⟩
  · refine (ht _ hmine).resolve_right fun hnew => ?_
    exact hnew.2.2 (List.mem_map_of_mem hpath)
  · refine ⟨⟨hsafe.saved.fetch, hsafe.saved.listing⟩, fun q hq => ?_, hsafe.kept⟩
    rcases ht q hq with hq | hq
    · exact hsafe.user q hq
    · exact ⟨hq.1, hq.2.1⟩

theorem syncStart_keeps {x : SyncStart} (hok : carefulMove d s (.start x) = true)
    (hsafe : KeepsFiles d s.mem h) (hstart : syncStart d s.mem x = some (m', o, es)) :
    StartKeeps d s.mem m' o h ∧ es = [] := by
  cases x with
  | receive msg =>
    simp only [carefulMove, Bool.and_eq_true, decide_eq_true_eq, Bool.not_eq_true'] at hok
    rw [syncStart] at hstart
    split at hstart <;> cases hstart
    rename_i hnone
    rw [Bool.not_eq_true, Option.isSome_eq_false_iff, Option.isNone_iff_eq_none] at hnone
    refine ⟨⟨?_, ?_, ?_, ⟨⟨hsafe.saved.fetch, hsafe.saved.listing⟩, hsafe.user, hsafe.kept⟩⟩, rfl⟩
    · simp [hnone, SyncThread.receives]
    · rintro p ⟨rfl⟩
      refine ⟨msg, ⟨msg.path.toList.map (sharedPath d), []⟩, rfl, hok.2, ⟨?_, by simp⟩, ?_⟩
      · simp only [namedPaths]
        split
        · rename_i hmsg
          simp [hmsg, SyncMsg.path]
        · exact List.Subset.refl _
      · refine syncDispatch_follows ?_ hok.1 fun rel hrel => ?_
        · rintro rel rfl
          exact absurd hok.2 (by simp [SyncMsg.removes])
        · exact List.mem_map_of_mem (Option.mem_toList.mpr hrel)
    · intro p hp
      refine hp.other fun hrole => ?_
      rw [SyncThread.Careful, if_pos hrole] at hp
      obtain ⟨msg', -, hhandling, -⟩ := hp
      rw [hnone] at hhandling
      contradiction
  | scan fuel =>
    cases hstart
    exact ⟨start_thread hsafe (by simp) (scanFolder_follows fuel _ _), rfl⟩
  | inotify rel kind =>
    cases hstart
    exact ⟨start_thread hsafe (by simp) (inotifyEvent_follows kind), rfl⟩
  | catalogTimer =>
    cases hstart
    exact ⟨start_thread hsafe (by simp) syncExchangeCatalog_follows_other, rfl⟩
  | fetch rel =>
    cases hstart
    have hrel : Below rel := of_decide_eq_true hok
    refine ⟨start_thread hsafe (by simp) ?_, rfl⟩
    exact (fetchFile_follows hrel.inside).bind fun _ _ => trivial
  | userPut path bytes =>
    simp only [carefulMove, Bool.and_eq_true, decide_eq_true_eq, Bool.not_eq_true'] at hok
    rw [syncStart] at hstart
    split at hstart <;> cases hstart
    refine ⟨start_files hsafe fun q hq => ?_, rfl⟩
    rcases isMine_of_insert hq with hq | ⟨rfl, -⟩
    · exact .inl hq
    · exact .inr ⟨hok.1.1, hok.1.2, by simpa using hok.2⟩
  | userRemove path =>
    obtain ⟨t, hun, heq⟩ := Option.map_eq_some_iff.mp hstart
    cases heq
    exact ⟨start_files hsafe fun q hq => .inl (isMine_of_unlink hun hq), rfl⟩
  | userMkdir path =>
    obtain ⟨t, hadd, heq⟩ := Option.map_eq_some_iff.mp hstart
    cases heq
    exact ⟨start_files hsafe fun q hq => .inl (isMine_of_add hadd (by simp) hq), rfl⟩
  | userRmdir path =>
    obtain ⟨t, hrm, heq⟩ := Option.map_eq_some_iff.mp hstart
    cases heq
    refine ⟨start_files hsafe fun q hq => .inl ?_, rfl⟩
    rw [rmdir_eq hrm] at hq
    exact isMine_of_erase hq

end Starts

section Runs
variable {d : SyncDirs} {sha256 : List UInt8 → List UInt8} {m₀ : SyncMem}

structure SyncMem.Untouched (d : SyncDirs) (m : SyncMem) : Prop where
  fetch : m.fetch.tmpPath = none
  listing : m.listing = []
  handling : m.handling = none
  user : UserFiles d m.files

theorem syncThreadOp_keeps {s : Sys SyncMem SyncThread} {h es : List SyncLog} {i : Nat}
    {x : SyncEnv} {p p' : SyncThread} {m : SyncMem} (hapart : FoldersApart d)
    (hok : carefulMove d s (.run i x) = true)
    (hflag : one s.mem.handling.isSome = tally (fun p => one p.receives) s.pcs)
    (hcareful : ∀ q ∈ s.pcs, q.Careful d s.mem) (hsafe : KeepsFiles d s.mem h)
    (hp : s.pcs[i]? = some p) (hop : syncThreadOp sha256 s.mem p x = some (m, p', es)) :
    one m.handling.isSome + one p.receives = one s.mem.handling.isSome + one p'.receives ∧
      p'.Careful d m ∧ (∀ k q, k ≠ i → s.pcs[k]? = some q → q.Careful d m) ∧
      KeepsFiles d m (h ++ es) := by
  have halone (hrole : p.role = .receiver) (k : Nat) (q : SyncThread) (hk : k ≠ i)
      (hq : s.pcs[k]? = some q) : q.Careful d m := by
    have hnot := flag_alone hflag (Ne.symm hk) hp hq (by simp [SyncThread.receives, hrole])
    exact (hcareful q (List.mem_of_getElem? hq)).other (of_decide_eq_false hnot)
  have hpc := hcareful p (List.mem_of_getElem? hp)
  rcases syncThreadOp_eq hop with ⟨hrole, ⟨a, rfl⟩, rfl, rfl⟩ | ⟨script, fs, hstep, rfl, rfl⟩
  · have hsome : s.mem.handling.isSome = true :=
      flag_of_mem hflag (List.mem_of_getElem? hp) (by simp [SyncThread.receives, hrole])
    refine ⟨?_, trivial, halone hrole, ?_⟩
    · simp [SyncThread.receives, hrole, hsome]
    · rw [List.append_nil]
      exact ⟨⟨hsafe.saved.fetch, hsafe.saved.listing⟩, hsafe.user, hsafe.kept⟩
  · by_cases hrole : p.role = .receiver
    · have hrec (hann : s.mem.handling.any SyncMsg.announces = true) :
          p.looksUp.all (recorded d s.mem) = true := by
        rw [carefulMove, hann, Bool.not_true, Bool.false_or, hp] at hok
        exact hok
      obtain ⟨hcare, hkeep, hhandling⟩ := receiver_keeps hapart hsafe hrole hpc hrec hstep
      rw [hrole, hhandling]
      exact ⟨by simp [SyncThread.receives, hrole], hcare, halone hrole, hkeep⟩
    · obtain ⟨hcare, hkeep, hothers, hhandling⟩ := other_keeps hapart hsafe hrole hpc hstep
      rw [hhandling]
      exact ⟨rfl, hcare, fun k q _ hq => hothers q (hcareful q (List.mem_of_getElem? hq)), hkeep⟩

end Runs

theorem plainDirs_apart : FoldersApart plainDirs := ⟨by decide, by decide⟩

theorem plainMem_untouched : plainMem.Untouched plainDirs := by
  have hdir {t : Files} {path q : List Name} (hq : isMine (t.insert path .dir) q) : isMine t q :=
    (isMine_of_insert hq).resolve_right (by simp)
  refine ⟨rfl, rfl, rfl, fun q hq => ?_⟩
  obtain ⟨f, hf, -⟩ := hdir (hdir (hdir hq))
  contradiction

def announceRecorded : List (Move SyncStart SyncEnv) := List.flatten
  [[.start (.userPut [[115], [102]] [1]), .start (.inotify [102] .closeWrite)],
    List.replicate 8 (.run 0 fineEnv), [.start (.receive (.fileChanged [102] noInfo))],
    List.replicate 3 (.run 1 fineEnv), [.start (.receive (.fileChanged [103] noInfo))],
    List.replicate 7 (.run 2 fineEnv)]

def announceUnrecorded : List (Move SyncStart SyncEnv) := List.flatten
  [[.start (.userPut [[115], [102]] [1]), .start (.receive (.fileChanged [102] noInfo))],
    List.replicate 5 (.run 0 fineEnv)]

end OdinLink
