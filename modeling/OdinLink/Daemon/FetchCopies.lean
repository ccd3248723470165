import Mathlib.Data.Prod.Lex
import Mathlib.Order.OrderIsoNat
import OdinLink.Daemon.FetchContent
import OdinLink.Daemon.Push

/-!
# A fetch that nothing disturbs

The messages are handled in the order in which they were sent, each of them once, and everything
that can fail succeeds. A call then goes through a few phases, and in the end the file is here.
-/

namespace OdinLink

open Paths FileTree Scripts History Function Chunks

def fineOp (m : SyncMem) (op : SyncOp) (x : SyncEnv) : Bool :=
  match op with
  | .send _ | .openRead _ | .write _ _ => x.ok
  | .read _ _ n => x.ok && decide (n ≤ x.limit)
  | .mkstemp dir => x.ok && (add m.files (resolve (tmpIn dir x)) newFile).isSome
  | .rename old new => x.ok && (rename m.files (resolve old) (resolve new)).isSome
  | _ => true

section Fine
variable {m : SyncMem} {x : SyncEnv}

theorem ok_of_serves {op : SyncOp} (hfine : fineOp m op x = true) (hserves : op.serves = true) :
    x.ok = true := by
  cases op <;> simp_all [fineOp, SyncOp.serves]

theorem fineOp_not_mayFail : ¬ MayFail fun m op x => fineOp m op x = true := by
  rintro ⟨m, op, x, hfine, hserves, hx⟩
  rw [ok_of_serves hfine hserves] at hx
  contradiction

theorem fineOp_readsWhole : ReadsWhole fun m op x => fineOp m op x = true := by
  intro m path off n x hfine
  rw [fineOp, Bool.and_eq_true, decide_eq_true_eq] at hfine
  exact hfine.2

theorem fineOp_write {path data : List UInt8} (hfine : fineOp m (.write path data) x = true) :
    x.ok = true :=
  hfine

theorem fineOp_made {dir : List UInt8} (hfine : fineOp m (.mkstemp dir) x = true) :
    ¬ Unmade dir m x := by
  rw [fineOp, Bool.and_eq_true, Option.isSome_iff_ne_none] at hfine
  rintro (hx | hnone)
  · rw [hfine.1] at hx
    contradiction
  · exact hfine.2 hnone

theorem fineOp_moved {old new : List UInt8} (hfine : fineOp m (.rename old new) x = true) :
    ¬ Unmoved old new m x :=
  FetchPair.not_unmoved hfine

end Fine

def servable (d : SyncDirs) (b : SyncMem) (p : List UInt8) : Option FileData :=
  if isHere (b.catalog.lookup p) then
    match b.nodeAt (sharedPath d p) with
    | some (.file f) => some f
    | _ => none
  else none

theorem servable_eq {d : SyncDirs} {b : SyncMem} {p : List UInt8} {f : FileData}
    (hf : servable d b p = some f) :
    isHere (b.catalog.lookup p) = true ∧ b.nodeAt (sharedPath d p) = some (.file f) := by
  rw [servable] at hf
  split at hf
  · split at hf
    · cases hf
      exact ⟨‹_›, ‹_›⟩
    · contradiction
  · contradiction

def isRemote (ce : Option CatalogEntry) : Bool := ce.any fun e => decide (e.location = .remote)

def isCached (ce : Option CatalogEntry) : Bool := ce.any fun e => decide (e.location = .cached)

def SyncMsg.isChunk : SyncMsg → Bool
  | .fileData _ _ => true
  | _ => false

def fetchReply (sha256 : List UInt8 → List UInt8) (p : List UInt8) (f : FileData) : List SyncMsg :=
  .fetchResp p (servedInfo sha256 f) (numChunksOf f.bytes.length) 0 ::
    chunksFrom f.bytes 0 (numChunksOf f.bytes.length)

theorem Reply.eq_fetchReply {sha256 : List UInt8 → List UInt8} {p : List UInt8} {f : FileData}
    {reply : List SyncMsg}
    (hreply : Reply (fun m op x => fineOp m op x = true) sha256 p (some (.file f)) true reply) :
    reply = fetchReply sha256 p f := by
  cases hreply with
  | nothing hfail => exact absurd hfail fineOp_not_mayFail
  | refused _ hwhy =>
    rcases hwhy with hhere | hfile | hfail
    · contradiction
    · exact absurd rfl (hfile f)
    · exact absurd hfail fineOp_not_mayFail
  | file hst _ hall =>
    cases hst
    rw [hall.resolve_right fineOp_not_mayFail]
    rfl

theorem isChunk_of_mem_chunksFrom {bytes : List UInt8} {i k : Nat} {msg : SyncMsg}
    (hmsg : msg ∈ chunksFrom bytes i k) : msg.isChunk = true := by
  obtain ⟨j, -, rfl⟩ := List.mem_map.mp hmsg
  rfl

namespace FetchState

structure Idle (f : FetchState) : Prop where
  ended : f.inProgress = false
  fd : f.tmpFd = none
  path : f.tmpPath = none

structure Waits (f : FetchState) (p : List UInt8) : Prop where
  wait : f.inProgress = true
  pending : f.pendingPath = p
  fd : f.tmpFd = none
  path : f.tmpPath = none

structure Receives (f : FetchState) (p : List UInt8) (n i : Nat) (tmp : List UInt8) : Prop where
  wait : f.inProgress = true
  rel : f.relPath = p
  fd : f.tmpFd = some tmp
  path : f.tmpPath = some tmp
  chunks : f.numChunks = n
  got : f.chunksGot = i

end FetchState

structure Calls (limit : Nat) (d : SyncDirs) (b : SyncMem) (w : Option (List UInt8))
    (p : List UInt8) (f : FileData) : Prop where
  waiting : w = some p
  length : p.length ≤ 255
  source : servable d b p = some f
  size : f.bytes.length < limit

/-- How far a call has come. `c` is what our files held when it began, `l` are the requests that the
peer has not handled and `r` the messages that we have not. -/
inductive CallPhase (sha256 : List UInt8 → List UInt8) (dA dB : SyncDirs)
    (c : List Name → Option (List UInt8)) (b : SyncMem) (w : Option (List UInt8)) (v : SyncView)
    (l r : List SyncMsg) : Prop where
  | resting (hwait : w = none) (hidle : v.fetch.Idle) (hl : l = [])
      (hr : ∀ msg ∈ r, msg.isChunk = true)
  | asked {p : List UInt8} {f : FileData} (hcall : Calls fetchLimit dB b w p f)
      (hfetch : v.fetch.Waits p) (hremote : isRemote (v.catalog.lookup p) = true)
      (hsame : v.contents = c) (hl : l = [.fetchReq p]) (hr : ∀ msg ∈ r, msg.isChunk = true)
  | replied {p : List UInt8} {f : FileData} {r' : List SyncMsg} (hcall : Calls fetchLimit dB b w p f)
      (hfetch : v.fetch.Waits p) (hremote : isRemote (v.catalog.lookup p) = true)
      (hsame : v.contents = c) (hl : l = []) (hr : r = r' ++ fetchReply sha256 p f)
      (hr' : ∀ msg ∈ r', msg.isChunk = true)
  | receiving {p tmp : List UInt8} {f : FileData} {i : Nat} (hcall : Calls fetchLimit dB b w p f)
      (hfetch : v.fetch.Receives p (numChunksOf f.bytes.length) i tmp)
      (hremote : isRemote (v.catalog.lookup p) = true) (hnew : c (resolve tmp) = none)
      (hpart : v.contents = update c (resolve tmp)
        (some ((List.range i).flatMap (piece odlSyncChunkSize f.bytes))))
      (hpos : 0 < f.bytes.length) (hlt : i < numChunksOf f.bytes.length)
      (hl : l = []) (hr : r = chunksFrom f.bytes i (numChunksOf f.bytes.length - i))
  | done {p : List UInt8} {f : FileData} (hcall : Calls fetchLimit dB b w p f)
      (hidle : v.fetch.Idle) (hresult : v.fetch.result = 0)
      (hcached : isCached (v.catalog.lookup p) = true)
      (hwhole : v.contents = update c (resolve (cachePath dA p)) (some f.bytes)) (hl : l = [])
      (hr : ∀ msg ∈ r, msg.isChunk = true)

theorem isCached_markCached {c : Catalog} {p : List UInt8} (hp : isRemote (c.lookup p) = true) :
    isCached ((c.markCached p).lookup p) = true := by
  obtain ⟨e, he, hremote⟩ := (Option.any_eq_true _ _).mp hp
  rw [decide_eq_true_eq] at hremote
  simp [Catalog.markCached, he, hremote, isCached]

theorem mayFetch_of_isRemote {ce : Option CatalogEntry} (hremote : isRemote ce = true) :
    mayFetch ce = true := by
  obtain ⟨e, rfl, he⟩ := (Option.any_eq_true _ _).mp hremote
  rw [decide_eq_true_eq] at he
  simp [mayFetch, he]

theorem update_moved {c : List Name → Option (List UInt8)} {tmp : List Name} (hnew : c tmp = none)
    (dst : List Name) (bytes : List UInt8) :
    update (update (update c tmp (some bytes)) tmp none) dst (update c tmp (some bytes) tmp) =
      update c dst (some bytes) := by
  have hgone : update c tmp none = c := by rw [← hnew, update_eq_self]
  rw [update_idem, hgone, update_self]

theorem Received.eq_of_closed {d : SyncDirs} {data : List UInt8} {v v' : SyncView}
    (hreceived : Received (fun m op x => fineOp m op x = true) d data v v')
    (hclosed : v.fetch.tmpFd = none) : v' = v := by
  cases hreceived with
  | ignored => rfl
  | unwritten hfine hx => exact absurd (fineOp_write hfine) (by simp [hx])
  | more hfd | complete hfd => exact absurd (hclosed.symm.trans hfd) (by simp)
  | unmoved hfine hun => exact absurd hun (fineOp_moved hfine)

namespace CallPhase
variable {sha256 : List UInt8 → List UInt8} {dA dB : SyncDirs}
  {c : List Name → Option (List UInt8)} {b : SyncMem} {w : Option (List UInt8)} {v v' : SyncView}
  {l r : List SyncMsg}

theorem rests (h : CallPhase sha256 dA dB c b none v l r) :
    v.fetch.Idle ∧ l = [] ∧ ∀ msg ∈ r, msg.isChunk = true := by
  cases h with
  | resting _ hidle hl hr => exact ⟨hidle, hl, hr⟩
  | asked hcall | replied hcall | receiving hcall | done hcall =>
    exact absurd hcall.waiting (by simp)

theorem call {p : List UInt8} {f : FileData} {res : Option Int}
    (h : CallPhase sha256 dA dB c b none v l r) (hne : p ≠ []) (hlen : p.length ≤ 255)
    (hremote : isRemote (v.catalog.lookup p) = true) (hsource : servable dB b p = some f)
    (hsize : f.bytes.length < fetchLimit)
    (hasked : Asked (fun m op x => fineOp m op x = true) p v v' res) :
    res = none ∧ v'.sent = v.sent ++ [.fetchReq p] ∧
      CallPhase sha256 dA dB v.contents b (some p) v' [.fetchReq p] r := by
  obtain ⟨hidle, -, hr⟩ := h.rests
  cases hasked with
  | empty hp => exact absurd hp hne
  | here hhere =>
    rw [mayFetch_of_isRemote hremote] at hhere
    contradiction
  | unsent hfine hx =>
    rw [ok_of_serves hfine rfl] at hx
    contradiction
  | sent =>
    rw [copyPath_of_le hlen]
    exact ⟨rfl, rfl, .asked ⟨rfl, hlen, hsource, hsize⟩
      ⟨rfl, copyPath_of_le hlen, hidle.fd, hidle.path⟩ hremote rfl rfl hr⟩

theorem head_cases {msg : SyncMsg} (h : CallPhase sha256 dA dB c b w v l (msg :: r)) :
    (∃ i data, msg = .fileData i data) ∨ ∃ rel info n status, msg = .fetchResp rel info n status := by
  have hchunk (hmsg : msg.isChunk = true) : ∃ i data, msg = .fileData i data := by
    cases msg <;> first | contradiction | exact ⟨_, _, rfl⟩
  cases h with
  | resting _ _ _ hr | asked _ _ _ _ _ hr | done _ _ _ _ _ _ hr =>
    exact .inl (hchunk (hr msg List.mem_cons_self))
  | @replied p f r' _ _ _ _ _ hr hr' =>
    cases r' with
    | nil =>
      cases hr
      exact .inr ⟨_, _, _, _, rfl⟩
    | cons msg' r' =>
      cases hr
      exact .inl (hchunk (hr' msg List.mem_cons_self))
  | receiving _ _ _ _ _ _ _ _ hr =>
    exact .inl (hchunk (isChunk_of_mem_chunksFrom (hr ▸ List.mem_cons_self)))

theorem respond {rel : List UInt8} {info : FileInfo} {n status : Nat}
    (h : CallPhase sha256 dA dB c b w v l (.fetchResp rel info n status :: r))
    (hresp : Responded (fun m op x => fineOp m op x = true) dA rel info n v status v') :
    CallPhase sha256 dA dB c b w v' l r := by
  cases h with
  | resting _ _ _ hr | asked _ _ _ _ _ hr | done _ _ _ _ _ _ hr =>
    exact absurd (hr _ List.mem_cons_self) (by simp [SyncMsg.isChunk])
  | receiving _ _ _ _ _ _ _ _ hr =>
    exact absurd (isChunk_of_mem_chunksFrom (hr ▸ List.mem_cons_self)) (by simp [SyncMsg.isChunk])
  | @replied p f r' hcall hfetch hremote hsame hl hr hr' =>
    cases r' with
    | cons msg' r' =>
      cases hr
      exact absurd (hr' _ List.mem_cons_self) (by simp [SyncMsg.isChunk])
    | nil =>
      have hcopy : copyPath p = p := copyPath_of_le hcall.length
      cases hr
      subst hsame
      cases hresp with
      | ignored hother =>
        rcases hother with hover | hne
        · exact absurd (hfetch.wait.symm.trans hover) (by simp)
        · exact absurd hfetch.pending hne
      | refused _ hstatus => exact absurd rfl hstatus
      | accepted hwait hrel hstatus hopened =>
        cases hopened with
        | unmade hfine hun => exact absurd hun (fineOp_made hfine)
        | @waiting tmp hnew hmore =>
          rw [not_or] at hmore
          exact .receiving hcall ⟨hwait, hcopy, rfl, rfl, rfl, rfl⟩ hremote hnew rfl
            (Nat.pos_of_ne_zero hmore.2) (Nat.pos_of_ne_zero hmore.1) hl rfl
        | @complete tmp ok c' hnew hnone hmoved =>
          -- the number of chunks is zero only if there are too many to count
          have hzero : f.bytes.length = 0 := by
            by_contra hne
            have hpos := Nat.pos_of_ne_zero hne
            have hcount := count_pos odlSyncChunkSize_pos hpos
            rw [← numChunksOf_eq hpos hcall.size] at hcount
            exact hnone.elim (Nat.ne_of_gt hcount) hne
          cases hmoved with
          | unmoved hfine hun => exact absurd hun (fineOp_moved hfine)
          | moved =>
            refine .done hcall ⟨rfl, rfl, rfl⟩ rfl ?_ ?_ hl fun msg => isChunk_of_mem_chunksFrom
            · exact hcopy.symm ▸ isCached_markCached hremote
            · rw [List.length_eq_zero_iff.mp hzero, hcopy]
              exact update_moved hnew _ _

theorem receive {i : Nat} {data : List UInt8}
    (h : CallPhase sha256 dA dB c b w v l (.fileData i data :: r))
    (hreceived : Received (fun m op x => fineOp m op x = true) dA data v v') :
    CallPhase sha256 dA dB c b w v' l r := by
  cases h with
  | resting hwait hidle hl hr =>
    rw [hreceived.eq_of_closed hidle.fd]
    exact .resting hwait hidle hl fun msg hmsg => hr msg (List.mem_cons_of_mem _ hmsg)
  | asked hcall hfetch hremote hsame hl hr =>
    rw [hreceived.eq_of_closed hfetch.fd]
    exact .asked hcall hfetch hremote hsame hl fun msg hmsg => hr msg (List.mem_cons_of_mem _ hmsg)
  | done hcall hidle hresult hcached hwhole hl hr =>
    rw [hreceived.eq_of_closed hidle.fd]
    exact .done hcall hidle hresult hcached hwhole hl fun msg hmsg =>
      hr msg (List.mem_cons_of_mem _ hmsg)
  | @replied p f r' hcall hfetch hremote hsame hl hr hr' =>
    rw [hreceived.eq_of_closed hfetch.fd]
    cases r' with
    | nil => cases hr
    | cons msg' r' =>
      cases hr
      exact .replied hcall hfetch hremote hsame hl rfl fun msg hmsg =>
        hr' msg (List.mem_cons_of_mem _ hmsg)
  | @receiving p tmp f k hcall hfetch hremote hnew hpart hpos hlt hl hr =>
    obtain ⟨n, hn⟩ : ∃ n, numChunksOf f.bytes.length - k = n + 1 := ⟨_, (Nat.succ_pred (by omega)).symm⟩
    rw [hn, chunksFrom_succ] at hr
    cases hr
    have hcount : v.fetch.counted.chunksGot = i + 1 := by
      rw [FetchState.counted, hfetch.got]
      exact Nat.mod_eq_of_lt (Nat.lt_of_le_of_lt hlt (numChunksOf_lt _))
    have hwritten : update v.contents (resolve tmp) ((v.contents (resolve tmp)).map
        (· ++ piece odlSyncChunkSize f.bytes i)) = update c (resolve tmp)
          (some ((List.range (i + 1)).flatMap (piece odlSyncChunkSize f.bytes))) := by
      rw [hpart, update_self, update_idem, List.range_succ, List.flatMap_append,
        List.flatMap_singleton]
      rfl
    cases hreceived with
    | ignored hno =>
      rw [hfetch.fd, hfetch.path] at hno
      simp at hno
    | unwritten hfine hx => exact absurd (fineOp_write hfine) (by simp [hx])
    | unmoved hfine hun => exact absurd hun (fineOp_moved hfine)
    | @more fd hfd hmore =>
      obtain rfl := Option.some.inj (hfetch.fd.symm.trans hfd)
      rw [hcount, hfetch.chunks] at hmore
      refine .receiving hcall ⟨hfetch.wait, hfetch.rel, hfetch.fd, hfetch.path, hfetch.chunks, hcount⟩
        hremote hnew hwritten hpos hmore hl ?_
      rw [show numChunksOf f.bytes.length - (i + 1) = n by omega]
    | @complete fd tmp' c' hfd htmp hlast hmoved =>
      obtain rfl := Option.some.inj (hfetch.fd.symm.trans hfd)
      obtain rfl := Option.some.inj (hfetch.path.symm.trans htmp)
      rw [hcount, hfetch.chunks] at hlast
      rw [hwritten, hfetch.rel] at hmoved
      rw [hfetch.rel, if_pos hfetch.wait]
      have hall : i + 1 = numChunksOf f.bytes.length := Nat.le_antisymm hlt hlast
      rw [hall, numChunksOf_eq hpos hcall.size, flatMap_pieces odlSyncChunkSize_pos] at hmoved
      cases hmoved with
      | moved =>
        refine .done hcall ⟨rfl, rfl, rfl⟩ rfl (isCached_markCached hremote) (update_moved hnew _ _) hl
          fun msg => isChunk_of_mem_chunksFrom

theorem serve {msg : SyncMsg} (h : CallPhase sha256 dA dB c b w v (msg :: l) r) :
    ∃ p f, msg = .fetchReq p ∧ p.length ≤ 255 ∧ servable dB b p = some f ∧ ∀ reply,
      Reply (fun m op x => fineOp m op x = true) sha256 p (some (.file f)) true reply →
      CallPhase sha256 dA dB c (b.sending reply) w v l (r ++ reply) := by
  cases h with
  | resting _ _ hl | replied _ _ _ _ hl | receiving _ _ _ _ _ _ _ hl | done _ _ _ _ _ hl =>
    contradiction
  | @asked p f hcall hfetch hremote hsame hl hr =>
    cases hl
    refine ⟨p, f, rfl, hcall.length, hcall.source, fun reply hreply => ?_⟩
    rw [hreply.eq_fetchReply]
    exact .replied ⟨hcall.waiting, hcall.length, hcall.source, hcall.size⟩ hfetch hremote hsame rfl
      rfl hr

theorem collect {p : List UInt8} {res : Int} (h : CallPhase sha256 dA dB c b (some p) v l r)
    (hcollected : Collected (fun m op x => fineOp m op x = true) dA p v v' res) :
    res = 0 ∧ v'.fetch.Idle ∧ isBoth (v'.catalog.lookup p) = true ∧
      (∃ f, servable dB b p = some f ∧ v'.contents = update (update c (resolve (cachePath dA p)) none)
        (resolve (sharedPath dA p)) (some f.bytes)) ∧
      CallPhase sha256 dA dB c b none v' l r := by
  have hover : v.fetch.inProgress = false := by
    cases hcollected <;> assumption
  cases h with
  | resting hwait => contradiction
  | asked _ hfetch | replied _ hfetch | receiving _ hfetch =>
    exact absurd (hfetch.wait.symm.trans hover) (by simp)
  | @done q f hcall hidle hresult hcached hwhole hl hr =>
    cases hcall.waiting
    cases hcollected with
    | failed _ hfailed => exact absurd hresult hfailed
    | moved _ _ hmoved =>
      cases hmoved with
      | unmoved hfine hun => exact absurd hun (fineOp_moved hfine)
      | moved =>
        obtain ⟨e, he, -⟩ := (Option.any_eq_true _ _).mp hcached
        refine ⟨rfl, hidle, isBoth_markBoth he, ⟨f, hcall.source, ?_⟩, .resting rfl hidle hl hr⟩
        rw [hwhole, update_idem, update_self]

theorem next {p : List UInt8} (h : CallPhase sha256 dA dB c b (some p) v l r) :
    l ≠ [] ∨ r ≠ [] ∨ v.fetch.inProgress = false := by
  cases h with
  | resting hwait => contradiction
  | asked _ _ _ _ hl => exact .inl (by simp [hl])
  | replied _ _ _ _ _ hr => exact .inr (.inl (by simp [hr, fetchReply]))
  | @receiving q tmp f i _ _ _ _ _ _ hlt _ hr =>
    obtain ⟨n, hn⟩ : ∃ n, numChunksOf f.bytes.length - i = n + 1 := ⟨_, (Nat.succ_pred (by omega)).symm⟩
    exact .inr (.inl (by simp [hr, hn, chunksFrom_succ]))
  | done _ hidle => exact .inr (.inr hidle.ended)

end CallPhase

theorem drop_of_getElem? {α : Type} {l : List α} {k : Nat} {a : α} (hk : l[k]? = some a) :
    l.drop k = a :: l.drop (k + 1) := by
  obtain ⟨hlt, rfl⟩ := List.getElem?_eq_some_iff.mp hk
  exact List.drop_eq_getElem_cons hlt

namespace FetchPair

section Undisturbed
variable (sha256 : List UInt8 → List UInt8) (dA dB : SyncDirs) (limit : Nat)

def mayCall (s : FetchPair) (p : List UInt8) : Bool :=
  decide (p ≠ []) && decide (p.length ≤ 255) && isRemote (s.a.catalog.lookup p) &&
    (servable dB s.b p).any fun f => decide (f.bytes.length < limit)

/-- Everything succeeds, messages are handled in order, and the peer's files do not change while a
call waits. -/
def undisturbed (s : FetchPair) : FetchAct → Bool
  | .call p xs => s.mayCall dB limit p && fineRun (exec sha256) fineOp (fetchRequest p) s.a xs
  | .serve k xs => decide (k = s.served) && s.a.sent[k]?.all fun msg =>
      fineRun (exec sha256) fineOp (syncDispatch dB msg) s.b xs
  | .take k xs => decide (k = s.taken) && s.b.sent[k]?.all fun msg =>
      fineRun (exec sha256) fineOp (syncDispatch dA msg) s.a xs
  | .collect xs => s.waiting.all fun p => fineRun (exec sha256) fineOp (fetchMove dA p) s.a xs
  | .edit _ => s.waiting.isNone

structure Copied (s : FetchPair) (p : List UInt8) (r : Int) : Prop where
  result : r = 0
  file : ∃ f, s.b.nodeAt (sharedPath dB p) = some (.file f) ∧
    FileAt s.a.files (resolve (sharedPath dA p)) f.bytes
  both : isBoth (s.a.catalog.lookup p) = true
  tidy : ∀ q bytes, FileAt s.a.files q bytes → q = resolve (sharedPath dA p) ∨
    ∃ bytes', FileAt s.before q bytes'
  idle : s.a.fetch.Idle

structure Rested (s : FetchPair) : Prop where
  freeA : s.a.Free
  freeB : s.b.Free
  waiting : s.waiting = none
  returned : s.returned = none
  served : s.served = s.a.sent.length
  taken : s.taken = s.b.sent.length
  idle : s.a.fetch.Idle

structure Advances (s : FetchPair) : Prop where
  freeA : s.a.Free
  freeB : s.b.Free
  served : s.served ≤ s.a.sent.length
  taken : s.taken ≤ s.b.sent.length
  phase : CallPhase sha256 dA dB (contents s.before) s.b s.waiting s.a.view (s.a.sent.drop s.served)
    (s.b.sent.drop s.taken)
  copied : ∀ p r, s.returned = some (p, r) → s.Copied dA dB p r

end Undisturbed

section Runs
variable {sha256 : List UInt8 → List UInt8} {dA dB : SyncDirs} {s s' : FetchPair} {es : List Empty}
variable {xs : List SyncEnv}

theorem Rested.advances (hs : s.Rested) : s.Advances sha256 dA dB := by
  refine ⟨hs.freeA, hs.freeB, hs.served.le, hs.taken.le, .resting hs.waiting hs.idle ?_ ?_,
    by simp [hs.returned]⟩
  · rw [hs.served, List.drop_length]
  · simp [hs.taken]

theorem Advances.call {p : List UInt8} (hs : s.Advances sha256 dA dB)
    (hok : s.undisturbed sha256 dA dB fetchLimit (.call p xs) = true)
    (hstep : s.step sha256 dA dB (.call p xs) = some (s', es)) : s'.Advances sha256 dA dB := by
  obtain ⟨hwait, m, r, fs, hfin, rfl⟩ := step_call hstep
  rw [undisturbed, mayCall] at hok
  simp only [Bool.and_eq_true, decide_eq_true_eq] at hok
  obtain ⟨⟨⟨⟨hne, hlen⟩, hremote⟩, hsource⟩, hfine⟩ := hok
  obtain ⟨f, hf, hsize⟩ := (Option.any_eq_true _ _).mp hsource
  have hasked := (fetchRequest_leads ⟨hs.freeA.fetch, hs.freeA.tx⟩).finish (.of_fineRun hfine) hfin
  have hphase := hs.phase
  rw [hwait] at hphase
  obtain ⟨rfl, hsent, hphase'⟩ :=
    hphase.call hne hlen hremote hf (of_decide_eq_true hsize) hasked
  have hfree := hasked.free ⟨hs.freeA.fetch, hs.freeA.tx⟩
  have hsent : m.sent = s.a.sent ++ [.fetchReq p] := hsent
  refine ⟨⟨hfree.fetch, hfree.tx⟩, hs.freeB, ?_, hs.taken, ?_, by simp⟩
  · rw [hsent, List.length_append]
    exact Nat.le_add_right_of_le hs.served
  · rw [hsent, List.drop_append_of_le_length hs.served, hphase.rests.2.1]
    exact hphase'

theorem Advances.serve {k : Nat} (hs : s.Advances sha256 dA dB)
    (hok : s.undisturbed sha256 dA dB fetchLimit (.serve k xs) = true)
    (hstep : s.step sha256 dA dB (.serve k xs) = some (s', es)) : s'.Advances sha256 dA dB := by
  obtain ⟨msg, m, fs, hk, hfin, rfl⟩ := step_serve hstep
  rw [undisturbed, hk, Option.all_some, Bool.and_eq_true, decide_eq_true_eq] at hok
  obtain ⟨rfl, hfine⟩ := hok
  have hphase := hs.phase
  rw [drop_of_getElem? hk] at hphase
  obtain ⟨p, f, rfl, hlen, hsource, hreply⟩ := hphase.serve
  obtain ⟨hhere, hnode⟩ := servable_eq hsource
  have hsees : Sees (fun m op x => fineOp m op x = true) s.b.files
      (sharedPath dB (copyPath p)) (some (.file f)) := by
    intro m op x _ _ hfiles
    have hnode' : m.nodeAt (sharedPath dB p) = some (.file f) := by
      rw [SyncMem.nodeAt, hfiles]
      exact hnode
    rw [copyPath_of_le hlen, SyncMem.followed, hnode']
  obtain ⟨l, rfl, hl⟩ :=
    (syncHandleFetchReq_brings hs.freeB hsees fineOp_readsWhole).finish (.of_fineRun hfine) hfin
  rw [copyPath_of_le hlen, hhere] at hl
  refine ⟨hs.freeA, ⟨hs.freeB.fetch, hs.freeB.tx⟩, ?_, ?_, ?_, by simp⟩
  · exact (List.getElem?_eq_some_iff.mp hk).1
  · exact (Nat.le_add_right_of_le hs.taken).trans_eq (List.length_append).symm
  · have hdrop : (s.b.sending l).sent.drop s.taken = s.b.sent.drop s.taken ++ l :=
      List.drop_append_of_le_length hs.taken
    rw [hdrop]
    exact hreply l hl

theorem Advances.take {k : Nat} (hs : s.Advances sha256 dA dB)
    (hok : s.undisturbed sha256 dA dB fetchLimit (.take k xs) = true)
    (hstep : s.step sha256 dA dB (.take k xs) = some (s', es)) :
    s'.Advances sha256 dA dB ∧ s'.a.sent = s.a.sent := by
  obtain ⟨msg, m, fs, hk, hfin, rfl⟩ := step_take hstep
  rw [undisturbed, hk, Option.all_some, Bool.and_eq_true, decide_eq_true_eq] at hok
  obtain ⟨rfl, hfine⟩ := hok
  have hphase := hs.phase
  have hbound := (List.getElem?_eq_some_iff.mp hk).1
  rw [drop_of_getElem? hk] at hphase
  have hfree : s.a.view.Free := ⟨hs.freeA.fetch, hs.freeA.tx⟩
  have hend (hfree' : m.view.Free) (hsent : m.sent = s.a.sent)
      (hphase' : CallPhase sha256 dA dB (contents s.before) s.b s.waiting m.view
        (s.a.sent.drop s.served) (s.b.sent.drop (s.taken + 1))) :
      Advances sha256 dA dB {s with a := m, taken := s.taken + 1,
                                    start := if s.accepts msg then s.taken else s.start,
                                    returned := none} ∧ m.sent = s.a.sent := by
    refine ⟨⟨⟨hfree'.fetch, hfree'.tx⟩, hs.freeB, ?_, hbound, ?_, by simp⟩, hsent⟩
    · rw [hsent]
      exact hs.served
    · rw [hsent]
      exact hphase'
  rcases hphase.head_cases with ⟨i, data, rfl⟩ | ⟨rel, info, n, status, rfl⟩
  · have hreceived := (syncHandleFileData_leads hfree).finish (.of_fineRun hfine) hfin
    exact hend (hreceived.free hfree) hreceived.sent_eq (hphase.receive hreceived)
  · have hresp := (syncHandleFetchResp_leads hfree).finish (.of_fineRun hfine) hfin
    exact hend (hresp.free hfree) hresp.sent_eq (hphase.respond hresp)

theorem Advances.collect (hs : s.Advances sha256 dA dB)
    (hok : s.undisturbed sha256 dA dB fetchLimit (.collect xs) = true)
    (hstep : s.step sha256 dA dB (.collect xs) = some (s', es)) :
    s'.Advances sha256 dA dB ∧ s'.a.sent = s.a.sent := by
  obtain ⟨p, m, r, fs, hwait, hfin, rfl⟩ := step_collect hstep
  rw [undisturbed, hwait, Option.all_some] at hok
  have hphase := hs.phase
  rw [hwait] at hphase
  have hfree : s.a.view.Free := ⟨hs.freeA.fetch, hs.freeA.tx⟩
  have hcollected := (fetchMove_leads hfree).finish (.of_fineRun hok) hfin
  obtain ⟨rfl, hidle, hboth, ⟨f, hsource, hcontents⟩, hphase'⟩ := hphase.collect hcollected
  have hcontents : contents m.files =
      update (update (contents s.before) (resolve (cachePath dA p)) none)
        (resolve (sharedPath dA p)) (some f.bytes) := hcontents
  have hfree' := hcollected.free hfree
  have hsent : m.sent = s.a.sent := hcollected.sent_eq
  refine ⟨⟨⟨hfree'.fetch, hfree'.tx⟩, hs.freeB, ?_, hs.taken, ?_, ?_⟩, hsent⟩
  · rw [hsent]
    exact hs.served
  · rw [hsent]
    exact hphase'
  · rintro q r hq
    cases hq
    refine ⟨rfl, ⟨f, (servable_eq hsource).2, ?_⟩, hboth, ?_, hidle⟩
    · rw [fileAt_iff, hcontents, update_self]
    · intro q bytes hq
      rw [fileAt_iff, hcontents] at hq
      by_cases hshared : q = resolve (sharedPath dA p)
      · exact .inl hshared
      · rw [update_of_ne hshared] at hq
        by_cases hcache : q = resolve (cachePath dA p)
        · rw [hcache, update_self] at hq
          contradiction
        · rw [update_of_ne hcache] at hq
          exact .inr ⟨bytes, fileAt_iff.mpr hq⟩

theorem Advances.step (hs : s.Advances sha256 dA dB) {act : FetchAct}
    (hok : s.undisturbed sha256 dA dB fetchLimit act = true)
    (hstep : s.step sha256 dA dB act = some (s', es)) : s'.Advances sha256 dA dB := by
  cases act with
  | call p xs => exact hs.call hok hstep
  | serve k xs => exact hs.serve hok hstep
  | take k xs => exact (hs.take hok hstep).1
  | collect xs => exact (hs.collect hok hstep).1
  | edit t =>
    rw [undisturbed, Option.isNone_iff_eq_none] at hok
    rw [step_edit hstep]
    have hphase := hs.phase
    rw [hok] at hphase
    obtain ⟨hidle, hl, hr⟩ := hphase.rests
    exact ⟨hs.freeA, ⟨hs.freeB.fetch, hs.freeB.tx⟩, hs.served, hs.taken, .resting hok hidle hl hr,
      by simp⟩

end Runs

/-! A call that waits comes to its end. -/

section Finish
variable {may : SyncMsg → Prop} {d : SyncDirs} {p : List UInt8} {m : SyncMem}

theorem moveToShared_mild : AllOps (SyncOp.Mild may) (moveToShared d p) :=
  .op trivial fun _ => .bind unlinkLink_mild fun _ => .op trivial fun _ => .op trivial fun _ =>
    .when (.lastOp trivial)

variable (d p) in
theorem fetchMove_finishes (sha256 : List UInt8 → List UInt8) (hm : m.Free)
    (hover : m.fetch.inProgress = false) (xs : Nat → SyncEnv) (hxs : ∀ i, slash ∉ (xs i).name) :
    ∃ n m' r es, finish (exec sha256) (fetchMove d p) m ((List.range n).map xs) = some (m', r, es) := by
  have hawait : exec sha256 m .awaitFetch (xs 0) = some ({m with fetchLocked := true}, (), []) := by
    rw [exec, hm.fetch, hover]
    rfl
  have hrest : Abides (lockRule fun _ => False) (do
      let f ← syncOp .getFetch
      syncOp .unlockFetch
      Script.when (f.result = 0) (moveToShared d p)
      pure f.result) ⟨true, false⟩ := by
    exact Follows.op trivial fun f _ => Follows.op trivial fun _ _ =>
      follows_bind_mild (.when moveToShared_mild) fun _ => trivial
  have hagree : Agrees (fun _ => False) m.sent ⟨true, false⟩ {m with fetchLocked := true} :=
    ⟨rfl, hm.tx, [], (List.append_nil _).symm, by simp⟩
  obtain ⟨n, m', r, es, hfin⟩ := hagree.finishes sha256 hrest (fun i => xs (i + 1)) fun i => hxs (i + 1)
  refine ⟨n + 1, m', r, es, ?_⟩
  rw [List.range_succ_eq_map, List.map_cons, List.map_map]
  exact finish_call.mpr ⟨_, _, _, (), [], es, rfl, hawait, hfin, rfl⟩

end Finish

def goesOn (s : FetchPair) (xs : List SyncEnv) : List FetchAct :=
  [.serve s.served xs, .take s.taken xs, .collect xs]

section Progress
variable {sha256 : List UInt8 → List UInt8} {dA dB : SyncDirs} {s s' : FetchPair}

theorem Advances.exists_step (hs : s.Advances sha256 dA dB) (hwait : s.waiting ≠ none)
    (xs : Nat → SyncEnv) (hxs : ∀ i, slash ∉ (xs i).name) :
    ∃ n act s', act ∈ s.goesOn ((List.range n).map xs) ∧
      s.step sha256 dA dB act = some (s', []) := by
  obtain ⟨p, hp⟩ := Option.ne_none_iff_exists'.mp hwait
  have hphase := hs.phase
  rw [hp] at hphase
  rcases hphase.next with hl | hr | hover
  · have hlt : s.served < s.a.sent.length := by
      rw [ne_eq, List.drop_eq_nil_iff] at hl
      omega
    obtain ⟨n, m', _, es, hfin⟩ := (hs.freeB.agrees _).finishes sha256
      (syncDispatch_ends dB s.a.sent[s.served]) xs hxs
    exact ⟨n, _, _, List.mem_cons_self, by
      rw [FetchPair.step, List.getElem?_eq_getElem hlt, Option.bind_some, hfin]
      rfl⟩
  · have hlt : s.taken < s.b.sent.length := by
      rw [ne_eq, List.drop_eq_nil_iff] at hr
      omega
    obtain ⟨n, m', _, es, hfin⟩ := (hs.freeA.agrees _).finishes sha256
      (syncDispatch_ends dA s.b.sent[s.taken]) xs hxs
    exact ⟨n, _, _, List.mem_cons_of_mem _ List.mem_cons_self, by
      rw [FetchPair.step, List.getElem?_eq_getElem hlt, Option.bind_some, hfin]
      rfl⟩
  · obtain ⟨n, m', r, es, hfin⟩ := fetchMove_finishes dA p sha256 hs.freeA hover xs hxs
    exact ⟨n, _, _, List.mem_cons_of_mem _ (List.mem_cons_of_mem _ List.mem_cons_self), by
      rw [FetchPair.step, hp, Option.bind_some, hfin]
      rfl⟩

def toDo (s : FetchPair) : Nat ×ₗ Nat :=
  toLex (s.a.sent.length - s.served, s.b.sent.length - s.taken + s.waiting.toList.length)

variable (sha256 dA dB) in
def Proceeds (s s' : FetchPair) : Prop :=
  ∃ xs, ∃ act ∈ s.goesOn xs, s.undisturbed sha256 dA dB fetchLimit act = true ∧
    s.step sha256 dA dB act = some (s', [])

theorem Advances.toDo_lt (hs : s.Advances sha256 dA dB) (hproceeds : Proceeds sha256 dA dB s s') :
    s'.Advances sha256 dA dB ∧ s'.toDo < s.toDo := by
  obtain ⟨xs, act, hact, hok, hstep⟩ := hproceeds
  refine ⟨hs.step hok hstep, ?_⟩
  rw [toDo, toDo, Prod.Lex.toLex_lt_toLex]
  simp only [goesOn, List.mem_cons, List.not_mem_nil, or_false] at hact
  rcases hact with rfl | rfl | rfl
  · obtain ⟨msg, m, fs, hk, -, rfl⟩ := step_serve hstep
    have hlt := (List.getElem?_eq_some_iff.mp hk).1
    exact .inl (by simp only; omega)
  · obtain ⟨-, hsent⟩ := hs.take hok hstep
    obtain ⟨msg, m, fs, hk, -, rfl⟩ := step_take hstep
    have hlt := (List.getElem?_eq_some_iff.mp hk).1
    refine .inr ⟨?_, by simp only; omega⟩
    rw [hsent]
  · obtain ⟨-, hsent⟩ := hs.collect hok hstep
    obtain ⟨p, m, r, fs, hwait, -, rfl⟩ := step_collect hstep
    refine .inr ⟨?_, by simp [hwait]⟩
    rw [hsent]

theorem Advances.not_endless (hs : s.Advances sha256 dA dB) :
    ¬ ∃ f : Nat → FetchPair, f 0 = s ∧ ∀ n, Proceeds sha256 dA dB (f n) (f (n + 1)) := by
  rintro ⟨f, rfl, hf⟩
  have hall (n : Nat) : (f n).Advances sha256 dA dB := by
    induction n with
    | zero => exact hs
    | succ n ih => exact (ih.toDo_lt (hf n)).1
  refine not_strictAnti_of_wellFoundedLT (fun n => (f n).toDo) ?_
  exact strictAnti_nat_of_succ_lt fun n => ((hall n).toDo_lt (hf n)).2

/-- Of any number of calls that nothing disturbs, one that returns has copied the file; one that
waits can go on, and not without end. -/
theorem undisturbed_calls {s₀ : FetchPair} {h : List Empty} (hrested : s₀.Rested)
    (hr : Reaches (FetchPair.step sha256 dA dB)
      (fun s _ act => s.undisturbed sha256 dA dB fetchLimit act = true) s₀ s h) :
    (∀ p r, s.returned = some (p, r) → s.Copied dA dB p r) ∧
    (s.waiting ≠ none → ∀ xs : Nat → SyncEnv, (∀ i, slash ∉ (xs i).name) →
      ∃ n act s', act ∈ s.goesOn ((List.range n).map xs) ∧
        s.step sha256 dA dB act = some (s', [])) ∧
    ¬ ∃ f : Nat → FetchPair, f 0 = s ∧ ∀ n, Proceeds sha256 dA dB (f n) (f (n + 1)) := by
  have hs : s.Advances sha256 dA dB :=
    hr.invariant (fun s _ => s.Advances sha256 dA dB) hrested.advances
      fun s h act s' es _ hs hok hstep => hs.step hok hstep
  exact ⟨hs.copied, hs.exists_step, hs.not_endless⟩

end Progress

end FetchPair

theorem freshPair_rested : freshPair.Rested :=
  ⟨⟨rfl, rfl⟩, ⟨rfl, rfl⟩, rfl, rfl, rfl, rfl, rfl, rfl, rfl⟩

theorem undisturbed_calls_plain : ∃ s h, Reaches (FetchPair.step id plainDirs plainDirs)
    (fun s _ act => s.undisturbed id plainDirs plainDirs fetchLimit act = true) freshPair s h ∧
      s.returned = some ([98], 0) ∧ s.Copied plainDirs plainDirs [98] 0 := by
  have hrun : (run (FetchPair.step id plainDirs plainDirs)
      (fun s _ act => s.undisturbed id plainDirs plainDirs fetchLimit act) freshPair []
        fetchBoth).map (fun r => r.1.returned) = some (some ([98], 0)) := by
    decide +kernel
  obtain ⟨⟨s, h⟩, hrun, hreturned⟩ := Option.map_eq_some_iff.mp hrun
  have hr : Reaches (FetchPair.step id plainDirs plainDirs)
      (fun s _ act => s.undisturbed id plainDirs plainDirs fetchLimit act = true) freshPair s h :=
    .of_run (fun _ _ _ hcheck => hcheck) .start hrun
  exact ⟨s, h, hr, hreturned,
    (FetchPair.undisturbed_calls freshPair_rested hr).1 [98] 0 hreturned⟩

/-! A file whose chunks are too many to count. -/

section Serve
variable {P : SyncOp → Prop} {d : SyncDirs}

def servingOp : SyncOp → Prop
  | .read _ _ n => n ≤ odlSyncChunkSize
  | .mkstemp _ | .rename _ _ | .write _ _ => False
  | _ => True

theorem syncHandleFetchReq_serving {req : List UInt8} :
    AllOps servingOp (syncHandleFetchReq d req) :=
  syncHandleFetchReq_ops ⟨trivial, trivial⟩ ⟨trivial, trivial⟩ ⟨trivial, trivial⟩
    (fun _ _ _ hn => hn) (fun _ _ _ _ => trivial) fun _ _ => trivial

end Serve

def hugeFile : FileData := ⟨List.replicate (2 ^ 51 - 1) 0, 0o644, 0, true⟩

def hugePair : FetchPair :=
  {freshPair with
    b := {plainMem with
      files := plainFiles.insert [[115], [97]] (.file hugeFile)
      catalog := Catalog.set ∅ [97] ⟨[97], ⟨2 ^ 51 - 1, 0, 0o644, false, []⟩, .localOnly⟩}}

def hugeResp : SyncMsg := .fetchResp [97] ⟨2 ^ 51 - 1, 0, 0o644, false, []⟩ 0 0

def chunkEnv : SyncEnv := ⟨true, odlSyncChunkSize, [120], none⟩

theorem servable_huge : servable plainDirs hugePair.b [97] = some hugeFile := rfl

theorem hugeFile_length : hugeFile.bytes.length = 2 ^ 51 - 1 := List.length_replicate

theorem fetchReply_huge : fetchReply (fun _ => []) [97] hugeFile = [hugeResp] := by
  have hcount : numChunksOf (2 ^ 51 - 1) = 0 := by decide
  rw [fetchReply, servedInfo, hugeFile_length, hcount, if_pos (by decide)]
  rfl

theorem exists_served_huge : ∃ xs es,
    finish (exec fun _ => []) (syncDispatch plainDirs (.fetchReq [97])) hugePair.b xs =
        some (hugePair.b.sending [hugeResp], (), es) ∧
      fineRun (exec fun _ => []) fineOp (syncDispatch plainDirs (.fetchReq [97])) hugePair.b xs =
        true := by
  have hfree : hugePair.b.Free := ⟨rfl, rfl⟩
  obtain ⟨n, m, _, es, hfin⟩ := (hfree.agrees _).finishes (fun _ => [])
    (syncDispatch_ends plainDirs (.fetchReq [97])) (fun _ => chunkEnv) fun _ => by decide
  have hfine : fineRun (exec fun _ => []) fineOp (syncDispatch plainDirs (.fetchReq [97])) hugePair.b
      ((List.range n).map fun _ => chunkEnv) = true := by
    refine syncHandleFetchReq_serving.fineRun fun m op hop x hx => ?_
    obtain ⟨-, -, rfl⟩ := List.mem_map.mp hx
    cases op <;> first | contradiction | rfl | exact decide_eq_true hop
  have hsees : Sees (fun m op x => fineOp m op x = true) hugePair.b.files
      (sharedPath plainDirs (copyPath [97])) (some (.file hugeFile)) := by
    intro m op x _ _ hfiles
    have hnode : m.nodeAt (sharedPath plainDirs (copyPath [97])) = some (.file hugeFile) := by
      rw [SyncMem.nodeAt, hfiles]
      rfl
    rw [SyncMem.followed, hnode]
  obtain ⟨l, rfl, hl⟩ :=
    (syncHandleFetchReq_brings hfree hsees fineOp_readsWhole).finish (.of_fineRun hfine) hfin
  have hreply := Reply.eq_fetchReply (p := [97]) hl
  rw [hreply, fetchReply_huge] at hfin
  exact ⟨_, es, hfin, hfine⟩

def hugeRun : Option Bool := do
  let r₁ ← finish (exec fun _ => []) (fetchRequest [97]) hugePair.a plainAnswers
  let r₂ ← finish (exec fun _ => []) (syncDispatch plainDirs hugeResp) r₁.1 plainAnswers
  let r₃ ← finish (exec fun _ => []) (fetchMove plainDirs [97]) r₂.1 plainAnswers
  pure (fineRun (exec fun _ => []) fineOp (fetchRequest [97]) hugePair.a plainAnswers &&
    fineRun (exec fun _ => []) fineOp (syncDispatch plainDirs hugeResp) r₁.1 plainAnswers &&
    fineRun (exec fun _ => []) fineOp (fetchMove plainDirs [97]) r₂.1 plainAnswers &&
    decide (r₁.2.1 = none ∧ r₁.1.sent = [.fetchReq [97]] ∧ r₃.2.1 = 0 ∧
      contents r₃.1.files (resolve (sharedPath plainDirs [97])) = some []))

/-- A file of `2 ^ 51 - 1` bytes is fetched as an empty one. -/
theorem huge_file_fetched_empty : ∃ s h, Reaches (FetchPair.step (fun _ => []) plainDirs plainDirs)
    (fun s _ act => s.undisturbed (fun _ => []) plainDirs plainDirs (2 ^ 51) act = true) hugePair s h ∧
      hugePair.Rested ∧ s.returned = some ([97], 0) ∧
      FileAt s.a.files (resolve (sharedPath plainDirs [97])) [] ∧
      ¬ s.Copied plainDirs plainDirs [97] 0 := by
  have hours : hugeRun = some true := by decide +kernel
  rw [hugeRun] at hours
  obtain ⟨⟨m₁, r₁, fs₁⟩, hfin₁, hours⟩ := Option.bind_eq_some_iff.mp hours
  obtain ⟨⟨m₂, _, fs₂⟩, hfin₂, hours⟩ := Option.bind_eq_some_iff.mp hours
  obtain ⟨⟨m₃, r₃, fs₃⟩, hfin₃, hours⟩ := Option.bind_eq_some_iff.mp hours
  simp only [pure, Option.some.injEq, Bool.and_eq_true, decide_eq_true_eq] at hours
  obtain ⟨⟨⟨hfine₁, hfine₂⟩, hfine₃⟩, rfl, hsent, rfl, hempty⟩ := hours
  obtain ⟨xs, es, hserve, hfine⟩ := exists_served_huge
  let s₁ : FetchPair := {hugePair with a := m₁, waiting := some [97], returned := none,
                                       before := hugePair.a.files}
  let s₂ : FetchPair := {s₁ with b := hugePair.b.sending [hugeResp], served := 1, returned := none}
  have hmay : hugePair.mayCall plainDirs (2 ^ 51) [97] = true := by
    rw [FetchPair.mayCall, servable_huge, Option.any_some, hugeFile_length]
    decide
  have hstep₁ : hugePair.step (fun _ => []) plainDirs plainDirs (.call [97] plainAnswers) =
      some (s₁, []) := by
    rw [FetchPair.step, hfin₁]
    rfl
  have hstep₂ : s₁.step (fun _ => []) plainDirs plainDirs (.serve 0 xs) = some (s₂, []) := by
    rw [FetchPair.step, hsent, List.getElem?_cons_zero, Option.bind_some, hserve]
    rfl
  let s₃ : FetchPair := {s₂ with a := m₂, taken := 1,
                                 start := if s₂.accepts hugeResp then 0 else s₂.start, returned := none}
  let s₄ : FetchPair := {s₃ with a := m₃, waiting := none, returned := some ([97], 0)}
  have hstep₃ : s₂.step (fun _ => []) plainDirs plainDirs (.take 0 plainAnswers) = some (s₃, []) := by
    rw [FetchPair.step, show s₂.b.sent[0]? = some hugeResp from rfl, Option.bind_some, hfin₂]
    rfl
  have hstep₄ : s₃.step (fun _ => []) plainDirs plainDirs (.collect plainAnswers) =
      some (s₄, []) := by
    rw [FetchPair.step, show s₃.waiting = some [97] from rfl, Option.bind_some, hfin₃]
    rfl
  have hok₁ : hugePair.undisturbed (fun _ => []) plainDirs plainDirs (2 ^ 51)
      (.call [97] plainAnswers) = true := by
    rw [FetchPair.undisturbed, hmay, hfine₁]
    rfl
  have hok₂ : s₁.undisturbed (fun _ => []) plainDirs plainDirs (2 ^ 51) (.serve 0 xs) = true := by
    rw [FetchPair.undisturbed, hsent, List.getElem?_cons_zero, Option.all_some, hfine]
    rfl
  have hok₃ : s₂.undisturbed (fun _ => []) plainDirs plainDirs (2 ^ 51)
      (.take 0 plainAnswers) = true := by
    rw [FetchPair.undisturbed, show s₂.b.sent[0]? = some hugeResp from rfl, Option.all_some, hfine₂]
    rfl
  have hok₄ : s₃.undisturbed (fun _ => []) plainDirs plainDirs (2 ^ 51)
      (.collect plainAnswers) = true := by
    rw [FetchPair.undisturbed, show s₃.waiting = some [97] from rfl, Option.all_some, hfine₃]
  refine ⟨s₄, _, .next (.next (.next (.next .start hok₁ hstep₁) hok₂ hstep₂) hok₃ hstep₃) hok₄ hstep₄,
    ⟨⟨rfl, rfl⟩, ⟨rfl, rfl⟩, rfl, rfl, rfl, rfl, rfl, rfl, rfl⟩, rfl, fileAt_iff.mpr hempty, ?_⟩
  intro hcopied
  obtain ⟨f, hf, hfile⟩ := hcopied.file
  obtain rfl : hugeFile = f := Node.file.inj (Option.some.inj hf)
  have hlen := congrArg List.length (Option.some.inj ((fileAt_iff.mp hfile).symm.trans hempty))
  exact absurd (hugeFile_length.symm.trans hlen) (by decide)

end OdinLink
