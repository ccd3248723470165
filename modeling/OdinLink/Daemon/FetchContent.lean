import OdinLink.Daemon.Confinement
import OdinLink.Daemon.FetchPair

/-!
# What a fetch brings

A transfer is over when as many chunks have come as were announced, whichever they are. So what is
stored is what was announced as long as the chunks come as they were sent.
-/

namespace OdinLink

open Paths FileTree Scripts History Function Chunks

/-! The peer's messages. -/

structure ReplyAt (sha256 : List UInt8 → List UInt8) (l : List SyncMsg) (j : Nat)
    (rel : List UInt8) (info : FileInfo) (n : Nat) (f : FileData) : Prop where
  resp : l[j]? = some (.fetchResp rel info n 0)
  info : info = servedInfo sha256 f
  count : n = numChunksOf f.bytes.length
  next : ∀ i, (∀ i' < i, ∃ c data, l[j + 1 + i']? = some (.fileData c data)) →
    ∀ c data, l[j + 1 + i]? = some (.fileData c data) →
      c = i ∧ data = piece odlSyncChunkSize f.bytes i

structure RepliesOnly (sha256 : List UInt8 → List UInt8) (l : List SyncMsg) : Prop where
  only : ∀ msg ∈ l, (∃ rel info n status, msg = .fetchResp rel info n status) ∨
    ∃ i data, msg = .fileData i data
  replies : ∀ j rel info n, l[j]? = some (.fetchResp rel info n 0) →
    ∃ f, ReplyAt sha256 l j rel info n f

section Stream
variable {sha256 : List UInt8 → List UInt8} {fine : SyncMem → SyncOp → SyncEnv → Prop}
  {l l' : List SyncMsg} {j n : Nat} {rel : List UInt8} {info : FileInfo} {f : FileData}
  {st : Option (Node FileData)} {here : Bool}

theorem ReplyAt.append (hreply : ReplyAt sha256 l j rel info n f)
    (hl' : ∀ c data, l'[0]? ≠ some (.fileData c data)) :
    ReplyAt sha256 (l ++ l') j rel info n f := by
  have hj : j < l.length := (List.getElem?_eq_some_iff.mp hreply.resp).1
  refine ⟨(List.getElem?_append_left hj).trans hreply.resp, hreply.info, hreply.count, ?_⟩
  intro i hprev c data hi
  by_cases hlt : j + 1 + i < l.length
  · rw [List.getElem?_append_left hlt] at hi
    refine hreply.next i (fun i' hi' => ?_) c data hi
    have hprev' := hprev i' hi'
    rwa [List.getElem?_append_left (by omega)] at hprev'
  · -- the chunks go on past the end of what was sent before
    have hat : ∃ c data, (l ++ l')[j + 1 + (l.length - (j + 1))]? = some (.fileData c data) := by
      rcases Nat.lt_or_eq_of_le (show l.length - (j + 1) ≤ i by omega) with hlt' | heq
      · exact hprev _ hlt'
      · exact ⟨c, data, heq ▸ hi⟩
    obtain ⟨c', data', hhead⟩ := hat
    rw [List.getElem?_append_right (by omega),
      show j + 1 + (l.length - (j + 1)) - l.length = 0 by omega]
      at hhead
    exact absurd hhead (hl' c' data')

theorem Reply.head_ne (hreply : Reply fine sha256 rel st here l') (c : Nat) (data : List UInt8) :
    l'[0]? ≠ some (.fileData c data) := by
  cases hreply with
  | nothing | refused | file => simp

theorem Reply.only (hreply : Reply fine sha256 rel st here l') {msg : SyncMsg} (hmsg : msg ∈ l') :
    (∃ rel info n status, msg = .fetchResp rel info n status) ∨ ∃ i data, msg = .fileData i data := by
  cases hreply with
  | nothing => contradiction
  | refused => exact .inl ⟨_, _, _, _, List.mem_singleton.mp hmsg⟩
  | file =>
    rcases List.mem_cons.mp hmsg with rfl | hmem
    · exact .inl ⟨_, _, _, _, rfl⟩
    · obtain ⟨i, -, rfl⟩ := List.mem_map.mp hmem
      exact .inr ⟨_, _, rfl⟩

theorem Reply.replyAt (hreply : Reply fine sha256 rel st here l') (l : List SyncMsg) {j' : Nat}
    {rel' : List UInt8} (hj : l'[j']? = some (.fetchResp rel' info n 0)) :
    ∃ f, ReplyAt sha256 (l ++ l') (l.length + j') rel' info n f := by
  have hresp : (l ++ l')[l.length + j']? = some (.fetchResp rel' info n 0) := by
    rw [List.getElem?_append_right (Nat.le_add_right _ _), Nat.add_sub_cancel_left, hj]
  cases hreply with
  | nothing => simp at hj
  | refused hstatus =>
    cases j' with
    | zero =>
      simp only [List.getElem?_cons_zero, Option.some.injEq, SyncMsg.fetchResp.injEq] at hj
      exact absurd hj.2.2.2 hstatus
    | succ j' => simp at hj
  | @file f k hst hk hall =>
    cases j' with
    | zero =>
      simp only [List.getElem?_cons_zero, Option.some.injEq, SyncMsg.fetchResp.injEq] at hj
      obtain ⟨-, rfl, rfl, -⟩ := hj
      refine ⟨f, hresp, rfl, rfl, fun i _ c data hi => ?_⟩
      rw [List.getElem?_append_right (by omega), show l.length + 0 + 1 + i - l.length = i + 1 by omega,
        List.getElem?_cons_succ, getElem?_chunksFrom, Nat.zero_add] at hi
      split at hi
      · cases hi
        exact ⟨rfl, rfl⟩
      · contradiction
    | succ j' =>
      rw [List.getElem?_cons_succ, getElem?_chunksFrom] at hj
      split at hj <;> cases hj

theorem RepliesOnly.append (hl : RepliesOnly sha256 l) (hreply : Reply fine sha256 rel st here l') :
    RepliesOnly sha256 (l ++ l') := by
  refine ⟨fun msg hmsg => ?_, fun j rel' info n hj => ?_⟩
  · rcases List.mem_append.mp hmsg with hmem | hmem
    · exact hl.only msg hmem
    · exact hreply.only hmem
  · rcases Nat.lt_or_ge j l.length with hlt | hge
    · rw [List.getElem?_append_left hlt] at hj
      obtain ⟨f, hf⟩ := hl.replies j rel' info n hj
      exact ⟨f, hf.append hreply.head_ne⟩
    · obtain ⟨j', rfl⟩ := Nat.exists_eq_add_of_le hge
      rw [List.getElem?_append_right hge, Nat.add_sub_cancel_left] at hj
      exact hreply.replyAt l hj

end Stream

/-- The response at `j` announces a file at `p` with the size and the hash of these bytes, which are
the chunks that follow it, from the first to the last. Nothing is hashed for an empty file. -/
def Announced (sha256 : List UInt8 → List UInt8) (l : List SyncMsg) (j : Nat)
    (p bytes : List UInt8) : Prop :=
  ∃ info n, l[j]? = some (.fetchResp p info n 0) ∧ bytes.length = info.fileSize ∧
    (0 < info.fileSize → sha256 bytes = info.sha256) ∧
    ∃ chunk : Nat → List UInt8, bytes = (List.range n).flatMap chunk ∧
      (0 < info.fileSize → ∀ i < n, l[j + 1 + i]? = some (.fileData i (chunk i)))

section Announced
variable {sha256 : List UInt8 → List UInt8} {l l' : List SyncMsg} {j n : Nat} {p : List UInt8}
  {info : FileInfo} {f : FileData}

theorem getElem?_append_of_some {i : Nat} {msg : SyncMsg} (hi : l[i]? = some msg) :
    (l ++ l')[i]? = some msg :=
  (List.getElem?_append_left (List.getElem?_eq_some_iff.mp hi).1).trans hi

theorem Announced.append {bytes : List UInt8} (h : Announced sha256 l j p bytes) :
    Announced sha256 (l ++ l') j p bytes := by
  obtain ⟨info, n, hresp, hlen, hsha, chunk, hbytes, hchunks⟩ := h
  exact ⟨info, n, getElem?_append_of_some hresp, hlen, hsha, chunk, hbytes,
    fun hpos i hi => getElem?_append_of_some (hchunks hpos i hi)⟩

theorem ReplyAt.announced (hreply : ReplyAt sha256 l j p info n f) (hpos : 0 < f.bytes.length)
    (hlimit : f.bytes.length < fetchLimit)
    (hchunks : ∀ i < n, l[j + 1 + i]? = some (.fileData i (piece odlSyncChunkSize f.bytes i))) :
    Announced sha256 l j p f.bytes := by
  obtain ⟨hresp, rfl, rfl, -⟩ := hreply
  refine ⟨_, _, hresp, rfl, fun _ => ?_, piece odlSyncChunkSize f.bytes, ?_, fun _ => hchunks⟩
  · rw [servedInfo, if_pos hpos]
  · rw [numChunksOf_eq hpos hlimit, flatMap_pieces odlSyncChunkSize_pos]

theorem ReplyAt.announced_nil (hreply : ReplyAt sha256 l j p info n f) (hzero : f.bytes.length = 0) :
    Announced sha256 l j p [] := by
  obtain ⟨hresp, rfl, rfl, -⟩ := hreply
  have hnot : ¬ 0 < (servedInfo sha256 f).fileSize := Nat.not_lt.mpr (Nat.le_of_eq hzero)
  exact ⟨_, _, hresp, hzero.symm, fun h => absurd h hnot, fun _ => [], by simp, fun h => absurd h hnot⟩

end Announced

/-! Our side. -/

structure Receiving (sha256 : List UInt8 → List UInt8) (l : List SyncMsg) (j : Nat) (v : SyncView)
    (fd : List UInt8) (f : FileData) : Prop where
  path : v.fetch.tmpPath = some fd
  reply : ReplyAt sha256 l j v.fetch.relPath v.fetch.info v.fetch.numChunks f
  pos : 0 < f.bytes.length
  limit : f.bytes.length < fetchLimit
  got : v.fetch.chunksGot < v.fetch.numChunks
  chunks : ∀ i < v.fetch.chunksGot,
    l[j + 1 + i]? = some (.fileData i (piece odlSyncChunkSize f.bytes i))
  bytes : v.contents (resolve fd) =
    some ((List.range v.fetch.chunksGot).flatMap (piece odlSyncChunkSize f.bytes))

structure Faithful (sha256 : List UInt8 → List UInt8) (d : SyncDirs) (l : List SyncMsg) (j : Nat)
    (w : Option (List UInt8)) (v : SyncView) : Prop where
  free : v.Free
  idle : w = none → v.fetch.inProgress = false
  pending : ∀ p, w = some p → p.length ≤ 255 ∧ v.fetch.pendingPath = p
  receiving : ∀ fd, v.fetch.tmpFd = some fd → ∃ f, Receiving sha256 l j v fd f
  closed : v.fetch.inProgress = false → v.fetch.result = 0 → v.fetch.tmpFd = none
  done : ∀ p, w = some p → v.fetch.inProgress = false → v.fetch.result = 0 →
    ∃ bytes, v.contents (resolve (cachePath d p)) = some bytes ∧ Announced sha256 l j p bytes

theorem Receiving.next {sha256 : List UInt8 → List UInt8} {l : List SyncMsg} {j i : Nat}
    {v : SyncView} {fd data : List UInt8} {f : FileData} (hf : Receiving sha256 l j v fd f)
    (hk : l[j + 1 + v.fetch.chunksGot]? = some (.fileData i data)) :
    v.fetch.counted.chunksGot = v.fetch.chunksGot + 1 ∧
      (∀ i < v.fetch.chunksGot + 1,
        l[j + 1 + i]? = some (.fileData i (piece odlSyncChunkSize f.bytes i))) ∧
      (v.contents (resolve fd)).map (· ++ data) =
        some ((List.range (v.fetch.chunksGot + 1)).flatMap (piece odlSyncChunkSize f.bytes)) := by
  obtain ⟨rfl, rfl⟩ := hf.reply.next _ (fun i hi => ⟨_, _, hf.chunks i hi⟩) i data hk
  refine ⟨Nat.mod_eq_of_lt ?_, fun i hi => ?_, ?_⟩
  · have hn := numChunksOf_lt f.bytes.length
    have hgot := hf.got
    rw [hf.reply.count] at hgot
    omega
  · rcases Nat.lt_succ_iff_lt_or_eq.mp hi with hlt | rfl
    · exact hf.chunks i hlt
    · exact hk
  · rw [hf.bytes, List.range_succ, List.flatMap_append, List.flatMap_singleton]
    rfl

theorem copyPath_of_le {p : List UInt8} (hp : p.length ≤ 255) : copyPath p = p :=
  List.take_of_length_le hp

namespace Faithful
variable {sha256 : List UInt8 → List UInt8} {fine : SyncMem → SyncOp → SyncEnv → Prop}
  {d : SyncDirs} {l l' : List SyncMsg} {j k : Nat} {w : Option (List UInt8)} {v v' : SyncView}

theorem append (h : Faithful sha256 d l j w v) (hl' : ∀ c data, l'[0]? ≠ some (.fileData c data)) :
    Faithful sha256 d (l ++ l') j w v := by
  refine ⟨h.free, h.idle, h.pending, fun fd hfd => ?_, h.closed, fun p hp hover hresult => ?_⟩
  · obtain ⟨f, hf⟩ := h.receiving fd hfd
    exact ⟨f, hf.path, hf.reply.append hl', hf.pos, hf.limit, hf.got,
      fun i hi => getElem?_append_of_some (hf.chunks i hi), hf.bytes⟩
  · obtain ⟨bytes, hbytes, hann⟩ := h.done p hp hover hresult
    exact ⟨bytes, hbytes, hann.append⟩

theorem asked {p : List UInt8} {r : Option Int} (h : Faithful sha256 d l j none v)
    (hp : p.length ≤ 255) (hmay : mayFetch (v.catalog.lookup p) = true)
    (hasked : Asked fine p v v' r) :
    Faithful sha256 d l j (if r = none then some p else none) v' ∧ r ≠ some 0 := by
  cases hasked with
  | empty => exact ⟨h, by decide⟩
  | here hhere =>
    rw [hmay] at hhere
    contradiction
  | unsent =>
    refine ⟨⟨⟨h.free.fetch, h.free.tx⟩, fun _ => rfl, by simp, fun fd hfd => ?_, ?_, by simp⟩,
      by decide⟩
    · obtain ⟨f, hf⟩ := h.receiving fd hfd
      exact ⟨f, hf.path, hf.reply, hf.pos, hf.limit, hf.got, hf.chunks, hf.bytes⟩
    · exact fun _ hresult => absurd hresult (by decide : errInProgress ≠ 0)
  | sent =>
    refine ⟨⟨⟨h.free.fetch, h.free.tx⟩, by simp, ?_, fun fd hfd => ?_, ?_, ?_⟩, by simp⟩
    · rintro q hq
      cases hq
      exact ⟨hp, copyPath_of_le hp⟩
    · obtain ⟨f, hf⟩ := h.receiving fd hfd
      exact ⟨f, hf.path, hf.reply, hf.pos, hf.limit, hf.got, hf.chunks, hf.bytes⟩
    · exact fun hover => absurd hover (by simp [FetchState.asked])
    · exact fun _ _ hover => absurd hover (by simp [FetchState.asked])

theorem exists_waiting (h : Faithful sha256 d l j w v) (hwait : v.fetch.inProgress = true) :
    ∃ p, w = some p ∧ p.length ≤ 255 ∧ v.fetch.pendingPath = p := by
  cases w with
  | none =>
    rw [h.idle rfl] at hwait
    contradiction
  | some p => exact ⟨p, rfl, h.pending p rfl⟩

theorem failed {e : FetchState} {c : List Name → Option (List UInt8)} (h : Faithful sha256 d l j w v)
    (hpending : e.pendingPath = v.fetch.pendingPath) :
    Faithful sha256 d l k w {v with contents := c, fetch := e.ended errIo} := by
  refine ⟨⟨h.free.fetch, h.free.tx⟩, fun _ => rfl, ?_, by simp [FetchState.ended], fun _ _ => rfl, ?_⟩
  · rintro p rfl
    exact ⟨(h.pending p rfl).1, hpending.trans (h.pending p rfl).2⟩
  · exact fun _ _ _ hresult => absurd hresult (by decide : errIo ≠ 0)

theorem arrived {e : FetchState} {c : List Name → Option (List UInt8)} {catalog : Catalog}
    {p bytes : List UInt8} (h : Faithful sha256 d l j w v)
    (hpending : e.pendingPath = v.fetch.pendingPath) (hp : v.fetch.pendingPath = p)
    (hbytes : c (resolve (cachePath d p)) = some bytes) (hann : Announced sha256 l k p bytes) :
    Faithful sha256 d l k w {v with contents := c, catalog := catalog, fetch := e.ended 0} := by
  refine ⟨⟨h.free.fetch, h.free.tx⟩, fun _ => rfl, ?_, by simp [FetchState.ended], fun _ _ => rfl, ?_⟩
  · rintro q rfl
    exact ⟨(h.pending q rfl).1, hpending.trans (h.pending q rfl).2⟩
  · rintro q rfl - -
    obtain rfl := hp.symm.trans (h.pending q rfl).2
    exact ⟨bytes, hbytes, hann⟩

theorem opened {rel : List UInt8} {info : FileInfo} {n : Nat} (h : Faithful sha256 d l j w v)
    (hl : RepliesOnly sha256 l) (hk : l[k]? = some (.fetchResp rel info n 0))
    (hlimit : info.fileSize < fetchLimit)
    (hmove : ∀ m old new x, fine m (.rename old new) x → ¬ Unmoved old new m x)
    (hwait : v.fetch.inProgress = true) (hrel : v.fetch.pendingPath = rel)
    (hopened : Opened fine d rel info n v v') : Faithful sha256 d l k w v' := by
  obtain ⟨p, rfl, hp, hpending⟩ := h.exists_waiting hwait
  obtain rfl := hpending.symm.trans hrel
  have hcopy : copyPath p = p := copyPath_of_le hp
  obtain ⟨f, hf⟩ := hl.replies k p info n hk
  have hsize : info.fileSize = f.bytes.length := by rw [hf.info]; rfl
  rw [hsize] at hlimit
  cases hopened with
  | unmade => exact h.failed (v := v) rfl
  | @waiting tmp hnew hmore =>
    rw [not_or, hsize] at hmore
    refine ⟨⟨h.free.fetch, h.free.tx⟩, by simp, ?_, ?_, ?_, ?_⟩
    · rintro q hq
      cases hq
      exact ⟨hp, hpending⟩
    · rintro fd hfd
      cases hfd
      refine ⟨f, rfl, ?_, Nat.pos_of_ne_zero hmore.2, hlimit, Nat.pos_of_ne_zero hmore.1, ?_, ?_⟩
      · rw [← hcopy] at hf
        exact hf
      · exact fun i hi => absurd hi (Nat.not_lt_zero i)
      · exact update_self _ _ _
    · exact fun hover => absurd (hwait.symm.trans hover) (by simp)
    · exact fun _ _ hover => absurd (hwait.symm.trans hover) (by simp)
  | @complete tmp ok c hnew hnone hmoved =>
    -- the number of chunks is zero only if there are too many to count
    have hzero : f.bytes.length = 0 := by
      by_contra hne
      have hpos := Nat.pos_of_ne_zero hne
      have hn : 0 < n := by
        rw [hf.count, numChunksOf_eq hpos hlimit]
        exact count_pos odlSyncChunkSize_pos hpos
      omega
    cases hmoved with
    | moved =>
      refine h.arrived rfl hpending ?_ (hf.announced_nil hzero)
      rw [hcopy, update_self, update_self]
    | unmoved hfine hun => exact absurd hun (hmove _ _ _ _ hfine)

theorem responded {rel : List UInt8} {info : FileInfo} {n status : Nat}
    (h : Faithful sha256 d l j w v) (hl : RepliesOnly sha256 l)
    (hk : l[k]? = some (.fetchResp rel info n status))
    (hlimit : status ≠ 0 ∨ info.fileSize < fetchLimit)
    (hmove : ∀ m old new x, fine m (.rename old new) x → ¬ Unmoved old new m x)
    (hresp : Responded fine d rel info n v status v') :
    Faithful sha256 d l (if v.fetch.inProgress && decide (v.fetch.pendingPath = rel) &&
      decide (status = 0) then k else j) w v' := by
  cases hresp with
  | ignored hother =>
    have hno : (v.fetch.inProgress && decide (v.fetch.pendingPath = rel)) = false := by
      rcases hother with hidle | hne
      · simp [hidle]
      · simp [hne]
    simpa [hno] using h
  | refused hwait hstatus hresult =>
    rw [decide_eq_false hstatus, Bool.and_false]
    refine ⟨⟨h.free.fetch, h.free.tx⟩, fun _ => rfl, h.pending, fun fd hfd => ?_, ?_, ?_⟩
    · obtain ⟨f, hf⟩ := h.receiving fd hfd
      exact ⟨f, hf.path, hf.reply, hf.pos, hf.limit, hf.got, hf.chunks, hf.bytes⟩
    · exact fun _ hzero => absurd hzero hresult
    · exact fun _ _ _ hzero => absurd hzero hresult
  | accepted hwait hrel hstatus hopened =>
    subst hstatus
    rw [hwait, decide_eq_true hrel, decide_eq_true rfl]
    exact h.opened hl hk (hlimit.resolve_left fun hne => hne rfl) hmove hwait hrel hopened

theorem received {data : List UInt8} {i : Nat} (h : Faithful sha256 d l j w v)
    (hk : l[k]? = some (.fileData i data))
    (hnext : v.fetch.tmpFd ≠ none → k = j + 1 + v.fetch.chunksGot ∧
      v.fetch.relPath = v.fetch.pendingPath)
    (hmove : ∀ m old new x, fine m (.rename old new) x → ¬ Unmoved old new m x)
    (hreceived : Received fine d data v v') : Faithful sha256 d l j w v' := by
  cases hreceived with
  | ignored => exact h
  | unwritten => exact h.failed rfl
  | unmoved hfine hun => exact absurd hun (hmove _ _ _ _ hfine)
  | @more fd hfd hlt =>
    obtain ⟨f, hf⟩ := h.receiving fd hfd
    obtain ⟨rfl, -⟩ := hnext (by simp [hfd])
    obtain ⟨hcount, hchunks, hwritten⟩ := hf.next hk
    have hover (hover : v.fetch.inProgress = false) (hresult : v.fetch.result = 0) : False := by
      rw [h.closed hover hresult] at hfd
      contradiction
    refine ⟨⟨h.free.fetch, h.free.tx⟩, h.idle, h.pending, ?_, fun hw hr => (hover hw hr).elim,
      fun _ _ hw hr => (hover hw hr).elim⟩
    rintro fd' hfd'
    obtain rfl := Option.some.inj (hfd.symm.trans hfd')
    rw [hcount] at hlt
    refine ⟨f, hf.path, hf.reply, hf.pos, hf.limit, ?_, ?_, ?_⟩
    · rw [hcount]
      exact hlt
    · rw [hcount]
      exact hchunks
    · rw [hcount]
      exact (update_self _ _ _).trans hwritten
  | @complete fd tmp c hfd htmp hlast hmoved =>
    obtain ⟨f, hf⟩ := h.receiving fd hfd
    obtain ⟨rfl, hrel⟩ := hnext (by simp [hfd])
    obtain ⟨hcount, hchunks, hwritten⟩ := hf.next hk
    obtain rfl := Option.some.inj (hf.path.symm.trans htmp)
    rw [hcount] at hlast
    have hall : v.fetch.chunksGot + 1 = v.fetch.numChunks := Nat.le_antisymm hf.got hlast
    cases hmoved with
    | moved =>
      split
      · rename_i hwait
        obtain ⟨p, rfl, hp, hpending⟩ := h.exists_waiting hwait
        rw [hpending] at hrel
        rw [hall] at hchunks hwritten
        refine h.arrived rfl hpending ?_ (hrel ▸ hf.reply.announced hf.pos hf.limit hchunks)
        rw [hrel, update_self, update_self, hwritten, hf.reply.count, numChunksOf_eq hf.pos hf.limit,
          flatMap_pieces odlSyncChunkSize_pos]
      · rename_i hno
        rw [Bool.not_eq_true] at hno
        refine ⟨⟨h.free.fetch, h.free.tx⟩, fun _ => hno, h.pending, by simp [FetchState.closed],
          fun _ _ => rfl, fun _ _ hover hresult => ?_⟩
        rw [h.closed hover hresult] at hfd
        contradiction

theorem collected {p : List UInt8} {r : Int} (h : Faithful sha256 d l j (some p) v)
    (hcollected : Collected fine d p v v' r) : Faithful sha256 d l j none v' ∧
      (r = 0 → ∃ bytes, (v'.contents (resolve (sharedPath d p)) = some bytes ∨
        v'.contents (resolve (cachePath d p)) = some bytes) ∧ Announced sha256 l j p bytes) := by
  cases hcollected with
  | failed hover hresult =>
    exact ⟨⟨h.free, fun _ => hover, by simp, h.receiving, h.closed, by simp⟩,
      fun hr => absurd hr hresult⟩
  | moved hover hresult hmove =>
    have hnone := h.closed hover hresult
    obtain ⟨bytes, hbytes, hann⟩ := h.done p rfl hover hresult
    refine ⟨⟨⟨h.free.fetch, h.free.tx⟩, fun _ => hover, by simp, ?_, h.closed, by simp⟩, fun _ =>
      ⟨bytes, ?_, hann⟩⟩
    · intro fd hfd
      rw [hnone] at hfd
      contradiction
    · cases hmove with
      | moved => exact .inl ((update_self _ _ _).trans hbytes)
      | unmoved => exact .inr hbytes

end Faithful

/-! Runs. -/

def steady (t : Option (Node FileData)) (_ : SyncMem) (op : SyncOp) (x : SyncEnv) : Bool :=
  (!op.looks || decide (x.target = t)) &&
    match op with
    | .read _ _ n => decide (n ≤ x.limit)
    | _ => true

def movable (m : SyncMem) (op : SyncOp) (x : SyncEnv) : Bool :=
  match op with
  | .rename old new => x.ok && (rename m.files (resolve old) (resolve new)).isSome
  | _ => true

def SyncMsg.fits : SyncMsg → Bool
  | .fetchResp _ info _ status => decide (status ≠ 0 ∨ info.fileSize < fetchLimit)
  | _ => true

namespace FetchPair

/-- A chunk for an open file is the next one after the response, which is for the path that is asked
for. -/
def inOrder (s : FetchPair) (k : Nat) : SyncMsg → Bool
  | .fileData _ _ => decide (s.a.fetch.tmpFd ≠ none → k = s.start + 1 + s.a.fetch.chunksGot ∧
      s.a.fetch.relPath = s.a.fetch.pendingPath)
  | _ => true

section Orderly
variable (sha256 : List UInt8 → List UInt8) (dA dB : SyncDirs)

/-- A file is asked for that is not here, by a path that fits its field; the peer reads it as it is;
and its chunks are taken one after the other. -/
def orderly (s : FetchPair) : FetchAct → Bool
  | .call p _ => decide (p.length ≤ 255) && mayFetch (s.a.catalog.lookup p)
  | .serve k xs => s.a.sent[k]?.all fun msg =>
      fineRun (exec sha256) (steady (xs.head?.bind (·.target))) (syncDispatch dB msg) s.b xs
  | .take k xs => s.b.sent[k]?.all fun msg =>
      msg.fits && s.inOrder k msg && fineRun (exec sha256) movable (syncDispatch dA msg) s.a xs
  | .collect _ | .edit _ => true

def StoredAsAnnounced (d : SyncDirs) (s : FetchPair) (p : List UInt8) : Prop :=
  ∃ bytes, (FileAt s.a.files (resolve (sharedPath d p)) bytes ∨
    FileAt s.a.files (resolve (cachePath d p)) bytes) ∧
    Announced sha256 s.b.sent s.start p bytes

structure Fresh (s : FetchPair) : Prop where
  freeA : s.a.Free
  freeB : s.b.Free
  sentA : s.a.sent = []
  sentB : s.b.sent = []
  waiting : s.waiting = none
  returned : s.returned = none
  idle : s.a.fetch.inProgress = false
  closed : s.a.fetch.tmpFd = none

structure Sound (s : FetchPair) : Prop where
  requests : ∀ msg ∈ s.a.sent, ∃ rel, msg = .fetchReq rel
  peer : s.b.Free
  replies : RepliesOnly sha256 s.b.sent
  ours : Faithful sha256 dA s.b.sent s.start s.waiting s.a.view
  returned : ∀ p, s.returned = some (p, 0) → s.StoredAsAnnounced sha256 dA p

end Orderly

section Runs
variable {sha256 : List UInt8 → List UInt8} {dA dB : SyncDirs} {s s' : FetchPair} {es : List Empty}

theorem Fresh.sound (hs : s.Fresh) : s.Sound sha256 dA := by
  refine ⟨by simp [hs.sentA], hs.freeB, ⟨by simp [hs.sentB], by simp [hs.sentB]⟩, ?_,
    by simp [hs.returned]⟩
  refine ⟨⟨hs.freeA.fetch, hs.freeA.tx⟩, fun _ => hs.idle, by simp [hs.waiting], ?_,
    fun _ _ => hs.closed, by simp [hs.waiting]⟩
  intro fd hfd
  rw [show s.a.view.fetch.tmpFd = none from hs.closed] at hfd
  contradiction

theorem not_unmoved {m : SyncMem} {old new : List UInt8} {x : SyncEnv}
    (hmove : movable m (.rename old new) x = true) : ¬ Unmoved old new m x := by
  rw [movable, Bool.and_eq_true, Option.isSome_iff_ne_none] at hmove
  rintro (hx | hnone)
  · rw [hmove.1] at hx
    contradiction
  · exact hmove.2 hnone

theorem Sound.call {p : List UInt8} {xs : List SyncEnv} (hs : s.Sound sha256 dA)
    (hok : s.orderly sha256 dA dB (.call p xs) = true)
    (hstep : s.step sha256 dA dB (.call p xs) = some (s', es)) : s'.Sound sha256 dA := by
  obtain ⟨hwait, m, r, fs, hfin, rfl⟩ := step_call hstep
  rw [orderly, Bool.and_eq_true, decide_eq_true_eq] at hok
  have hfine : FineRun (exec sha256) (fun _ _ _ => True) (fetchRequest p) s.a xs :=
    .of_forall fun _ _ _ _ => trivial
  have hours := hs.ours
  rw [hwait] at hours
  have hasked := (fetchRequest_leads hours.free).finish hfine hfin
  obtain ⟨hours', hr⟩ := hours.asked hok.1 hok.2 hasked
  refine ⟨?_, hs.peer, hs.replies, hours', ?_⟩
  · intro msg hmsg
    rcases hasked.mem_sent hmsg with hmem | rfl
    · exact hs.requests msg hmem
    · exact ⟨_, rfl⟩
  · intro q hq
    obtain ⟨r', rfl, heq⟩ := Option.map_eq_some_iff.mp hq
    cases heq
    exact absurd rfl hr

theorem Sound.serve {k : Nat} {xs : List SyncEnv} (hs : s.Sound sha256 dA)
    (hok : s.orderly sha256 dA dB (.serve k xs) = true)
    (hstep : s.step sha256 dA dB (.serve k xs) = some (s', es)) : s'.Sound sha256 dA := by
  obtain ⟨msg, m, fs, hk, hfin, rfl⟩ := step_serve hstep
  obtain ⟨req, rfl⟩ := hs.requests msg (List.mem_of_getElem? hk)
  rw [orderly, hk, Option.all_some] at hok
  have hsees : Sees (fun m op x => steady (xs.head?.bind (·.target)) m op x = true) s.b.files
      (sharedPath dB (copyPath req))
      (s.b.followed (sharedPath dB (copyPath req)) (xs.head?.bind (·.target))) := by
    intro m op x hfine hlooks hfiles
    unfold steady at hfine
    rw [hlooks, Bool.and_eq_true, Bool.not_true, Bool.false_or, decide_eq_true_eq] at hfine
    rw [hfine.1, SyncMem.followed, SyncMem.followed, SyncMem.nodeAt, SyncMem.nodeAt, hfiles]
  have hwhole : ReadsWhole fun m op x => steady (xs.head?.bind (·.target)) m op x = true := by
    intro m path off n x hfine
    rw [steady, Bool.and_eq_true, decide_eq_true_eq] at hfine
    exact hfine.2
  obtain ⟨l, rfl, hreply⟩ :=
    (syncHandleFetchReq_brings hs.peer hsees hwhole).finish (.of_fineRun hok) hfin
  exact ⟨hs.requests, ⟨hs.peer.fetch, hs.peer.tx⟩, hs.replies.append hreply,
    hs.ours.append hreply.head_ne, by simp⟩

theorem Sound.take {k : Nat} {xs : List SyncEnv} (hs : s.Sound sha256 dA)
    (hok : s.orderly sha256 dA dB (.take k xs) = true)
    (hstep : s.step sha256 dA dB (.take k xs) = some (s', es)) : s'.Sound sha256 dA := by
  obtain ⟨msg, m, fs, hk, hfin, rfl⟩ := step_take hstep
  rw [orderly, hk, Option.all_some, Bool.and_eq_true, Bool.and_eq_true] at hok
  obtain ⟨⟨hfits, horder⟩, hfine⟩ := hok
  have hmove (m : SyncMem) (old new : List UInt8) (x : SyncEnv) := @not_unmoved m old new x
  rcases hs.replies.only msg (List.mem_of_getElem? hk) with ⟨rel, info, n, status, rfl⟩ | ⟨i, data, rfl⟩
  · have hresp := (syncHandleFetchResp_leads hs.ours.free).finish (.of_fineRun hfine) hfin
    refine ⟨?_, hs.peer, hs.replies, ?_, by simp⟩
    · rw [show m.sent = s.a.sent from hresp.sent_eq]
      exact hs.requests
    · rw [SyncMsg.fits, decide_eq_true_eq] at hfits
      exact hs.ours.responded hs.replies hk hfits hmove hresp
  · have hreceived := (syncHandleFileData_leads hs.ours.free).finish (.of_fineRun hfine) hfin
    rw [inOrder, decide_eq_true_eq] at horder
    refine ⟨?_, hs.peer, hs.replies, ?_, by simp⟩
    · rw [show m.sent = s.a.sent from hreceived.sent_eq]
      exact hs.requests
    · exact hs.ours.received hk horder hmove hreceived

theorem Sound.collect {xs : List SyncEnv} (hs : s.Sound sha256 dA)
    (hstep : s.step sha256 dA dB (.collect xs) = some (s', es)) : s'.Sound sha256 dA := by
  obtain ⟨p, m, r, fs, hwait, hfin, rfl⟩ := step_collect hstep
  have hours := hs.ours
  rw [hwait] at hours
  have hfine : FineRun (exec sha256) (fun _ _ _ => True) (fetchMove dA p) s.a xs :=
    .of_forall fun _ _ _ _ => trivial
  have hcollected := (fetchMove_leads hours.free).finish hfine hfin
  obtain ⟨hours', hstored⟩ := hours.collected hcollected
  refine ⟨?_, hs.peer, hs.replies, hours', ?_⟩
  · rw [show m.sent = s.a.sent from hcollected.sent_eq]
    exact hs.requests
  · rintro q hq
    cases hq
    obtain ⟨bytes, hbytes, hann⟩ := hstored rfl
    exact ⟨bytes, hbytes.imp fileAt_iff.mpr fileAt_iff.mpr, hann⟩

theorem Sound.step (hs : s.Sound sha256 dA) {act : FetchAct}
    (hok : s.orderly sha256 dA dB act = true)
    (hstep : s.step sha256 dA dB act = some (s', es)) : s'.Sound sha256 dA := by
  cases act with
  | call p xs => exact hs.call hok hstep
  | serve k xs => exact hs.serve hok hstep
  | take k xs => exact hs.take hok hstep
  | collect xs => exact hs.collect hstep
  | edit t =>
    rw [step_edit hstep]
    exact ⟨hs.requests, ⟨hs.peer.fetch, hs.peer.tx⟩, hs.replies, hs.ours, by simp⟩

end Runs

end FetchPair

def twoFiles : SyncMem :=
  {plainMem with
    files := (plainFiles.insert [[115], [97]] (.file ⟨[1], 0o644, 0, true⟩)).insert [[115], [98]]
      (.file ⟨[2, 3, 4], 0o644, 0, true⟩)
    catalog := (Catalog.set ∅ [97] ⟨[97], ⟨1, 0, 0o644, false, [1]⟩, .localOnly⟩).set [98]
      ⟨[98], ⟨3, 0, 0o644, false, [2, 3, 4]⟩, .localOnly⟩}

def freshPair : FetchPair where
  a := {plainMem with
    catalog := (Catalog.set ∅ [97] ⟨[97], ⟨1, 0, 0o644, false, [1]⟩, .remote⟩).set [98]
      ⟨[98], ⟨3, 0, 0o644, false, [2, 3, 4]⟩, .remote⟩}
  b := twoFiles
  waiting := none
  returned := none
  served := 0
  taken := 0
  start := 0
  before := plainFiles

def plainAnswers : List SyncEnv := List.replicate 16 fineEnv

def fetchA : List FetchAct :=
  [.call [97] plainAnswers, .serve 0 plainAnswers, .take 0 plainAnswers, .take 1 plainAnswers,
    .collect plainAnswers]

/-- Both files, one after the other. -/
def fetchBoth : List FetchAct :=
  fetchA ++ [.call [98] plainAnswers, .serve 1 plainAnswers, .take 2 plainAnswers,
    .take 3 plainAnswers, .collect plainAnswers]

theorem freshPair_fresh : freshPair.Fresh := ⟨⟨rfl, rfl⟩, ⟨rfl, rfl⟩, rfl, rfl, rfl, rfl, rfl, rfl⟩

end OdinLink
