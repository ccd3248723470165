import OdinLink.Daemon.SyncView

/-!
# What can become of a fetch

The outcomes of each part of a fetch at the side that asks: the request, the response, a chunk, and
the move to the shared folder.
-/

namespace OdinLink

open Paths FileTree Scripts Function

namespace FetchState

def asked (f : FetchState) (p : List UInt8) : FetchState :=
  {f with pendingPath := copyPath p, inProgress := true, result := errInProgress}

def expecting (f : FetchState) (rel : List UInt8) (info : FileInfo) (n : Nat) : FetchState :=
  {f with relPath := copyPath rel, info := info, numChunks := n, chunksGot := 0}

def receiving (f : FetchState) (tmp : List UInt8) : FetchState :=
  {f with tmpFd := some tmp, tmpPath := some tmp}

def counted (f : FetchState) : FetchState := {f with chunksGot := (f.chunksGot + 1) % 2 ^ 32}

def closed (f : FetchState) : FetchState := {f with tmpFd := none, tmpPath := none}

def ended (f : FetchState) (result : Int) : FetchState :=
  {f with tmpFd := none, tmpPath := none, result := result, inProgress := false}

end FetchState

structure SyncView.Free (v : SyncView) : Prop where
  fetch : v.fetchLocked = false
  tx : v.txLocked = false

def mayFetch (ce : Option CatalogEntry) : Bool := !ce.any fun e => decide (e.location ≠ .remote)

inductive Asked (fine : SyncMem → SyncOp → SyncEnv → Prop) (p : List UInt8) (v : SyncView) :
    SyncView → Option Int → Prop where
  | empty (hp : p = []) : Asked fine p v v (some errInval)
  | here (hhere : mayFetch (v.catalog.lookup p) = false) : Asked fine p v v (some 0)
  | unsent {m : SyncMem} {x : SyncEnv} (hfine : fine m (.send (.fetchReq (copyPath p))) x)
      (hx : x.ok = false) :
      Asked fine p v {v with fetch := {v.fetch.asked p with inProgress := false}} (some errIo)
  | sent (hp : p ≠ []) (hmay : mayFetch (v.catalog.lookup p) = true) :
      Asked fine p v
        {v with fetch := v.fetch.asked p, sent := v.sent ++ [.fetchReq (copyPath p)]} none

inductive MovedTo (fine : SyncMem → SyncOp → SyncEnv → Prop) (old new : List UInt8)
    (c : List Name → Option (List UInt8)) : Bool → (List Name → Option (List UInt8)) → Prop where
  | moved : MovedTo fine old new c true
      (update (update c (resolve old) none) (resolve new) (c (resolve old)))
  | unmoved {m : SyncMem} {x : SyncEnv} (hfine : fine m (.rename old new) x)
      (hun : Unmoved old new m x) : MovedTo fine old new c false c

section Resp
variable (fine : SyncMem → SyncOp → SyncEnv → Prop) (d : SyncDirs) (rel : List UInt8)
  (info : FileInfo) (n : Nat) (v : SyncView)

inductive Opened : SyncView → Prop where
  | unmade {m : SyncMem} {x : SyncEnv} (hfine : fine m (.mkstemp d.cache) x)
      (hun : Unmade d.cache m x) :
      Opened {v with fetch := (v.fetch.expecting rel info n).ended errIo}
  | waiting {tmp : List UInt8} (hnew : v.contents (resolve tmp) = none)
      (hmore : ¬ (n = 0 ∨ info.fileSize = 0)) :
      Opened {v with contents := update v.contents (resolve tmp) (some []),
                     fetch := (v.fetch.expecting rel info n).receiving tmp}
  | complete {tmp : List UInt8} {ok : Bool} {c : List Name → Option (List UInt8)}
      (hnew : v.contents (resolve tmp) = none) (hnone : n = 0 ∨ info.fileSize = 0)
      (hmove : MovedTo fine tmp (cachePath d (copyPath rel))
        (update v.contents (resolve tmp) (some [])) ok c) :
      Opened {v with contents := c, catalog := v.catalog.markCached (copyPath rel),
                     fetch := (v.fetch.expecting rel info n).ended 0}

inductive Responded (status : Nat) : SyncView → Prop where
  | ignored (hother : v.fetch.inProgress = false ∨ v.fetch.pendingPath ≠ rel) : Responded status v
  | refused {result : Int} (hwait : v.fetch.inProgress = true) (hstatus : status ≠ 0)
      (hresult : result ≠ 0) :
      Responded status {v with fetch := {v.fetch with result := result, inProgress := false}}
  | accepted {v' : SyncView} (hwait : v.fetch.inProgress = true) (hrel : v.fetch.pendingPath = rel)
      (hstatus : status = 0) (hopened : Opened fine d rel info n v v') : Responded status v'

end Resp

section Chunk
variable (fine : SyncMem → SyncOp → SyncEnv → Prop) (d : SyncDirs) (data : List UInt8) (v : SyncView)

inductive Received : SyncView → Prop where
  | ignored (hno : v.fetch.tmpFd = none ∨ v.fetch.tmpPath = none) : Received v
  | unwritten {fd : List UInt8} {m : SyncMem} {x : SyncEnv} {c : List Name → Option (List UInt8)}
      (hfine : fine m (.write fd data) x) (hx : x.ok = false) :
      Received {v with contents := c, fetch := v.fetch.ended errIo}
  | more {fd : List UInt8} (hfd : v.fetch.tmpFd = some fd)
      (hlt : v.fetch.counted.chunksGot < v.fetch.numChunks) :
      Received {v with
        contents := update v.contents (resolve fd) ((v.contents (resolve fd)).map (· ++ data)),
        fetch := v.fetch.counted}
  | complete {fd tmp : List UInt8} {c : List Name → Option (List UInt8)}
      (hfd : v.fetch.tmpFd = some fd) (htmp : v.fetch.tmpPath = some tmp)
      (hlast : v.fetch.numChunks ≤ v.fetch.counted.chunksGot)
      (hmove : MovedTo fine tmp (cachePath d v.fetch.relPath)
        (update v.contents (resolve fd) ((v.contents (resolve fd)).map (· ++ data))) true c) :
      Received {v with contents := c, catalog := v.catalog.markCached v.fetch.relPath,
                       fetch := if v.fetch.inProgress then v.fetch.counted.ended 0
                        else v.fetch.counted.closed}
  | unmoved {tmp : List UInt8} {m : SyncMem} {x : SyncEnv} {c : List Name → Option (List UInt8)}
      (hfine : fine m (.rename tmp (cachePath d v.fetch.relPath)) x)
      (hun : Unmoved tmp (cachePath d v.fetch.relPath) m x) :
      Received {v with contents := c, fetch := v.fetch.counted.ended errIo}

end Chunk

inductive Collected (fine : SyncMem → SyncOp → SyncEnv → Prop) (d : SyncDirs) (p : List UInt8)
    (v : SyncView) : SyncView → Int → Prop where
  | failed (hover : v.fetch.inProgress = false) (hresult : v.fetch.result ≠ 0) :
      Collected fine d p v v v.fetch.result
  | moved {ok : Bool} {c : List Name → Option (List UInt8)} (hover : v.fetch.inProgress = false)
      (hresult : v.fetch.result = 0)
      (hmove : MovedTo fine (cachePath d p) (sharedPath d p) v.contents ok c) :
      Collected fine d p v
        {v with contents := c, catalog := if ok then v.catalog.markBoth p else v.catalog} 0

section Sent
variable {fine : SyncMem → SyncOp → SyncEnv → Prop} {d : SyncDirs} {p rel : List UInt8}
  {info : FileInfo} {n status : Nat} {v v' : SyncView}

theorem Asked.mem_sent {r : Option Int} {msg : SyncMsg} (hasked : Asked fine p v v' r)
    (hmsg : msg ∈ v'.sent) : msg ∈ v.sent ∨ msg = .fetchReq (copyPath p) := by
  cases hasked with
  | empty | here | unsent => exact .inl hmsg
  | sent =>
    rcases List.mem_append.mp hmsg with hmem | hmem
    · exact .inl hmem
    · exact .inr (List.mem_singleton.mp hmem)

theorem Responded.sent_eq (hresp : Responded fine d rel info n v status v') : v'.sent = v.sent := by
  cases hresp with
  | ignored | refused => rfl
  | accepted _ _ _ hopened => cases hopened <;> rfl

theorem Received.sent_eq {data : List UInt8} (hreceived : Received fine d data v v') :
    v'.sent = v.sent := by
  cases hreceived <;> rfl

theorem Collected.sent_eq {r : Int} (hcollected : Collected fine d p v v' r) : v'.sent = v.sent := by
  cases hcollected <;> rfl

theorem Asked.free {r : Option Int} (hasked : Asked fine p v v' r) (hv : v.Free) : v'.Free := by
  cases hasked <;> exact ⟨hv.fetch, hv.tx⟩

theorem Responded.free (hresp : Responded fine d rel info n v status v') (hv : v.Free) : v'.Free := by
  cases hresp with
  | ignored => exact hv
  | refused => exact ⟨hv.fetch, hv.tx⟩
  | accepted _ _ _ hopened => cases hopened <;> exact ⟨hv.fetch, hv.tx⟩

theorem Received.free {data : List UInt8} (hreceived : Received fine d data v v') (hv : v.Free) :
    v'.Free := by
  cases hreceived <;> exact ⟨hv.fetch, hv.tx⟩

theorem Collected.free {r : Int} (hcollected : Collected fine d p v v' r) (hv : v.Free) : v'.Free := by
  cases hcollected <;> exact ⟨hv.fetch, hv.tx⟩

end Sent

section Handlers
variable {sha256 : List UInt8 → List UInt8} {fine : SyncMem → SyncOp → SyncEnv → Prop}
  {d : SyncDirs} {p rel : List UInt8} {info : FileInfo} {n status : Nat} {v : SyncView}
  {α : Type} {Q : SyncView → α → Prop}

theorem leads_move {old new : List UInt8} {f : Bool → Sync α}
    (hf : ∀ ok c, MovedTo fine old new v.contents ok c → Leads sha256 fine Q (f ok) (v.holding c)) :
    Leads sha256 fine Q (syncOp (.rename old new) >>= f) v :=
  leads_rename (hf _ _ .moved) fun _ _ hfine hun => hf _ _ (.unmoved hfine hun)

theorem fetchRequest_leads (hv : v.Free) :
    Leads sha256 fine (Asked fine p v) (fetchRequest p) v := by
  obtain ⟨c, catalog, f, _, _, sent⟩ := v
  obtain ⟨rfl, rfl⟩ := hv
  rw [fetchRequest]
  split
  · exact leads_pure (.empty ‹_›)
  refine leads_lookup ?_
  split
  · rename_i hhere
    exact leads_pure (.here (congrArg (!·) hhere))
  rename_i hp hmay
  refine leads_lockFetch fun _ => leads_getFetch <| leads_setFetch <| leads_unlockFetch <|
    leads_lockTx fun _ => leads_send ?_ fun m x hfine hx => ?_
  · exact leads_unlockTx (leads_pure (.sent hp (congrArg (!·) (Bool.eq_false_iff.mpr hmay))))
  · exact leads_unlockTx <| leads_lockFetch fun _ => leads_getFetch <| leads_setFetch <|
      leads_unlockFetch (leads_pure (.unsent hfine hx))

theorem finishEmpty_leads {tmp : List UInt8} {Q : SyncView → Unit → Prop}
    (hQ : ∀ ok c, MovedTo fine tmp (cachePath d v.fetch.relPath) v.contents ok c →
      Q {v with contents := c, catalog := v.catalog.markCached v.fetch.relPath,
                fetch := v.fetch.ended 0} ()) :
    Leads sha256 fine Q (finishEmpty d v.fetch tmp) v := by
  refine leads_setFetch <| leads_mkdir fun _ => leads_move fun ok c hmove => ?_
  refine leads_bind
    (R := fun v' _ => v' = {v with contents := c, fetch := {v.fetch with tmpFd := none}})
    (leads_when (fun _ => leads_last (leads_chmod (leads_pure rfl))) fun _ => rfl) ?_
  rintro _ _ rfl
  exact leads_setFetch <| leads_markCached <| leads_last <| leads_setFetch <|
    leads_pure (hQ ok c hmove)

theorem startReceive_leads {Q : SyncView → Unit → Prop}
    (hQ : ∀ v', Opened fine d rel info n v v' → Q v' ()) :
    Leads sha256 fine Q (startReceive d (v.fetch.expecting rel info n) rel) v := by
  refine leads_setFetch <| leads_mkdir fun _ =>
    leads_mkstemp (fun x _ hnew => ?_) fun m x hfine hun => ?_
  · refine leads_setFetch <| leads_when (fun hnone => ?_) fun hmore => hQ _ (.waiting hnew hmore)
    exact finishEmpty_leads (v := {v with
      contents := update v.contents (resolve (tmpIn d.cache x)) (some [])
      fetch := (v.fetch.expecting rel info n).receiving (tmpIn d.cache x)})
      fun ok c hmove => hQ _ (.complete hnew hnone hmove)
  · exact leads_last <| leads_setFetch <| leads_pure (hQ _ (.unmade hfine hun))

theorem Opened.unlock {v' : SyncView} (hopened : Opened fine d rel info n v v') :
    Opened fine d rel info n {v with fetchLocked := false} {v' with fetchLocked := false} := by
  cases hopened with
  | unmade hfine hun => exact .unmade hfine hun
  | waiting hnew hmore => exact .waiting (v := {v with fetchLocked := false}) hnew hmore
  | complete hnew hnone hmove =>
    exact .complete (v := {v with fetchLocked := false}) hnew hnone hmove

theorem syncHandleFetchResp_leads (hv : v.Free) :
    Leads sha256 fine (fun v' _ => Responded fine d rel info n v status v')
      (syncHandleFetchResp d rel info n status) v := by
  obtain ⟨c, catalog, f, _, _, sent⟩ := v
  obtain ⟨rfl, rfl⟩ := hv
  refine leads_lockFetch fun _ => leads_getFetch ?_
  split
  · rename_i hother
    exact leads_last <| leads_unlockFetch <| leads_pure (.ignored hother)
  rename_i hmine
  rw [not_or, Bool.not_eq_false, not_not] at hmine
  split
  · rename_i hstatus
    refine leads_setFetch <| leads_last <| leads_unlockFetch <| leads_pure (.refused hmine.1 hstatus ?_)
    split <;> decide
  · rename_i hstatus
    refine leads_bind (R := fun v' _ => Opened fine d rel info n ⟨c, catalog, f, true, false, sent⟩ v')
      (startReceive_leads (v := ⟨c, catalog, f, true, false, sent⟩) fun _ hopened => hopened) ?_
    intro v' _ hopened
    exact leads_last <| leads_unlockFetch <| leads_pure
      (.accepted hmine.1 hmine.2 (not_not.mp hstatus) hopened.unlock)

theorem dropTmp_leads {f : FetchState} {tmp : List UInt8} {Q : SyncView → Unit → Prop}
    (hQ : ∀ c, Q {v with contents := c, fetch := f.ended errIo} ()) :
    Leads sha256 fine Q (dropTmp f tmp) v :=
  leads_unlink (leads_last <| leads_setFetch <| leads_pure (hQ _))
    (leads_last <| leads_setFetch <| leads_pure (hQ _))

theorem finishFetch_leads {tmp : List UInt8} {Q : SyncView → Unit → Prop}
    (hmoved : ∀ c, MovedTo fine tmp (cachePath d v.fetch.relPath) v.contents true c →
      Q {v with contents := c, catalog := v.catalog.markCached v.fetch.relPath,
                fetch := if v.fetch.inProgress then v.fetch.ended 0 else v.fetch.closed} ())
    (hunmoved : ∀ m x c, fine m (.rename tmp (cachePath d v.fetch.relPath)) x →
      Unmoved tmp (cachePath d v.fetch.relPath) m x →
      Q {v with contents := c, fetch := v.fetch.ended errIo} ()) :
    Leads sha256 fine Q (finishFetch d v.fetch tmp) v := by
  refine leads_setFetch <| leads_mkdir fun _ => leads_rename ?_ fun m x hfine hun => ?_
  · rw [if_pos rfl]
    refine leads_bind (R := fun v' _ => v' = {v with
      contents := update (update v.contents (resolve tmp) none)
        (resolve (cachePath d v.fetch.relPath)) (v.contents (resolve tmp))
      fetch := {v.fetch with tmpFd := none}})
      (leads_when (fun _ => leads_last (leads_chmod (leads_pure rfl))) fun _ => rfl) ?_
    rintro _ _ rfl
    have hQ := hmoved _ .moved
    refine leads_utimens <| leads_setFetch <| leads_markCached <|
      leads_when (fun hwait => ?_) fun hno => ?_
    · rw [if_pos hwait] at hQ
      exact leads_last <| leads_setFetch <| leads_pure hQ
    · rwa [if_neg hno] at hQ
  · exact dropTmp_leads (v := {v with fetch := {v.fetch with tmpFd := none}})
      fun c => hunmoved m x c hfine hun

theorem writeSome_leads {fd data : List UInt8} {f : Bool → Sync α}
    (hok : Leads sha256 fine Q (f true) (v.holding
      (update v.contents (resolve fd) ((v.contents (resolve fd)).map (· ++ data)))))
    (hfail : ∀ m x, fine m (.write fd data) x → x.ok = false → Leads sha256 fine Q (f false) v) :
    Leads sha256 fine Q (writeSome fd data >>= f) v := by
  rw [writeSome]
  split
  · exact leads_write hok hfail
  · rename_i hempty
    rw [Nat.pos_iff_ne_zero, not_not, List.length_eq_zero_iff] at hempty
    simpa [hempty, SyncView.holding] using hok

theorem Received.unlock {data : List UInt8} {v' : SyncView} (hreceived : Received fine d data v v') :
    Received fine d data {v with fetchLocked := false} {v' with fetchLocked := false} := by
  cases hreceived with
  | ignored hno => exact .ignored hno
  | unwritten hfine hx => exact .unwritten (v := {v with fetchLocked := false}) hfine hx
  | more hfd hlt => exact .more (v := {v with fetchLocked := false}) hfd hlt
  | complete hfd htmp hlast hmove =>
    exact .complete (v := {v with fetchLocked := false}) hfd htmp hlast hmove
  | unmoved hfine hun => exact .unmoved (v := {v with fetchLocked := false}) hfine hun

theorem syncHandleFileData_leads {data : List UInt8} (hv : v.Free) :
    Leads sha256 fine (fun v' _ => Received fine d data v v') (syncHandleFileData d data) v := by
  obtain ⟨c, catalog, f, _, _, sent⟩ := v
  obtain ⟨rfl, rfl⟩ := hv
  refine leads_lockFetch fun _ => leads_getFetch ?_
  split
  · rename_i fd tmp hfd htmp
    refine leads_bind
      (R := fun v' _ => Received fine d data ⟨c, catalog, f, true, false, sent⟩ v') ?_ ?_
    · refine writeSome_leads ?_ fun m x hfine hx => ?_
      · rw [if_pos rfl]
        refine leads_setFetch <| leads_when (fun hlast => ?_) fun hmore => ?_
        · exact finishFetch_leads (v := ⟨_, catalog, f.counted, true, false, sent⟩)
            (fun c hmove => .complete hfd htmp hlast hmove)
            (fun m x c hfine hun => .unmoved hfine hun)
        · exact .more hfd (Nat.lt_of_not_le hmore)
      · exact dropTmp_leads (v := ⟨_, catalog, f, true, false, sent⟩) fun c => .unwritten hfine hx
    · intro v' _ hreceived
      exact leads_last <| leads_unlockFetch <| leads_pure hreceived.unlock
  · rename_i hno
    refine leads_last <| leads_unlockFetch <| leads_pure (.ignored ?_)
    by_contra hboth
    rw [not_or] at hboth
    obtain ⟨fd, hfd⟩ := Option.ne_none_iff_exists'.mp hboth.1
    obtain ⟨tmp, htmp⟩ := Option.ne_none_iff_exists'.mp hboth.2
    exact hno fd tmp hfd htmp

theorem fetchMove_leads (hv : v.Free) :
    Leads sha256 fine (Collected fine d p v) (fetchMove d p) v := by
  obtain ⟨c, catalog, f, _, _, sent⟩ := v
  obtain ⟨rfl, rfl⟩ := hv
  refine leads_awaitFetch fun _ hover => leads_getFetch <| leads_unlockFetch ?_
  by_cases hresult : f.result = 0
  · refine leads_bind (R := fun v' _ => Collected fine d p ⟨c, catalog, f, false, false, sent⟩ v' 0)
      (leads_when (fun _ => ?_) fun hno => absurd hresult hno) ?_
    · refine leads_suppressAdd <| leads_bind (R := fun v' _ => v' = ⟨c, catalog, f, false, false, sent⟩)
        (unlinkLink_leads rfl) ?_
      rintro _ _ rfl
      refine leads_mkdir fun _ => leads_move fun ok c' hmove => ?_
      have hend := Collected.moved hover hresult hmove
      cases ok with
      | true =>
        exact leads_when (fun _ => leads_last (leads_markBoth (leads_pure hend))) fun h =>
          absurd rfl h
      | false => exact leads_when (fun h => absurd h (by simp)) fun _ => hend
    · intro v' _ hend
      exact leads_pure (hresult ▸ hend)
  · refine leads_bind (R := fun v' _ => v' = ⟨c, catalog, f, false, false, sent⟩)
      (leads_when (fun h => absurd h hresult) fun _ => rfl) ?_
    rintro _ _ rfl
    exact leads_pure (.failed hover hresult)

end Handlers

end OdinLink
