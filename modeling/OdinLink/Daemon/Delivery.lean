import OdinLink.Daemon.Frames
import OdinLink.Daemon.SyncEngine

/-!
# Handlers that run to their end

A handler takes a lock only while it holds none of that kind, gives back what it took and waits for
nothing else, so it comes to its end whenever the locks are free.
-/

namespace OdinLink

open Paths FileTree Scripts

section Rule
variable (may : SyncMsg → Prop)

def lockAllows (g : Locks) : SyncOp → Prop
  | .lockFetch => g.fetch = false
  | .lockTx => g.tx = false
  | .awaitFetch => False
  | .send msg => may msg
  | _ => True

def Locks.learn (g : Locks) : SyncOp → Locks
  | .lockFetch => {g with fetch := true}
  | .unlockFetch => {g with fetch := false}
  | .lockTx => {g with tx := true}
  | .unlockTx => {g with tx := false}
  | _ => g

def lockRule : Rule SyncOp SyncOp.Res Locks :=
  .ofLearn (lockAllows may) (fun _ _ => True) (fun g op _ => g.learn op)

end Rule

def SyncOp.Mild (may : SyncMsg → Prop) : SyncOp → Prop
  | .lockFetch | .unlockFetch | .lockTx | .unlockTx | .awaitFetch => False
  | .send msg => may msg
  | _ => True

section Handlers
variable {may : SyncMsg → Prop} {d : SyncDirs} {rel : List UInt8}

theorem SyncOp.Mild.allows {op : SyncOp} (hop : op.Mild may) (g : Locks) :
    lockAllows may g op ∧ g.learn op = g := by
  cases op with
  | lockFetch | unlockFetch | lockTx | unlockTx | awaitFetch => exact hop.elim
  | send => exact ⟨hop, rfl⟩
  | _ => exact ⟨trivial, rfl⟩

theorem follows_of_mild {α : Type} {p : Sync α} {g : Locks} {Q : Locks → α → Prop}
    (hp : AllOps (SyncOp.Mild may) p) (hQ : ∀ a, Q g a) : Follows (lockRule may) Q p g := by
  induction p with
  | pure a => exact hQ a
  | call op k ih =>
    obtain ⟨hallows, hlearn⟩ := hp.1.allows g
    refine .op hallows fun r _ => ?_
    rw [hlearn]
    exact ih r (hp.2 r)

theorem follows_bind_mild {α β : Type} {p : Sync α} {f : α → Sync β} {g : Locks}
    {Q : Locks → β → Prop} (hp : AllOps (SyncOp.Mild may) p)
    (hf : ∀ a, Follows (lockRule may) Q (f a) g) : Follows (lockRule may) Q (p >>= f) g :=
  follows_bind.mpr (follows_of_mild hp hf)

theorem unlinkLink_mild {path : List UInt8} : AllOps (SyncOp.Mild may) (unlinkLink path) :=
  unlinkLink_ops trivial trivial

theorem syncCreateRemoteSymlink_mild : AllOps (SyncOp.Mild may) (syncCreateRemoteSymlink d rel) :=
  .op trivial fun _ => .op trivial fun _ => .bind (.when (.op trivial fun _ => trivial))
    fun _ => .op trivial fun _ => .op trivial fun _ => trivial

theorem syncRemoveRemoteSymlink_mild : AllOps (SyncOp.Mild may) (syncRemoveRemoteSymlink d rel) :=
  .op trivial fun _ => unlinkLink_mild

theorem watchIfOn_mild : AllOps (SyncOp.Mild may) (watchIfOn d rel) :=
  .op trivial fun _ => .when (.lastOp trivial)

theorem unwatchIfOn_mild : AllOps (SyncOp.Mild may) (unwatchIfOn rel) :=
  .op trivial fun _ => .when (.lastOp trivial)

end Handlers

def Ends (may : SyncMsg → Prop) (p : Sync Unit) : Prop :=
  Follows (lockRule may) (fun g _ => g = .none) p .none

section Dispatch
variable {may : SyncMsg → Prop} {d : SyncDirs} {rel : List UInt8} {info : FileInfo}
  {numChunks status : Nat}

theorem Ends.of_mild {p : Sync Unit} (hp : AllOps (SyncOp.Mild may) p) : Ends may p :=
  follows_of_mild hp fun _ => rfl

theorem syncExchangeCatalog_ends (hreq : may .syncReq)
    (hentry : ∀ rel info, may (.listingEntry rel info)) (hend : may .listingEnd) :
    Ends may syncExchangeCatalog := by
  refine .op rfl fun _ _ => .op hreq fun _ _ => follows_bind_mild (.when ?_) ?_
  · exact .op trivial fun _ => .bind (sendListing_ops hentry) fun _ => .op hend fun _ => trivial
  · exact fun _ => .lastOp trivial fun _ _ => rfl

theorem syncHandleListingEnd_ends : Ends may (syncHandleListingEnd d) := by
  refine .op trivial fun l _ => ?_
  split
  · exact rfl
  · exact .op trivial fun _ _ => follows_bind_mild (linkListing_ops (fun _ => trivial)
      fun _ => syncCreateRemoteSymlink_mild) fun _ =>
      .lastOp trivial fun _ _ => rfl

theorem refuseFetch_ends (hmay : may (.fetchResp rel noInfo 0 status)) :
    Ends may (refuseFetch rel status) :=
  .op rfl fun _ _ => .op hmay fun _ _ => .lastOp trivial fun _ _ => rfl

theorem syncHandleFetchReq_ends (hresp : ∀ rel info n st, may (.fetchResp rel info n st))
    (hdata : ∀ i data, may (.fileData i data)) : Ends may (syncHandleFetchReq d rel) := by
  refine .op trivial fun ce _ => ?_
  split
  · refine .op trivial fun st _ => ?_
    split
    · refine follows_bind_mild (sha256Of_ops trivial) fun sha => .op trivial fun opened _ => ?_
      split
      · exact .op rfl fun _ _ => .op (hresp _ _ _ _) fun _ _ =>
          follows_bind_mild (.when (serveChunks_ops (fun _ _ _ => trivial) hdata)) fun _ =>
            .lastOp trivial fun _ _ => rfl
      · exact refuseFetch_ends (hresp _ _ _ _)
    · exact refuseFetch_ends (hresp _ _ _ _)
  · exact refuseFetch_ends (hresp _ _ _ _)

theorem finishEmpty_mild {f : FetchState} {tmp : List UInt8} :
    AllOps (SyncOp.Mild may) (finishEmpty d f tmp) :=
  .op trivial fun _ => .op trivial fun _ => .op trivial fun _ => .bind (.when (.lastOp trivial))
    fun _ => .op trivial fun _ => .op trivial fun _ => .lastOp trivial

theorem startReceive_mild {f : FetchState} : AllOps (SyncOp.Mild may) (startReceive d f rel) := by
  refine .op trivial fun _ => .op trivial fun _ => .op trivial fun tmp => ?_
  cases tmp with
  | none => exact .lastOp trivial
  | some tmp => exact .op trivial fun _ => .when finishEmpty_mild

theorem syncHandleFetchResp_ends : Ends may (syncHandleFetchResp d rel info numChunks status) := by
  refine .op rfl fun _ _ => .op trivial fun f _ => ?_
  split
  · exact .lastOp trivial fun _ _ => rfl
  · split
    · exact .op trivial fun _ _ => .lastOp trivial fun _ _ => rfl
    · exact follows_bind_mild startReceive_mild fun _ => .lastOp trivial fun _ _ => rfl

theorem dropTmp_mild {f : FetchState} {tmp : List UInt8} : AllOps (SyncOp.Mild may) (dropTmp f tmp) :=
  .op trivial fun _ => .lastOp trivial

theorem finishFetch_mild {f : FetchState} {tmp : List UInt8} :
    AllOps (SyncOp.Mild may) (finishFetch d f tmp) := by
  refine .op trivial fun _ => .op trivial fun _ => .op trivial fun ok => ?_
  split
  · exact .bind (.when (.lastOp trivial)) fun _ => .op trivial fun _ => .op trivial fun _ =>
      .op trivial fun _ => .when (.lastOp trivial)
  · exact dropTmp_mild

theorem receiveChunk_mild {f : FetchState} {fd tmp data : List UInt8} :
    AllOps (SyncOp.Mild may) (receiveChunk d f fd tmp data) := by
  refine .bind (writeSome_ops trivial) fun ok => ?_
  split
  · exact .op trivial fun _ => .when finishFetch_mild
  · exact dropTmp_mild

theorem syncHandleFileData_ends {data : List UInt8} : Ends may (syncHandleFileData d data) := by
  refine .op rfl fun _ _ => .op trivial fun f _ => ?_
  split
  · exact follows_bind_mild receiveChunk_mild fun _ => .lastOp trivial fun _ _ => rfl
  · exact .lastOp trivial fun _ _ => rfl

theorem syncHandleFileMeta_ends : Ends may (syncHandleFileMeta d rel info numChunks) :=
  .op rfl fun _ _ => .op trivial fun _ _ => .op trivial fun _ _ =>
    .op trivial fun _ _ => .op trivial fun _ _ => .op trivial fun _ _ =>
      .lastOp trivial fun _ _ => rfl

theorem removeEntry_mild : AllOps (SyncOp.Mild may)
    (do syncRemoveRemoteSymlink d rel; syncOp (.catalogRemove rel) : Sync Unit) :=
  .bind syncRemoveRemoteSymlink_mild fun _ => .lastOp trivial

theorem syncHandleFileDelete_mild : AllOps (SyncOp.Mild may) (syncHandleFileDelete d rel) := by
  refine .op trivial fun ce => ?_
  split
  · trivial
  · split
    · exact removeEntry_mild
    · exact .lastOp trivial
    · exact .op trivial fun _ => removeEntry_mild
    · trivial

theorem syncHandleDirCreate_mild {mtimeNs mode : Nat} :
    AllOps (SyncOp.Mild may) (syncHandleDirCreate d rel mtimeNs mode) :=
  .op trivial fun _ => .op trivial fun _ => .when (.op trivial fun _ => watchIfOn_mild)

theorem syncHandleDirDelete_mild : AllOps (SyncOp.Mild may) (syncHandleDirDelete d rel) :=
  .op trivial fun _ => .op trivial fun _ => .when (.op trivial fun _ => unwatchIfOn_mild)

theorem sendRemoveAck_ends (hmay : ∀ rel status, may (.removeAck rel status)) :
    Ends may (sendRemoveAck rel status) :=
  .op rfl fun _ _ => .op (hmay _ _) fun _ _ => .lastOp trivial fun _ _ => rfl

theorem syncHandleRemoveReq_ends (hmay : ∀ rel status, may (.removeAck rel status)) :
    Ends may (syncHandleRemoveReq d rel) := by
  refine .op trivial fun ce _ => ?_
  split
  · exact .op trivial fun _ _ => .op trivial fun _ _ => sendRemoveAck_ends hmay
  · exact sendRemoveAck_ends hmay

theorem syncHandleRemoveAck_mild : AllOps (SyncOp.Mild may) (syncHandleRemoveAck d rel status) := by
  refine .when (.op trivial fun ce => ?_)
  split
  · trivial
  · split
    · exact .lastOp trivial
    · exact removeEntry_mild
    · trivial

theorem syncHandleFileChanged_mild : AllOps (SyncOp.Mild may) (syncHandleFileChanged d rel info) := by
  refine .op trivial fun existing => .op trivial fun _ => .when ?_
  split
  · exact .op trivial fun _ => .op trivial fun _ => watchIfOn_mild
  · exact syncCreateRemoteSymlink_mild

theorem syncHandleFileRemoved_mild {isDir : Bool} :
    AllOps (SyncOp.Mild may) (syncHandleFileRemoved d rel isDir) := by
  refine .op trivial fun ce => ?_
  split
  · trivial
  · split
    · refine .bind ?_ fun _ => .lastOp trivial
      split
      · exact .op trivial fun _ => .op trivial fun _ => unwatchIfOn_mild
      · exact syncRemoveRemoteSymlink_mild
    · exact .lastOp trivial
    · exact .op trivial fun _ => removeEntry_mild
    · trivial

end Dispatch

def SyncMsg.answers : SyncMsg → SyncMsg → Bool
  | .syncReq, .syncReq | .syncReq, .listingEntry _ _ | .syncReq, .listingEnd
  | .fetchReq _, .fetchResp _ _ _ _ | .fetchReq _, .fileData _ _
  | .removeReq _, .removeAck _ _ => true
  | _, _ => false

theorem syncDispatch_ends (d : SyncDirs) (msg : SyncMsg) :
    Ends (fun sent => msg.answers sent = true) (syncDispatch d msg) := by
  cases msg with
  | fileMeta => exact syncHandleFileMeta_ends
  | fileData => exact syncHandleFileData_ends
  | fileAck => exact .of_mild (.when (.lastOp trivial))
  | fileDelete => exact .of_mild syncHandleFileDelete_mild
  | dirCreate => exact .of_mild syncHandleDirCreate_mild
  | dirDelete => exact .of_mild syncHandleDirDelete_mild
  | syncReq => exact syncExchangeCatalog_ends rfl (fun _ _ => rfl) rfl
  | listingEntry => exact .of_mild (.op trivial fun _ => .lastOp trivial)
  | listingEnd => exact syncHandleListingEnd_ends
  | fetchReq => exact syncHandleFetchReq_ends (fun _ _ _ _ => rfl) fun _ _ => rfl
  | fetchResp => exact syncHandleFetchResp_ends
  | removeReq => exact syncHandleRemoveReq_ends fun _ _ => rfl
  | removeAck => exact .of_mild syncHandleRemoveAck_mild
  | fileChanged => exact .of_mild syncHandleFileChanged_mild
  | fileRemoved => exact .of_mild syncHandleFileRemoved_mild

section Exec
variable {m m' : SyncMem} {sha256 : List UInt8 → List UInt8} {op : SyncOp} {x : SyncEnv}
  {r : op.Res} {es : List SyncEvent}

structure Agrees (may : SyncMsg → Prop) (before : List SyncMsg) (g : Locks) (m : SyncMem) :
    Prop where
  fetch : m.fetchLocked = g.fetch
  tx : m.txLocked = g.tx
  sent : ∃ l, m.sent = before ++ l ∧ ∀ msg ∈ l, may msg

variable {may : SyncMsg → Prop} {before : List SyncMsg} {g : Locks}

theorem Agrees.of_eq (hm : Agrees may before g m) (heq : m'.locksAndSent = m.locksAndSent) :
    Agrees may before g m' := by
  simp only [SyncMem.locksAndSent, Prod.mk.injEq, Locks.mk.injEq] at heq
  obtain ⟨⟨hfetch, htx⟩, hsent⟩ := heq
  exact ⟨hfetch.trans hm.fetch, htx.trans hm.tx, hsent ▸ hm.sent⟩

theorem Agrees.exec (hm : Agrees may before g m) (hallows : lockAllows may g op)
    (hexec : OdinLink.exec sha256 m op x = some (m', r, es)) :
    Agrees may before (g.learn op) m' := by
  cases op with
  | awaitFetch => contradiction
  | lockFetch =>
    rw [OdinLink.exec, if_neg (by rw [hm.fetch, hallows]; simp)] at hexec
    cases hexec
    exact ⟨rfl, hm.tx, hm.sent⟩
  | lockTx =>
    rw [OdinLink.exec, if_neg (by rw [hm.tx, hallows]; simp)] at hexec
    cases hexec
    exact ⟨hm.fetch, rfl, hm.sent⟩
  | unlockFetch =>
    cases hexec
    exact ⟨rfl, hm.tx, hm.sent⟩
  | unlockTx =>
    cases hexec
    exact ⟨hm.fetch, rfl, hm.sent⟩
  | send msg =>
    obtain ⟨l, hl, hmay⟩ := hm.sent
    rw [OdinLink.exec] at hexec
    split at hexec <;> cases hexec
    · refine ⟨hm.fetch, hm.tx, l ++ [msg], ?_, ?_⟩
      · simp [hl]
      · intro msg' hmsg'
        rcases List.mem_append.mp hmsg' with h | h
        · exact hmay msg' h
        · rw [List.mem_singleton.mp h]
          exact hallows
    · exact hm
  | _ => exact hm.of_eq ((exec_keeps hexec).locks rfl)

theorem Agrees.exec_isSome (hm : Agrees may before g m) (hallows : lockAllows may g op)
    (hx : slash ∉ x.name) : ∃ m' r es, OdinLink.exec sha256 m op x = some (m', r, es) := by
  cases op with
  | awaitFetch => contradiction
  | lockFetch => exact ⟨_, _, _, if_neg (by rw [hm.fetch, hallows]; simp)⟩
  | lockTx => exact ⟨_, _, _, if_neg (by rw [hm.tx, hallows]; simp)⟩
  | mkstemp dir => exact ⟨_, _, _, if_neg hx⟩
  | _ => exact ⟨_, _, _, rfl⟩

end Exec

def SyncMem.sending (m : SyncMem) (l : List SyncMsg) : SyncMem := {m with sent := m.sent ++ l}

@[simp] theorem SyncMem.sending_nil (m : SyncMem) : m.sending [] = m := by
  simp [sending]

@[simp] theorem SyncMem.sending_sending (m : SyncMem) (l l' : List SyncMsg) :
    (m.sending l).sending l' = m.sending (l ++ l') := by
  simp [sending]

def Runs (sha256 : List UInt8 → List UInt8) (p : Sync Unit) (m m' : SyncMem) : Prop :=
  ∃ xs es, finish (exec sha256) p m xs = some (m', (), es)

abbrev Brings (sha256 : List UInt8 → List UInt8) (fine : SyncMem → SyncOp → SyncEnv → Prop)
    {α : Type} (Q : SyncMem → α → Prop) (p : Sync α) (m : SyncMem) : Prop :=
  Ensures (exec sha256) fine (fun _ => True) Q p m

abbrev Gives (sha256 : List UInt8 → List UInt8) {α : Type} (Q : SyncMem → α → Prop) (p : Sync α)
    (m : SyncMem) : Prop :=
  Brings sha256 (fun _ _ _ => True) Q p m

section Gives
variable {sha256 : List UInt8 → List UInt8} {fine : SyncMem → SyncOp → SyncEnv → Prop} {α : Type}
  {Q : SyncMem → α → Prop} {m m' : SyncMem}

theorem brings_op {op : SyncOp} {f : op.Res → Sync α} (hf : ∀ x m' r es, fine m op x →
    exec sha256 m op x = some (m', r, es) → Brings sha256 fine Q (f r) m') :
    Brings sha256 fine Q (syncOp op >>= f) m :=
  .inr ⟨trivial, hf⟩

theorem brings_lastOp {op : SyncOp} {Q : SyncMem → op.Res → Prop} (hQ : ∀ x m' r es, fine m op x →
    exec sha256 m op x = some (m', r, es) → Q m' r) : Brings sha256 fine Q (syncOp op) m :=
  .inr ⟨trivial, hQ⟩

theorem gives_op {op : SyncOp} {f : op.Res → Sync α} (hf : ∀ x m' r es,
    exec sha256 m op x = some (m', r, es) → Gives sha256 Q (f r) m') :
    Gives sha256 Q (syncOp op >>= f) m :=
  brings_op fun x m' r es _ hexec => hf x m' r es hexec

theorem gives_lastOp {op : SyncOp} {Q : SyncMem → op.Res → Prop}
    (hQ : ∀ x m' r es, exec sha256 m op x = some (m', r, es) → Q m' r) :
    Gives sha256 Q (syncOp op) m :=
  brings_lastOp fun x m' r es _ hexec => hQ x m' r es hexec

theorem exec_send {msg : SyncMsg} {x : SyncEnv} (hx : x.ok = true) :
    exec sha256 m (.send msg) x = some (m.sending [msg], true, []) := by
  rw [exec, if_pos hx]
  rfl

theorem gives_send {msg : SyncMsg} {f : Bool → Sync α}
    (hok : Gives sha256 Q (f true) (m.sending [msg])) (hfail : Gives sha256 Q (f false) m) :
    Gives sha256 Q (syncOp (.send msg) >>= f) m := by
  refine gives_op fun x m' ok es hexec => ?_
  cases hx : x.ok with
  | true =>
    cases (exec_send hx).symm.trans hexec
    exact hok
  | false =>
    rw [exec, if_neg (by simp [hx])] at hexec
    cases hexec
    exact hfail

theorem Runs.of_gives {Q : SyncMem → Unit → Prop} {p : Sync Unit} (hruns : Runs sha256 p m m')
    (hp : Gives sha256 Q p m) : Q m' () := by
  obtain ⟨xs, es, hfin⟩ := hruns
  exact hp.finish (.of_forall fun _ _ _ _ => trivial) hfin

end Gives

inductive Handled (d : SyncDirs) (sha256 : List UInt8 → List UInt8) :
    List SyncMsg → SyncMem → SyncMem → Prop where
  | nil (m : SyncMem) : Handled d sha256 [] m m
  | cons {msg : SyncMsg} {msgs : List SyncMsg} {m m₁ m' : SyncMem}
      (hruns : Runs sha256 (syncDispatch d msg) m m₁) (hrest : Handled d sha256 msgs m₁ m') :
      Handled d sha256 (msg :: msgs) m m'

structure SyncMem.Free (m : SyncMem) : Prop where
  fetch : m.fetchLocked = false
  tx : m.txLocked = false

section Ends
variable {may : SyncMsg → Prop} {sha256 : List UInt8 → List UInt8} {m m' : SyncMem}

section Follows
variable {α : Type} {Q : Locks → α → Prop} {p : Sync α} {g : Locks} {before : List SyncMsg}

theorem Agrees.finish {xs : List SyncEnv} {a : α} {es : List SyncEvent}
    (hm : Agrees may before g m) (hp : Follows (lockRule may) Q p g)
    (hfin : Scripts.finish (OdinLink.exec sha256) p m xs = some (m', a, es)) :
    ∃ g', Q g' a ∧ Agrees may before g' m' :=
  Follows.finish (Agrees may before) hp
    (fun _ _ _ _ _ _ _ hm hallows hexec => ⟨trivial, hm.exec hallows hexec⟩) hm hfin

variable (sha256) in
theorem Agrees.finishes (hm : Agrees may before g m) (hp : Follows (lockRule may) Q p g)
    (xs : Nat → SyncEnv) (hxs : ∀ i, slash ∉ (xs i).name) : ∃ n m' a es,
      Scripts.finish (OdinLink.exec sha256) p m ((List.range n).map xs) = some (m', a, es) :=
  Follows.finishes (Agrees may before) hxs hp (fun _ _ _ _ hm hallows hx => by
    obtain ⟨m', r, es, hexec⟩ := hm.exec_isSome hallows hx
    exact ⟨m', r, es, hexec, trivial, hm.exec hallows hexec⟩) hm

end Follows

variable {p : Sync Unit}

variable (may) in
theorem SyncMem.Free.agrees (hm : m.Free) : Agrees may m.sent .none m :=
  ⟨hm.fetch, hm.tx, [], (List.append_nil _).symm, by simp⟩

theorem Ends.runs (hp : Ends may p) (hm : m.Free) (hruns : Runs sha256 p m m') :
    m'.Free ∧ ∃ l, m'.sent = m.sent ++ l ∧ ∀ msg ∈ l, may msg := by
  obtain ⟨xs, es, hfin⟩ := hruns
  obtain ⟨g, rfl, hagree⟩ := (hm.agrees may).finish hp hfin
  exact ⟨⟨hagree.fetch, hagree.tx⟩, hagree.sent⟩

variable (sha256) in
theorem Ends.exists_runs (hp : Ends may p) (hm : m.Free) {x : SyncEnv} (hx : slash ∉ x.name) :
    ∃ m', Runs sha256 p m m' := by
  obtain ⟨n, m', a, es, hfin⟩ := (hm.agrees may).finishes sha256 hp (fun _ => x) fun _ => hx
  exact ⟨m', _, es, hfin⟩

variable (sha256) in
theorem SyncMem.Free.exists_handled (hm : m.Free) (d : SyncDirs) (msgs : List SyncMsg) :
    ∃ m', Handled d sha256 msgs m m' := by
  induction msgs generalizing m with
  | nil => exact ⟨m, .nil m⟩
  | cons msg msgs ih =>
    have hends := syncDispatch_ends d msg
    obtain ⟨m₁, hruns⟩ := hends.exists_runs sha256 hm (x := ⟨true, 0, [], none⟩) (by simp)
    obtain ⟨m', hrest⟩ := ih (hends.runs hm hruns).1
    exact ⟨m', .cons hruns hrest⟩

end Ends

end OdinLink
