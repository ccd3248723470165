import OdinLink.Daemon.Delivery
import OdinLink.Lib.Chunks

/-!
# Serving a file

The peer answers a request with a response and the chunks of the file, and changes nothing of its
own. If something fails on the way it sends no more.
-/

namespace OdinLink

open Paths FileTree Scripts Chunks

theorem odlSyncChunkSize_pos : 0 < odlSyncChunkSize := by decide

def chunksFrom (bytes : List UInt8) (i k : Nat) : List SyncMsg :=
  (List.range' i k).map fun j => .fileData j (piece odlSyncChunkSize bytes j)

theorem chunksFrom_succ (bytes : List UInt8) (i k : Nat) : chunksFrom bytes i (k + 1) =
    .fileData i (piece odlSyncChunkSize bytes i) :: chunksFrom bytes (i + 1) k := by
  rw [chunksFrom, List.range'_succ]
  rfl

theorem getElem?_chunksFrom {bytes : List UInt8} {i k j : Nat} : (chunksFrom bytes i k)[j]? =
    if j < k then some (.fileData (i + j) (piece odlSyncChunkSize bytes (i + j))) else none := by
  rw [chunksFrom, List.getElem?_map]
  split
  · rename_i hlt
    simp [List.getElem?_range' hlt]
  · rename_i hle
    simp [Nat.le_of_not_lt hle]

/-- The number of chunks of a file with fewer bytes fits its field. -/
def fetchLimit : Nat := (2 ^ 32 - 1) * odlSyncChunkSize + 1

theorem numChunksOf_eq {size : Nat} (hpos : 0 < size) (hlimit : size < fetchLimit) :
    numChunksOf size = count odlSyncChunkSize size := by
  have hfits : (size + odlSyncChunkSize - 1) / odlSyncChunkSize < 2 ^ 32 := by
    rw [fetchLimit, odlSyncChunkSize] at *
    omega
  rw [numChunksOf, if_pos hpos, Nat.mod_eq_of_lt hfits, count, Nat.add_sub_assoc odlSyncChunkSize_pos]

theorem numChunksOf_lt (size : Nat) : numChunksOf size < 2 ^ 32 := by
  rw [numChunksOf]
  split
  · exact Nat.mod_lt _ (by decide)
  · decide

def servedInfo (sha256 : List UInt8 → List UInt8) (f : FileData) : FileInfo :=
  ⟨f.bytes.length, f.mtimeNs, f.mode, false,
    if 0 < f.bytes.length then sha256 f.bytes else List.replicate 32 0⟩

def SyncOp.looks : SyncOp → Bool
  | .stat _ | .sha256File _ | .openRead _ | .read _ _ _ => true
  | _ => false

def SyncOp.serves : SyncOp → Bool
  | .send _ | .openRead _ | .read _ _ _ => true
  | _ => false

section Answers
variable (fine : SyncMem → SyncOp → SyncEnv → Prop)

def Sees (t : Files) (path : List UInt8) (st : Option (Node FileData)) : Prop :=
  ∀ m op x, fine m op x → op.looks = true → m.files = t → m.followed path x.target = st

def ReadsWhole : Prop := ∀ m path off n x, fine m (.read path off n) x → n ≤ x.limit

def MayFail : Prop := ∃ m op x, fine m op x ∧ op.serves = true ∧ x.ok = false

inductive Reply (sha256 : List UInt8 → List UInt8) (rel : List UInt8)
    (st : Option (Node FileData)) (here : Bool) : List SyncMsg → Prop where
  | nothing (hfail : MayFail fine) : Reply sha256 rel st here []
  | refused {status : Nat} (hstatus : status ≠ 0)
      (hwhy : here = false ∨ (∀ f, st ≠ some (.file f)) ∨ MayFail fine) :
      Reply sha256 rel st here [.fetchResp rel noInfo 0 status]
  | file {f : FileData} {k : Nat} (hst : st = some (.file f)) (hk : k ≤ numChunksOf f.bytes.length)
      (hall : k = numChunksOf f.bytes.length ∨ MayFail fine) :
      Reply sha256 rel st here
        (.fetchResp rel (servedInfo sha256 f) (numChunksOf f.bytes.length) 0 :: chunksFrom f.bytes 0 k)

end Answers

section Serve
variable {sha256 : List UInt8 → List UInt8} {fine : SyncMem → SyncOp → SyncEnv → Prop}
  {d : SyncDirs} {m : SyncMem} {path rel : List UInt8} {f : FileData} {st : Option (Node FileData)}

theorem piece_eq_read (bytes : List UInt8) (i : Nat) :
    (bytes.drop (min (i * odlSyncChunkSize) bytes.length)).take
      (if bytes.length < min (i * odlSyncChunkSize) bytes.length + odlSyncChunkSize
        then bytes.length - min (i * odlSyncChunkSize) bytes.length else odlSyncChunkSize) =
      piece odlSyncChunkSize bytes i := by
  have hdrop : bytes.drop (min (i * odlSyncChunkSize) bytes.length) =
      bytes.drop (i * odlSyncChunkSize) := by
    rcases Nat.le_total (i * odlSyncChunkSize) bytes.length with hle | hle
    · rw [Nat.min_eq_left hle]
    · rw [Nat.min_eq_right hle, List.drop_length, List.drop_of_length_le hle]
  rw [hdrop, piece]
  split
  · rw [List.take_of_length_le (by rw [List.length_drop]; omega),
      List.take_of_length_le (by rw [List.length_drop]; omega)]
  · rfl

theorem readSome_brings {off n : Nat} (hsees : Sees fine m.files path (some (.file f)))
    (hwhole : ReadsWhole fine) :
    Brings sha256 fine (fun m' data => m' = m ∧
      (data = some ((f.bytes.drop off).take n) ∨ data = none ∧ MayFail fine))
      (readSome path off n) m := by
  rw [readSome]
  split
  · refine brings_lastOp fun x m' data es hfine hexec => ?_
    cases hexec
    refine ⟨rfl, ?_⟩
    rw [hsees m _ x hfine rfl rfl]
    cases hx : x.ok with
    | true =>
      left
      simp [List.take_take, Nat.min_eq_right (hwhole m path off n x hfine)]
    | false => exact .inr ⟨by simp, m, _, x, hfine, rfl, hx⟩
  · rename_i hn
    obtain rfl : n = 0 := by omega
    exact ⟨rfl, .inl (by rw [List.take_zero])⟩

theorem serveChunks_brings {n i : Nat} (hsees : Sees fine m.files path (some (.file f)))
    (hwhole : ReadsWhole fine) :
    Brings sha256 fine (fun m' _ => ∃ k ≤ n, m' = m.sending (chunksFrom f.bytes i k) ∧
      (k = n ∨ MayFail fine))
      (serveChunks path f.bytes.length n i (min (i * odlSyncChunkSize) f.bytes.length)) m := by
  induction n generalizing m i with
  | zero => exact ⟨0, Nat.le_refl 0, m.sending_nil.symm, .inl rfl⟩
  | succ n ih =>
    have hstop (hfail : MayFail fine) : ∃ k ≤ n + 1, m = m.sending (chunksFrom f.bytes i k) ∧
        (k = n + 1 ∨ MayFail fine) :=
      ⟨0, Nat.zero_le _, m.sending_nil.symm, .inr hfail⟩
    rw [serveChunks]
    refine Ensures.bind (readSome_brings hsees hwhole) ?_
    rintro _ data ⟨rfl, rfl | ⟨rfl, hfail⟩⟩
    · rw [piece_eq_read]
      refine brings_op fun x m' ok es hfine hexec => ?_
      cases hx : x.ok with
      | true =>
        cases (exec_send hx).symm.trans hexec
        have hnext : min (i * odlSyncChunkSize) f.bytes.length +
            (piece odlSyncChunkSize f.bytes i).length =
            min ((i + 1) * odlSyncChunkSize) f.bytes.length := by
          rw [piece_length, Nat.add_mul]
          omega
        refine Ensures.when (fun _ => ?_) fun hno => absurd rfl hno
        rw [hnext]
        refine Ensures.mono (ih (by exact hsees)) ?_
        rintro _ _ ⟨k, hk, rfl, hall⟩
        refine ⟨k + 1, Nat.succ_le_succ hk, ?_, hall.imp_left (congrArg (· + 1))⟩
        rw [SyncMem.sending_sending, chunksFrom_succ]
        rfl
      | false =>
        rw [exec, if_neg (by simp [hx])] at hexec
        cases hexec
        exact hstop ⟨_, _, x, hfine, rfl, hx⟩
    · exact hstop hfail

theorem sha256Of_brings (hsees : Sees fine m.files path (some (.file f))) :
    Brings sha256 fine (fun m' sha => m' = m ∧ sha = (servedInfo sha256 f).sha256)
      (sha256Of path (.file f)) m := by
  rw [sha256Of, servedInfo]
  split
  · refine brings_lastOp fun x m' sha es hfine hexec => ?_
    cases hexec
    rw [hsees m _ x hfine rfl rfl]
    exact ⟨rfl, rfl⟩
  · exact ⟨rfl, rfl⟩

theorem sending_unlocked (hm : m.Free) (l : List SyncMsg) :
    {SyncMem.sending {m with txLocked := true} l with txLocked := false} = m.sending l :=
  (congrArg (fun b => {m.sending l with txLocked := b}) hm.tx).symm

theorem locked_brings {msg : SyncMsg} {c : Bool → Sync Unit} {R : List SyncMsg → Prop} (hm : m.Free)
    (hnothing : MayFail fine → R [])
    (hc : Brings sha256 fine (fun m' _ => ∃ l, m' = SyncMem.sending {m with txLocked := true} l ∧ R l)
      (c true) (SyncMem.sending {m with txLocked := true} [msg]))
    (hfalse : c false = pure ()) :
    Brings sha256 fine (fun m' _ => ∃ l, m' = m.sending l ∧ R l)
      (do syncOp .lockTx; let ok ← syncOp (.send msg); c ok; syncOp .unlockTx) m := by
  refine brings_op fun _ _ _ _ _ hlock => ?_
  rw [exec, if_neg (by simp [hm.tx])] at hlock
  cases hlock
  have hend (l : List SyncMsg) (hl : R l) :
      Brings sha256 fine (fun m' _ => ∃ l, m' = m.sending l ∧ R l) (syncOp .unlockTx)
        (SyncMem.sending {m with txLocked := true} l) := by
    refine brings_lastOp fun _ _ _ _ _ hunlock => ?_
    cases hunlock
    exact ⟨l, sending_unlocked hm l, hl⟩
  refine brings_op fun x m' ok es hfine hexec => ?_
  cases hx : x.ok with
  | true =>
    cases (exec_send hx).symm.trans hexec
    refine Ensures.bind hc ?_
    rintro _ _ ⟨l, rfl, hl⟩
    exact hend l hl
  | false =>
    rw [exec, if_neg (by simp [hx])] at hexec
    cases hexec
    rw [hfalse]
    have hnil := hend [] (hnothing ⟨_, _, x, hfine, rfl, hx⟩)
    rwa [SyncMem.sending_nil] at hnil

theorem refuseFetch_brings {status : Nat} {here : Bool} (hm : m.Free) (hstatus : status ≠ 0)
    (hwhy : here = false ∨ (∀ f, st ≠ some (.file f)) ∨ MayFail fine) :
    Brings sha256 fine (fun m' _ => ∃ l, m' = m.sending l ∧ Reply fine sha256 rel st here l)
      (refuseFetch rel status) m :=
  locked_brings (c := fun _ => pure ()) hm .nothing ⟨_, rfl, .refused hstatus hwhy⟩ rfl

theorem serveFile_brings {here : Bool} (hm : m.Free) (hst : st = some (.file f))
    (hsees : Sees fine m.files (sharedPath d rel) st) (hwhole : ReadsWhole fine) :
    Brings sha256 fine (fun m' _ => ∃ l, m' = m.sending l ∧ Reply fine sha256 rel st here l)
      (serveFile d rel f) m := by
  subst hst
  refine Ensures.bind (sha256Of_brings hsees) ?_
  rintro m _ ⟨rfl, rfl⟩
  refine brings_op fun x m' opened es hfine hexec => ?_
  cases hexec
  split
  · refine locked_brings hm .nothing (Ensures.when (fun _ => ?_) fun hno => absurd rfl hno) rfl
    have hserve := @serveChunks_brings sha256 fine (SyncMem.sending {m with txLocked := true}
        [.fetchResp rel (servedInfo sha256 f) (numChunksOf f.bytes.length) 0])
      (sharedPath d rel) f (numChunksOf f.bytes.length) 0 hsees hwhole
    rw [Nat.zero_mul, Nat.zero_min] at hserve
    refine Ensures.mono hserve ?_
    rintro _ _ ⟨k, hk, rfl, hall⟩
    exact ⟨_, SyncMem.sending_sending _ _ _, .file rfl hk hall⟩
  · rename_i hclosed
    rw [hsees m _ x hfine rfl rfl, Option.isSome_some, Bool.and_true, Bool.not_eq_true] at hclosed
    exact refuseFetch_brings hm (by decide) (.inr (.inr ⟨m, _, x, hfine, rfl, hclosed⟩))

theorem syncHandleFetchReq_brings {req : List UInt8} (hm : m.Free)
    (hsees : Sees fine m.files (sharedPath d (copyPath req)) st) (hwhole : ReadsWhole fine) :
    Brings sha256 fine (fun m' _ => ∃ l, m' = m.sending l ∧
      Reply fine sha256 (copyPath req) st (isHere (m.catalog.lookup (copyPath req))) l)
      (syncHandleFetchReq d req) m := by
  refine brings_op fun _ _ _ _ _ hexec => ?_
  cases hexec
  split
  · refine brings_op fun x _ _ _ hfine hexec => ?_
    cases hexec
    rw [hsees m _ x hfine rfl rfl]
    split
    · exact serveFile_brings hm rfl hsees hwhole
    · rename_i hno
      exact refuseFetch_brings hm (by decide) (.inr (.inl fun f hf => hno f hf))
  · rename_i hhere
    exact refuseFetch_brings hm (by decide) (.inl (Bool.eq_false_iff.mpr hhere))

end Serve

end OdinLink
