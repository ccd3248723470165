import OdinLink.Daemon.ReceivedBytes

/-!
# What earlier messages leave in the buffer

A handler reads the structure of its message, a string up to its end and as many bytes of a chunk as
the header says, however long the message was. For each type it can be told from the message alone
whether that makes a difference.
-/

namespace OdinLink

open Paths FileTree Scripts

section Reads
variable {mem mem' buf buf' : Mem} {b : List UInt8} {off n k : Nat}

variable (buf buf') in
theorem dmaWrite_of_lt {i : Nat} (hi : i < b.length) : buf.dmaWrite b i = buf'.dmaWrite b i := by
  simp [Mem.dmaWrite, hi]

theorem dmaWrite_of_le {i : Nat} (hi : b.length ≤ i) : buf.dmaWrite b i = buf i := by
  simp [Mem.dmaWrite, hi]

variable (buf buf') in
theorem le64_dmaWrite_congr (hoff : off + 8 ≤ b.length) :
    (buf.dmaWrite b).le64 off = (buf'.dmaWrite b).le64 off := by
  rw [Mem.le64, Mem.le64, le32_dmaWrite_congr buf buf' b (by omega),
    le32_dmaWrite_congr buf buf' b (by omega)]

variable (buf buf') in
theorem read_dmaWrite_congr (hoff : off + n ≤ b.length) :
    (buf.dmaWrite b).read off n = (buf'.dmaWrite b).read off n := by
  rw [Mem.read_dmaWrite _ _ hoff, Mem.read_dmaWrite _ _ hoff]

theorem cstr_congr (hmem : ∀ i < n, mem (off + i) = mem' (off + i)) :
    mem.cstr off n = mem'.cstr off n := by
  induction n generalizing off with
  | zero => rfl
  | succ n ih =>
    have hnext : mem.cstr (off + 1) n = mem'.cstr (off + 1) n := by
      refine ih fun i hi => ?_
      rw [Nat.add_assoc, Nat.add_comm 1 i]
      exact hmem (i + 1) (by omega)
    have hfirst : mem off = mem' off := hmem 0 (Nat.succ_pos n)
    rw [Mem.cstr, Mem.cstr, hnext, hfirst]

theorem cstr_take (hk : k ≤ n) : (mem.cstr off n).take k = mem.cstr off k := by
  induction n generalizing off k with
  | zero =>
    rw [Nat.le_zero.mp hk]
    rfl
  | succ n ih =>
    cases k with
    | zero => rfl
    | succ k =>
      rw [Mem.cstr, Mem.cstr]
      split
      · rfl
      · rw [List.take_succ_cons, ih (Nat.le_of_succ_le_succ hk)]

theorem cstr_of_mem (hend : 0 ∈ b.drop off) :
    (buf.dmaWrite b).cstr off n = (buf'.dmaWrite b).cstr off n := by
  induction n generalizing off with
  | zero => rfl
  | succ n ih =>
    have hlt : off < b.length := by
      by_contra hle
      rw [List.drop_of_length_le (Nat.le_of_not_lt hle)] at hend
      contradiction
    rw [Mem.cstr, Mem.cstr, dmaWrite_of_lt buf buf' hlt]
    split
    · rfl
    · rename_i hne
      rw [ih]
      rw [List.drop_eq_getElem_cons hlt, List.mem_cons] at hend
      refine hend.resolve_left fun hzero => hne ?_
      simp [Mem.dmaWrite, hlt, ← hzero]

theorem cstr_of_not_mem (hend : 0 ∉ b.drop off) (hoff : off ≤ b.length) :
    (buf.dmaWrite b).cstr off (b.length - off + n) =
      b.drop off ++ (buf.dmaWrite b).cstr b.length n := by
  obtain ⟨j, hj⟩ := Nat.exists_eq_add_of_le hoff
  induction j generalizing off with
  | zero =>
    obtain rfl : off = b.length := by omega
    simp
  | succ j ih =>
    have hlt : off < b.length := by omega
    rw [List.drop_eq_getElem_cons hlt, List.mem_cons, not_or] at hend
    have hbyte : buf.dmaWrite b off = b[off] := by simp [Mem.dmaWrite, hlt]
    rw [show b.length - off + n = (b.length - (off + 1) + n) + 1 by omega, Mem.cstr, hbyte,
      if_neg (Ne.symm hend.1), ih hend.2 hlt (by omega), List.drop_eq_getElem_cons hlt]
    rfl

end Reads

def marked (i : Nat) : Mem := fun j => if j = i then 1 else 0

section Marked
variable {buf : Mem} {b : List UInt8} {off : Nat}

variable (buf b) in
theorem cleared_le (i : Nat) : (cleared.dmaWrite b i).toNat ≤ (buf.dmaWrite b i).toNat := by
  by_cases hi : i < b.length
  · rw [dmaWrite_of_lt _ buf hi]
  · rw [dmaWrite_of_le (Nat.le_of_not_lt hi)]
    exact Nat.zero_le _

theorem le32_cleared_le : (cleared.dmaWrite b).le32 off ≤ (buf.dmaWrite b).le32 off := by
  have h0 := cleared_le buf b off
  have h1 := cleared_le buf b (off + 1)
  have h2 := cleared_le buf b (off + 2)
  have h3 := cleared_le buf b (off + 3)
  rw [Mem.le32, Mem.le32]
  omega

theorem le32_marked (hoff : b.length ≤ off + 3) :
    ((marked (off + 3)).dmaWrite b).le32 off = (cleared.dmaWrite b).le32 off + 16777216 := by
  have hother {i : Nat} (hi : i ≠ off + 3) :
      (marked (off + 3)).dmaWrite b i = cleared.dmaWrite b i := by
    by_cases hlt : i < b.length
    · exact dmaWrite_of_lt _ _ hlt
    · rw [dmaWrite_of_le (Nat.le_of_not_lt hlt), dmaWrite_of_le (Nat.le_of_not_lt hlt), marked,
        if_neg hi]
      rfl
  have hlast : ((marked (off + 3)).dmaWrite b (off + 3)).toNat = 1 := by
    rw [dmaWrite_of_le hoff, marked, if_pos rfl]
    rfl
  have hzero : (cleared.dmaWrite b (off + 3)).toNat = 0 := by
    rw [dmaWrite_of_le hoff]
    rfl
  rw [Mem.le32, Mem.le32, hother (by omega), hother (by omega), hother (by omega), hlast, hzero]

end Marked

section Covered
variable (msg : List UInt8)

def reaches (n : Nat) : Bool := decide (n ≤ (received msg).length)

def pathEnds : Bool := ((received msg).drop 24).contains 0

/-- Whatever the handler reads was received with the message, or makes no difference. -/
def selfContained : Bool :=
  !handled msg ||
    match (padded msg).le32 8 with
    | 0x01 | 0x30 => reaches msg 336 && pathEnds msg
    | 0x02 => reaches msg 32 && reaches msg (32 + (padded msg).le32 28)
    -- an acknowledgement of a failure is not read any further
    | 0x03 | 0x23 => reaches msg 284 || (padded msg).le32 280 != 0
    | 0x04 | 0x06 | 0x22 => pathEnds msg
    | 0x05 => reaches msg 292 && pathEnds msg
    | 0x11 => reaches msg 336
    -- the path is cut off after 255 characters
    | 0x20 => reaches msg 279 || pathEnds msg
    | 0x21 => pathEnds msg && (reaches msg 344 ||
        (reaches msg 308 && (padded msg).le32 304 != 0) || decide (1 < (padded msg).le32 304))
    | 0x31 => pathEnds msg && (reaches msg 284 || (padded msg).le32 280 != 0)
    | _ => true

end Covered

/-- From the same state and with the same answers of the surroundings, the handler does the same
whatever the buffer held before. -/
def SeesOnlyMessage (d : SyncDirs) (sha256 : List UInt8 → List UInt8) (msg : List UInt8) : Prop :=
  ∀ buf buf' m xs, finish (exec sha256) ((recvAction buf msg).script d) m xs =
    finish (exec sha256) ((recvAction buf' msg).script d) m xs

section Sees
variable {d : SyncDirs} {sha256 : List UInt8 → List UInt8} {msg : List UInt8}

theorem script_of_not_handled (hno : handled msg = false) (buf : Mem) :
    (recvAction buf msg).script d = pure () := by
  rw [handled, recvAction_isSync_congr _ buf] at hno
  cases haction : recvAction buf msg with
  | sync m =>
    rw [haction] at hno
    contradiction
  | discard | cli => rfl

theorem type_eq (hh : handled msg = true) (buf : Mem) :
    (buf.dmaWrite (received msg)).le32 8 = (padded msg).le32 8 := by
  have hlen := ((handled_iff buf).mp hh).1
  exact le32_dmaWrite_congr _ _ _ (Nat.le_trans (by decide) hlen)

theorem script_of_handled (hh : handled msg = true) {buf : Mem} {m : SyncMsg}
    (hm : (buf.dmaWrite (received msg)).syncMsg = some m) :
    (recvAction buf msg).script d = syncDispatch d m := by
  obtain ⟨hlen, hmagic, -⟩ := (handled_iff buf).mp hh
  have hfour : ¬ (received msg).length < 4 := by
    rw [syncHeaderSize] at hlen
    omega
  rw [recvAction, syncReceive, if_neg hfour, if_pos hmagic, if_neg (Nat.not_lt.mpr hlen), hm]
  rfl

theorem relPath_congr (hends : pathEnds msg = true) (buf buf' : Mem) :
    (buf.dmaWrite (received msg)).relPath = (buf'.dmaWrite (received msg)).relPath :=
  cstr_of_mem (List.contains_iff_mem.mp hends)

theorem copyPath_relPath (mem : Mem) : copyPath mem.relPath = mem.cstr 24 255 :=
  cstr_take (by decide)

theorem copyPath_congr (hreach : reaches msg 279 = true) (buf buf' : Mem) :
    copyPath (buf.dmaWrite (received msg)).relPath =
      copyPath (buf'.dmaWrite (received msg)).relPath := by
  rw [copyPath_relPath, copyPath_relPath]
  refine cstr_congr fun i hi => dmaWrite_of_lt _ _ ?_
  have hlen := of_decide_eq_true hreach
  omega

theorem fileInfo_congr (isDir : Bool) {shaOff : Nat} (hoff : 300 ≤ shaOff)
    (hreach : reaches msg (shaOff + 32) = true) (buf buf' : Mem) :
    (buf.dmaWrite (received msg)).fileInfo isDir shaOff =
      (buf'.dmaWrite (received msg)).fileInfo isDir shaOff := by
  have hlen := of_decide_eq_true hreach
  rw [Mem.fileInfo, Mem.fileInfo, le64_dmaWrite_congr buf buf' (by omega),
    le64_dmaWrite_congr buf buf' (by omega), le32_dmaWrite_congr buf buf' _ (by omega),
    read_dmaWrite_congr buf buf' (by omega)]

theorem field_congr {off n : Nat} (hreach : reaches msg n = true) (hoff : off + 4 ≤ n)
    (buf buf' : Mem) :
    (buf.dmaWrite (received msg)).le32 off = (buf'.dmaWrite (received msg)).le32 off :=
  le32_dmaWrite_congr _ _ _ (hoff.trans (of_decide_eq_true hreach))

theorem field_ne_zero {off : Nat} (hne : ((padded msg).le32 off != 0) = true) (buf : Mem) :
    (buf.dmaWrite (received msg)).le32 off ≠ 0 := by
  have hle : (padded msg).le32 off ≤ (buf.dmaWrite (received msg)).le32 off := le32_cleared_le
  rw [bne_iff_ne] at hne
  omega

theorem pathEnds_of_zero (hreach : reaches msg 284 = true) (hzero : (padded msg).le32 280 = 0) :
    pathEnds msg = true := by
  have hlen := of_decide_eq_true hreach
  have hbyte : padded msg 280 = 0 := by
    have hnat : (padded msg 280).toNat = 0 := by
      rw [Mem.le32] at hzero
      omega
    exact UInt8.toNat_inj.mp hnat
  refine List.contains_iff_mem.mpr (List.mem_iff_getElem.mpr ⟨256, by simp; omega, ?_⟩)
  rw [List.getElem_drop, ← hbyte]
  simp [padded, Mem.dmaWrite, show 280 < (received msg).length by omega]

theorem ack_congr (hack : (reaches msg 284 || (padded msg).le32 280 != 0) = true)
    (use : List UInt8 → Nat → Sync Unit) (huse : ∀ rel st, st ≠ 0 → use rel st = pure ())
    (buf buf' : Mem) :
    use (buf.dmaWrite (received msg)).relPath ((buf.dmaWrite (received msg)).le32 280) =
      use (buf'.dmaWrite (received msg)).relPath ((buf'.dmaWrite (received msg)).le32 280) := by
  by_cases hzero : (padded msg).le32 280 = 0
  · have hreach : reaches msg 284 = true := by simpa [hzero] using hack
    rw [relPath_congr (pathEnds_of_zero hreach hzero) buf buf',
      field_congr hreach (by decide) buf buf']
  · have hne := field_ne_zero (bne_iff_ne.mpr hzero)
    rw [huse _ _ (hne buf), huse _ _ (hne buf')]

theorem syncHandleFetchReq_congr {rel rel' : List UInt8} (hrel : copyPath rel = copyPath rel') :
    syncHandleFetchReq d rel = syncHandleFetchReq d rel' := by
  unfold syncHandleFetchReq
  dsimp only
  rw [hrel]

theorem syncHandleFetchResp_congr {rel : List UInt8} {info info' : FileInfo} {n n' st st' : Nat}
    (hst : st ≠ 0) (hst' : st' ≠ 0) (hone : st = 1 ↔ st' = 1) :
    syncHandleFetchResp d rel info n st = syncHandleFetchResp d rel info' n' st' := by
  have hresult : (if st = 1 then errNoEnt else errIo) = if st' = 1 then errNoEnt else errIo := by
    simp only [hone]
  simp only [syncHandleFetchResp, if_pos hst, if_pos hst']
  rw [hresult]

theorem fetchResp_congr (hends : pathEnds msg = true)
    (hresp : (reaches msg 344 || (reaches msg 308 && (padded msg).le32 304 != 0) ||
      decide (1 < (padded msg).le32 304)) = true) (buf buf' : Mem) :
    syncHandleFetchResp d (buf.dmaWrite (received msg)).relPath
        ((buf.dmaWrite (received msg)).fileInfo false 312) ((buf.dmaWrite (received msg)).le32 300)
        ((buf.dmaWrite (received msg)).le32 304) =
      syncHandleFetchResp d (buf'.dmaWrite (received msg)).relPath
        ((buf'.dmaWrite (received msg)).fileInfo false 312)
        ((buf'.dmaWrite (received msg)).le32 300) ((buf'.dmaWrite (received msg)).le32 304) := by
  rw [relPath_congr hends buf buf']
  rw [Bool.or_eq_true, Bool.or_eq_true, Bool.and_eq_true, decide_eq_true_eq] at hresp
  rcases hresp with (hreach | ⟨hreach, hne⟩) | hlarge
  · rw [fileInfo_congr false (by decide) hreach buf buf', field_congr hreach (by decide) buf buf',
      field_congr hreach (by decide) buf buf']
  · have hst := field_congr hreach (show 304 + 4 ≤ 308 by decide) buf buf'
    exact syncHandleFetchResp_congr (field_ne_zero hne buf) (field_ne_zero hne buf') (by rw [hst])
  · have hlarge' (buf : Mem) : 1 < (buf.dmaWrite (received msg)).le32 304 :=
      Nat.lt_of_lt_of_le hlarge le32_cleared_le
    have hbuf := hlarge' buf
    have hbuf' := hlarge' buf'
    exact syncHandleFetchResp_congr (by omega) (by omega) (by omega)

theorem script_congr (hcov : selfContained msg = true) (buf buf' : Mem) :
    (recvAction buf msg).script d = (recvAction buf' msg).script d := by
  cases hh : handled msg with
  | false => rw [script_of_not_handled hh, script_of_not_handled hh]
  | true =>
    have ht : (padded msg).le32 8 ∈ syncTypes := ((handled_iff cleared).mp hh).2.2
    have htype := type_eq hh
    have hscript {m m' : SyncMsg} (hm : (buf.dmaWrite (received msg)).syncMsg = some m)
        (hm' : (buf'.dmaWrite (received msg)).syncMsg = some m')
        (heq : syncDispatch d m = syncDispatch d m') :
        (recvAction buf msg).script d = (recvAction buf' msg).script d := by
      rw [script_of_handled hh hm, script_of_handled hh hm', heq]
    simp only [Mem.syncMsg, htype] at hscript
    rw [selfContained, hh, Bool.not_true, Bool.false_or] at hcov
    simp only [syncTypes, List.mem_cons, List.not_mem_nil, or_false] at ht
    rcases ht with ht | ht | ht | ht | ht | ht | ht | ht | ht | ht | ht | ht | ht | ht | ht <;>
      simp only [ht] at hcov hscript <;> refine hscript rfl rfl ?_
    · rw [Bool.and_eq_true] at hcov
      rw [relPath_congr hcov.2 buf buf', fileInfo_congr false (by decide) hcov.1 buf buf',
        field_congr hcov.1 (by decide) buf buf']
    · rw [Bool.and_eq_true] at hcov
      have hchunk := field_congr hcov.1 (show 28 + 4 ≤ 32 by decide)
      change syncHandleFileData d _ = syncHandleFileData d _
      rw [hchunk buf cleared, hchunk buf' cleared]
      exact congrArg _ (read_dmaWrite_congr buf buf' (of_decide_eq_true hcov.2))
    · exact ack_congr hcov (fun rel st => .when (st = 0) (syncOp (.catalogMarkBoth rel)))
        (fun _ _ hst => if_neg hst) buf buf'
    · rw [relPath_congr hcov buf buf']
    · rw [Bool.and_eq_true] at hcov
      have hlen := of_decide_eq_true hcov.1
      rw [relPath_congr hcov.2 buf buf', le64_dmaWrite_congr buf buf' (by omega),
        field_congr hcov.1 (by decide) buf buf']
    · rw [relPath_congr hcov buf buf']
    · rfl
    · have hreach : reaches msg 279 = true :=
        decide_eq_true (Nat.le_trans (by decide) (of_decide_eq_true hcov))
      change syncHandleListingEntry _ _ = syncHandleListingEntry _ _
      rw [syncHandleListingEntry, syncHandleListingEntry, copyPath_congr hreach buf buf',
        field_congr hcov (by decide) buf buf', fileInfo_congr _ (by decide) hcov buf buf']
    · rfl
    · refine syncHandleFetchReq_congr ?_
      rw [Bool.or_eq_true] at hcov
      rcases hcov with hreach | hends
      · exact copyPath_congr hreach buf buf'
      · rw [relPath_congr hends buf buf']
    · rw [Bool.and_eq_true] at hcov
      exact fetchResp_congr hcov.1 hcov.2 buf buf'
    · rw [relPath_congr hcov buf buf']
    · exact ack_congr hcov (syncHandleRemoveAck d) (fun _ _ hst => if_neg hst) buf buf'
    · rw [Bool.and_eq_true] at hcov
      rw [relPath_congr hcov.2 buf buf', field_congr hcov.1 (by decide) buf buf',
        fileInfo_congr _ (by decide) hcov.1 buf buf']
    · rw [Bool.and_eq_true] at hcov
      have hdir : ((buf.dmaWrite (received msg)).le32 280 != 0) =
          ((buf'.dmaWrite (received msg)).le32 280 != 0) := by
        rcases Bool.or_eq_true_iff.mp hcov.2 with hreach | hne
        · rw [field_congr hreach (by decide) buf buf']
        · rw [bne_iff_ne.mpr (field_ne_zero hne buf), bne_iff_ne.mpr (field_ne_zero hne buf')]
      rw [relPath_congr hcov.1 buf buf', hdir]

end Sees

end OdinLink
