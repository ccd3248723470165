import OdinLink.Daemon.SyncWire
import OdinLink.Daemon.Confinement

/-!
# The bytes that a message is judged by

The receiver tells a message by its magic number and its type. The checks of the protocol look at no
more than the header and the length, but the receiver does not make them.
-/

namespace OdinLink

open Scripts

def RecvAction.isSync : RecvAction → Bool
  | .sync _ => true
  | .discard | .cli _ => false

def syncTypes : List Nat :=
  [0x01, 0x02, 0x03, 0x04, 0x05, 0x06, 0x10, 0x11, 0x12, 0x20, 0x21, 0x22, 0x23, 0x30, 0x31]

section Header
variable {hmac : List UInt8 → List UInt8} {msg : List UInt8}

theorem syncMsg_isSome (mem : Mem) : mem.syncMsg.isSome = decide (mem.le32 8 ∈ syncTypes) := by
  rw [Mem.syncMsg]
  split <;> simp_all [syncTypes]

theorem syncReceive_isSync (buf : Mem) (n : Nat) : (syncReceive buf n).isSync =
    (decide (syncHeaderSize ≤ n) && decide (buf.le32 0 = odlSyncMagic) &&
      decide (buf.le32 8 ∈ syncTypes)) := by
  rw [← syncMsg_isSome, syncReceive]
  by_cases hlen : syncHeaderSize ≤ n
  · have hfour : ¬ n < 4 := by
      rw [syncHeaderSize] at hlen
      omega
    by_cases hmagic : buf.le32 0 = odlSyncMagic
    · rw [if_neg hfour, if_pos hmagic, if_neg (Nat.not_lt.mpr hlen)]
      cases buf.syncMsg <;> simp [hlen, hmagic, RecvAction.isSync]
    · rw [if_neg hfour, if_neg hmagic]
      split <;> simp [hmagic, RecvAction.isSync, Nat.not_lt.mpr hlen]
  · have hshort : n < syncHeaderSize := Nat.lt_of_not_le hlen
    simp only [if_pos hshort, hlen, decide_false, Bool.false_and]
    split
    · rfl
    · split
      · rfl
      · split <;> rfl

theorem recvAction_isSync_congr (buf buf' : Mem) :
    (recvAction buf msg).isSync = (recvAction buf' msg).isSync := by
  rw [recvAction, recvAction, syncReceive_isSync, syncReceive_isSync]
  by_cases hlen : syncHeaderSize ≤ (received msg).length
  · have hle (off : Nat) (hoff : off + 4 ≤ syncHeaderSize) :=
      le32_dmaWrite_congr buf buf' (received msg) (hoff.trans hlen)
    rw [hle 0 (by decide), hle 8 (by decide)]
  · simp only [hlen, decide_false, Bool.false_and]

theorem passes_congr (buf buf' : Mem) : passes hmac buf msg ↔ passes hmac buf' msg := by
  rw [passes, passes, odlSyncRecvMsg, odlSyncRecvMsg]
  by_cases hlen : syncHeaderSize ≤ (received msg).length
  · have hle (off : Nat) (hoff : off + 4 ≤ syncHeaderSize) :=
      le32_dmaWrite_congr buf buf' (received msg) (hoff.trans hlen)
    have hread (off n : Nat) (hoff : off + n ≤ syncHeaderSize) :
        (buf.dmaWrite (received msg)).read off n = (buf'.dmaWrite (received msg)).read off n := by
      rw [Mem.read_dmaWrite _ _ (hoff.trans hlen), Mem.read_dmaWrite _ _ (hoff.trans hlen)]
    rw [hle 0 (by decide), hle 4 (by decide), hle 8 (by decide), hle 12 (by decide),
      hread 20 4 (by decide), hread 0 20 (by decide)]
  · rw [if_pos (Nat.lt_of_not_le hlen), if_pos (Nat.lt_of_not_le hlen)]

end Header

def handled (msg : List UInt8) : Bool := (recvAction (fun _ => 0) msg).isSync

def cleared : Mem := fun _ => 0

/-- The buffer as the message leaves it when it was zero before. -/
def padded (msg : List UInt8) : Mem := cleared.dmaWrite (received msg)

theorem handled_iff {msg : List UInt8} (buf : Mem) : handled msg = true ↔
    syncHeaderSize ≤ (received msg).length ∧
      (buf.dmaWrite (received msg)).le32 0 = odlSyncMagic ∧
      (buf.dmaWrite (received msg)).le32 8 ∈ syncTypes := by
  rw [handled, recvAction_isSync_congr _ buf, recvAction, syncReceive_isSync]
  simp only [Bool.and_eq_true, decide_eq_true_eq, and_assoc]

theorem passes_iff {hmac : List UInt8 → List UInt8} {msg : List UInt8} (buf : Mem) :
    passes hmac buf msg ↔ syncHeaderSize ≤ (received msg).length ∧
      (padded msg).le32 0 = odlSyncMagic ∧ (padded msg).le32 4 = odlSyncVersion ∧
      (padded msg).read 20 4 = (hmac ((padded msg).read 0 20)).take 4 ∧
      syncHeaderSize + (padded msg).le32 12 ≤ (received msg).length := by
  rw [passes_congr buf cleared, passes]
  change (∃ type, odlSyncRecvMsg hmac (padded msg) (received msg).length = .ok type) ↔ _
  unfold odlSyncRecvMsg
  repeat' split
  all_goals simp_all

def startsWithMagic (msg : List UInt8) : Prop :=
  4 ≤ (received msg).length ∧ Mem.le32 (Mem.dmaWrite (fun _ => 0) (received msg)) 0 = odlSyncMagic

structure ActsOnlyIfChecked (d : SyncDirs) (sha256 hmac : List UInt8 → List UInt8)
    (msg : List UInt8) : Prop where
  dispatched : ∀ buf m, recvAction buf msg = .sync m → passes hmac buf msg
  unchanged : startsWithMagic msg → ∀ buf, ¬ passes hmac buf msg → ∀ m xs m' r es,
    finish (exec sha256) ((recvAction buf msg).script d) m xs = some (m', r, es) → m' = m

/-- The receiver acts only on messages that pass the checks of the protocol exactly when a message
with a whole header, the magic number and a known type also has the version, the tag and the length
that the receiver does not look at. -/
theorem acts_only_if_checked_iff (d : SyncDirs) (sha256 hmac : List UInt8 → List UInt8)
    (msg : List UInt8) :
    ActsOnlyIfChecked d sha256 hmac msg ↔
      (syncHeaderSize ≤ (received msg).length → (padded msg).le32 0 = odlSyncMagic →
        (padded msg).le32 8 ∈ syncTypes →
        (padded msg).le32 4 = odlSyncVersion ∧
          (padded msg).read 20 4 = (hmac ((padded msg).read 0 20)).take 4 ∧
          syncHeaderSize + (padded msg).le32 12 ≤ (received msg).length) := by
  have hhandled : handled msg = true ↔ _ := handled_iff cleared
  constructor
  · intro hacts hlen hmagic htype
    have hh : (recvAction cleared msg).isSync = true := hhandled.mpr ⟨hlen, hmagic, htype⟩
    cases haction : recvAction cleared msg with
    | sync m =>
      obtain ⟨_, _, hchecks⟩ := (passes_iff cleared).mp (hacts.dispatched _ m haction)
      exact hchecks
    | discard | cli =>
      rw [haction] at hh
      contradiction
  · intro hchecks
    have hsync (buf : Mem) (m : SyncMsg) (haction : recvAction buf msg = .sync m) :
        passes hmac buf msg := by
      have hh : handled msg = true := by
        rw [handled, ← recvAction_isSync_congr buf, haction]
        rfl
      obtain ⟨hlen, hmagic, htype⟩ := hhandled.mp hh
      exact (passes_iff buf).mpr ⟨hlen, hmagic, hchecks hlen hmagic htype⟩
    refine ⟨hsync, fun _ buf hfails m xs m' r es hrun => ?_⟩
    cases haction : recvAction buf msg with
    | sync msg' => exact absurd (hsync buf msg' haction) hfails
    | discard | cli =>
      rw [haction] at hrun
      cases hrun
      rfl

def strangeVersion : List UInt8 := List.flatten
  [[0x53, 0x4C, 0x44, 0x4F], [7, 0, 0, 0], [5, 0, 0, 0], [16, 1, 0, 0], List.replicate 8 0, [100],
    List.replicate 271 0]

theorem strange_version_acted_on :
    startsWithMagic strangeVersion ∧ (∀ hmac, ¬ passes hmac (fun _ => 0) strangeVersion) ∧
      plainMem.nodeAt (sharedPath plainDirs [100]) = none ∧ plainMem.catalog.lookup [100] = none ∧
      (finish (exec id) ((recvAction (fun _ => 0) strangeVersion).script plainDirs) plainMem
        (List.replicate 9 fineEnv)).map
          (fun r => (r.1.nodeAt (sharedPath plainDirs [100]), (r.1.catalog.lookup [100]).isSome)) =
        some (some .dir, true) := by
  refine ⟨⟨by decide +kernel, by decide +kernel⟩, ?_, by decide +kernel, by decide +kernel,
    by decide +kernel⟩
  rintro hmac ⟨type, hok⟩
  rw [odlSyncRecvMsg, if_neg (by decide +kernel), if_neg (by decide +kernel),
    if_pos (by decide +kernel)] at hok
  contradiction

end OdinLink
