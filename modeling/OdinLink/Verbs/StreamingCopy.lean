import OdinLink.Lib.Tiling
import OdinLink.Verbs.SendOrder

/-!
# The copy into a bounce buffer

The data of a posted request is copied in pieces: by `memcpy`, and cache line by cache line where
streaming loads are used. A streaming load faults unless its address is a multiple of 64.
-/

namespace OdinLink

/-- The bytes of the source from `off` on go to the same place of the buffer. -/
structure CopyPiece where
  streamed : Bool
  off : Nat
  len : Nat

def CopyPiece.run (src : Mem) (addr : Nat) (dst : List UInt8) (p : CopyPiece) : List UInt8 :=
  dst.take p.off ++ src.read (addr + p.off) p.len ++ dst.drop (p.off + p.len)

def memcpyUnlessEmpty (off len : Nat) : List CopyPiece := if len = 0 then [] else [⟨false, off, len⟩]

def wcStreamCopyLines (off bytes : Nat) : List CopyPiece :=
  (List.range (bytes / 64)).map fun i => ⟨true, off + i * 64, 64⟩

def wcStreamPieces (addr bytes : Nat) : Option (List CopyPiece) :=
  let misalignment := addr % 64
  let lead := if misalignment = 0 then 0 else 64 - misalignment
  if lead + 64 ≤ bytes then
    let body := (bytes - lead) / 64 * 64
    let tail := bytes - lead - body
    some (memcpyUnlessEmpty 0 lead ++ wcStreamCopyLines lead body ++
      memcpyUnlessEmpty (lead + body) tail)
  else none

def bouncePieces (enabled : Bool) (addr bytes : Nat) : List CopyPiece :=
  if enabled then (wcStreamPieces addr bytes).getD [⟨false, 0, bytes⟩] else [⟨false, 0, bytes⟩]

section Tiling
variable {addr lo hi : Nat} {pieces : List CopyPiece}

def CopyPiece.StandsAt (addr p : Nat) (x : CopyPiece) : Prop :=
  x.off = p ∧ (x.streamed = true → x.len = 64 ∧ 64 ∣ addr + p)

theorem memcpyUnlessEmpty_tiles (addr off len : Nat) :
    Tiles CopyPiece.len (CopyPiece.StandsAt addr) off (memcpyUnlessEmpty off len) (off + len) := by
  rw [memcpyUnlessEmpty]
  split
  · rename_i hlen
    exact hlen ▸ .nil off
  · exact .cons ⟨rfl, nofun⟩ (.nil _)

theorem wcStreamCopyLines_tiles {off : Nat} (hoff : 64 ∣ addr + off) (n : Nat) :
    Tiles CopyPiece.len (CopyPiece.StandsAt addr) off (wcStreamCopyLines off (n * 64))
      (off + n * 64) := by
  rw [wcStreamCopyLines, Nat.mul_div_cancel n (by decide)]
  induction n with
  | zero => exact .nil _
  | succ n ih =>
    rw [List.range_succ, List.map_append, Nat.succ_mul, ← Nat.add_assoc]
    exact ih.append (.cons ⟨rfl, fun _ => ⟨rfl, by omega⟩⟩ (.nil _))

theorem bouncePieces_tiles (enabled : Bool) (addr bytes : Nat) :
    Tiles CopyPiece.len (CopyPiece.StandsAt addr) 0 (bouncePieces enabled addr bytes) bytes := by
  have hwhole : Tiles CopyPiece.len (CopyPiece.StandsAt addr) 0 [⟨false, 0, bytes⟩] bytes := by
    refine .cons ⟨rfl, nofun⟩ ?_
    rw [Nat.zero_add]
    exact .nil bytes
  rw [bouncePieces]
  split
  · simp only [wcStreamPieces]
    generalize hlead : (if addr % 64 = 0 then 0 else 64 - addr % 64) = lead
    have hdvd : 64 ∣ addr + lead := by split at hlead <;> omega
    split
    · have hbody := Nat.div_mul_le_self (bytes - lead) 64
      have hstart := memcpyUnlessEmpty_tiles addr 0 lead
      have hlines := wcStreamCopyLines_tiles hdvd ((bytes - lead) / 64)
      have hrest := memcpyUnlessEmpty_tiles addr (lead + (bytes - lead) / 64 * 64)
        (bytes - lead - (bytes - lead) / 64 * 64)
      rw [Nat.zero_add] at hstart
      rw [Nat.add_assoc, Nat.add_sub_cancel' hbody, Nat.add_sub_cancel' (by omega)] at hrest
      exact (hstart.append hlines).append hrest
    · exact hwhole
  · exact hwhole

theorem CopyPiece.run_next (src : Mem) (dst : List UInt8) {x : CopyPiece} (hx : x.off = lo) :
    x.run src addr (src.read addr lo ++ dst.drop lo) =
      src.read addr (lo + x.len) ++ dst.drop (lo + x.len) := by
  have hlen : (src.read addr lo).length = lo := by simp [Mem.read]
  rw [CopyPiece.run, hx, Mem.read_add, List.take_left' hlen, List.drop_append, hlen,
    List.drop_eq_nil_of_le (by omega), List.drop_drop]
  simp

/-- Pieces that lie end to end copy what lies under them. -/
theorem run_tiles (src : Mem) (dst : List UInt8)
    (h : Tiles CopyPiece.len (CopyPiece.StandsAt addr) lo pieces hi) :
    pieces.foldl (CopyPiece.run src addr) (src.read addr lo ++ dst.drop lo) =
      src.read addr hi ++ dst.drop hi := by
  induction h with
  | nil => rfl
  | cons hx _ ih => rw [List.foldl_cons, CopyPiece.run_next src dst hx.1, ih]

end Tiling

/-- With streaming loads or without, the copy leaves in the buffer what `memcpy` does. No piece
reads or writes outside the range, and every streaming load is of an aligned line. -/
theorem bounce_copy_is_memcpy (enabled : Bool) (src : Mem) (addr bytes : Nat) (dst : List UInt8) :
    (bouncePieces enabled addr bytes).foldl (CopyPiece.run src addr) dst =
        src.read addr bytes ++ dst.drop bytes ∧
      bounceCopy enabled src addr bytes = src.read addr bytes ∧
      ∀ p ∈ bouncePieces enabled addr bytes, p.off + p.len ≤ bytes ∧
        (p.streamed = true → p.len = 64 ∧ 64 ∣ addr + p.off) := by
  have htiles := bouncePieces_tiles enabled addr bytes
  refine ⟨run_tiles src dst htiles, bounceCopy_eq src enabled addr bytes, fun p hp => ?_⟩
  obtain ⟨_, ⟨rfl, halign⟩, -, hle⟩ := htiles.mem hp
  exact ⟨hle, halign⟩

end OdinLink
