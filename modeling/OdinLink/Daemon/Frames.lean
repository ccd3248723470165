import OdinLink.Daemon.SyncSteps

/-!
# The regular file at a path

A few operations only make, change or take away what is there.
-/

namespace OdinLink

open Paths FileTree Scripts

def FileAt (t : Files) (q : List Name) (bytes : List UInt8) : Prop :=
  ∃ f, t.lookup q = some (.file f) ∧ f.bytes = bytes

def SyncOp.spares (q : List Name) : SyncOp → Prop
  | .unlink path | .write path _ => resolve path ≠ q
  | .rename old new => resolve old ≠ q ∧ resolve new ≠ q
  | .mkstemp dir => ∀ name, slash ∉ name → resolve (dir ++ slash :: (syncTmpPrefix ++ name)) ≠ q
  | .catalogRemoveLocalCopy _ localPath cachePath => resolve localPath ≠ q ∧ resolve cachePath ≠ q
  | _ => True

section Spared
variable {t t' : Files} {q : List Name} {bytes : List UInt8}

theorem fileAt_congr (h : t'.lookup q = t.lookup q) : FileAt t' q bytes ↔ FileAt t q bytes := by
  rw [FileAt, FileAt, h]

theorem fileAt_insert {path : List Name} {node : Node FileData}
    (hnode : q = path → ∀ f, node ≠ .file f) (hold : q = path → ∀ f, t.lookup q ≠ some (.file f)) :
    FileAt (t.insert path node) q bytes ↔ FileAt t q bytes := by
  by_cases hq : q = path
  · rw [FileAt, FileAt, lookup_insert_eq, if_pos hq]
    constructor
    · rintro ⟨f, hf, -⟩
      exact absurd (Option.some.inj hf) (hnode hq f)
    · rintro ⟨f, hf, -⟩
      exact absurd hf (hold hq f)
  · exact fileAt_congr (by rw [lookup_insert_eq, if_neg hq])

theorem fileAt_mkdirs {paths : List (List Name)} {limit : Nat} :
    FileAt (mkdirs t paths limit).1 q bytes ↔ FileAt t q bytes := by
  obtain ⟨hlookup, hmade⟩ := mkdirs_spec t paths limit
  by_cases hq : q ∈ (mkdirs t paths limit).2.1
  · rw [FileAt, FileAt, hlookup, if_pos hq, (hmade q hq).2]
    simp
  · exact fileAt_congr (by rw [hlookup, if_neg hq])

end Spared

section Exec
variable {m m' : SyncMem} {sha256 : List UInt8 → List UInt8} {op : SyncOp} {x : SyncEnv}
  {r : op.Res} {es : List SyncEvent} {q : List Name} {bytes : List UInt8}

theorem fileAt_setFile {path : List UInt8} {f : FileData → FileData}
    (hf : resolve path ≠ q ∨ ∀ data, (f data).bytes = data.bytes) :
    FileAt (m.setFile path f).files q bytes ↔ FileAt m.files q bytes := by
  rcases m.setFile_cases path f with hset | ⟨data, hdata, hset⟩
  · rw [hset]
  · rw [hset]
    by_cases hq : q = resolve path
    · subst hq
      have hbytes := hf.resolve_left fun hne => hne rfl
      simp [FileAt, hdata, hbytes]
    · exact fileAt_congr (by rw [lookup_insert_eq, if_neg hq])

theorem fileAt_withFiles {c : Prop} [Decidable c] {o : Option Files}
    (ho : ∀ t', o = some t' → (FileAt t' q bytes ↔ FileAt m.files q bytes)) :
    FileAt (m.withFiles (if c then o else none)).1.files q bytes ↔ FileAt m.files q bytes := by
  rw [SyncMem.withFiles_fst]
  split
  · cases o with
    | none => exact Iff.rfl
    | some t' => exact ho t' rfl
  · exact Iff.rfl

theorem fileAt_unlink {t t' : Files} {path : List Name} (hun : FileTree.unlink t path = some t')
    (hne : path ≠ q) : FileAt t' q bytes ↔ FileAt t q bytes := by
  rw [(unlink_eq hun).2]
  exact fileAt_congr (by rw [lookup_erase_eq, if_neg (Ne.symm hne)])

theorem exec_spares (hop : op.spares q) (hexec : exec sha256 m op x = some (m', r, es)) :
    FileAt m'.files q bytes ↔ FileAt m.files q bytes := by
  cases op with
  | catalogRemoveLocalCopy rel localPath cachePath =>
    rcases removeLocalCopy_cases m rel localPath cachePath x with heq | ⟨path, c, hpath, heq⟩
    · cases heq.symm.trans (Option.some.inj hexec)
      exact Iff.rfl
    · cases heq.symm.trans (Option.some.inj hexec)
      refine fileAt_withFiles fun t' hun => fileAt_unlink hun ?_
      rcases hpath with rfl | rfl
      · exact hop.1
      · exact hop.2
  | unlink path =>
    cases hexec
    exact fileAt_withFiles fun t' hun => fileAt_unlink hun hop
  | mkdirWithParents path =>
    cases hexec
    exact fileAt_mkdirs
  | symlink target path =>
    cases hexec
    refine fileAt_withFiles fun t' hadd => ?_
    obtain ⟨hnone, rfl⟩ := add_eq hadd
    exact fileAt_insert (fun _ f => by simp) fun hq f => by rw [hq, hnone]; simp
  | mkstemp dir =>
    rw [exec] at hexec
    split at hexec <;> cases hexec
    refine fileAt_withFiles fun t' hadd => ?_
    obtain ⟨hnone, rfl⟩ := add_eq hadd
    exact fileAt_congr (by rw [lookup_insert_eq, if_neg (Ne.symm (hop x.name ‹_›))])
  | rename old new =>
    cases hexec
    refine fileAt_withFiles fun t' hre => ?_
    obtain ⟨node, -, -, -, -, rfl⟩ := rename_eq hre
    exact fileAt_congr (by
      rw [lookup_insert_eq, if_neg (Ne.symm hop.2), lookup_erase_eq, if_neg (Ne.symm hop.1)])
  | rmdir path =>
    cases hexec
    refine fileAt_withFiles fun t' hrm => ?_
    rw [rmdir_eq hrm]
    by_cases hq : q = resolve path
    · rw [FileAt, FileAt, lookup_erase_eq, if_pos hq, hq, isDir_iff.mp (isDir_of_rmdir hrm)]
      simp
    · exact fileAt_congr (by rw [lookup_erase_eq, if_neg hq])
  | write path data =>
    rw [exec] at hexec
    split at hexec <;> cases hexec
    · exact fileAt_setFile (.inl hop)
    · exact Iff.rfl
  | chmod path mode | utimens path mtimeNs =>
    cases hexec
    exact fileAt_setFile (.inr fun _ => rfl)
  | lockFetch | awaitFetch | lockTx | send =>
    rw [exec] at hexec
    split at hexec <;> cases hexec
    all_goals exact Iff.rfl
  | _ =>
    cases hexec
    exact Iff.rfl

end Exec

end OdinLink
