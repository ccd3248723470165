import Mathlib.Data.List.AList

/-!
# Trees of files

Directories, symbolic links and files, found under their paths from the root. Operations take
resolved paths and follow no links.
-/

namespace FileTree

inductive Node (F : Type) where
  | dir
  | link (target : List UInt8)
  | file (f : F)
  deriving DecidableEq, Repr

variable {N F : Type} [DecidableEq N]

abbrev Tree (N F : Type) := AList fun _ : List N => Node F

section Ops
variable (t : Tree N F)

def isDir (path : List N) : Bool :=
  match t.lookup path with
  | some .dir => true
  | _ => false

def isLeaf (path : List N) : Bool :=
  match t.lookup path with
  | some (.link _) | some (.file _) => true
  | _ => false

def unlink (path : List N) : Option (Tree N F) :=
  if isLeaf t path then some (t.erase path) else none

def add (path : List N) (node : Node F) : Option (Tree N F) :=
  if t.lookup path = none ∧ isDir t path.dropLast then some (t.insert path node) else none

def rename (old new : List N) : Option (Tree N F) :=
  match t.lookup old with
  | none | some .dir => none
  | some node =>
    if isDir t new ∨ ¬ isDir t new.dropLast then none else some ((t.erase old).insert new node)

def rmdir (path : List N) : Option (Tree N F) :=
  if isDir t path ∧ ∀ q ∈ t.keys, ¬ (path <+: q ∧ path ≠ q) then some (t.erase path) else none

def readDir (path : List N) : List N :=
  t.keys.filterMap fun q => if q.dropLast = path then q.getLast? else none

end Ops

/-- Makes the directories that are missing, as many as `limit`, and stops at what is not a
directory. The second component is what was made. -/
def mkdirs (t : Tree N F) : List (List N) → Nat → Tree N F × List (List N) × Bool
  | [], _ => (t, [], true)
  | path :: paths, limit =>
    match t.lookup path with
    | some .dir => mkdirs t paths limit
    | some _ => (t, [], false)
    | none =>
      match limit with
      | 0 => (t, [], false)
      | limit + 1 =>
        let r := mkdirs (t.insert path .dir) paths limit
        (r.1, path :: r.2.1, r.2.2)

section Lookup
variable {t t' : Tree N F} {path q old new : List N}

theorem isDir_iff : isDir t path = true ↔ t.lookup path = some .dir := by
  rw [isDir]
  split <;> simp_all

theorem lookup_insert_eq {node : Node F} (q : List N) :
    (t.insert path node).lookup q = if q = path then some node else t.lookup q := by
  split
  · rename_i heq
    subst heq
    exact AList.lookup_insert t
  · exact AList.lookup_insert_ne ‹_›

theorem lookup_erase_eq (q : List N) :
    (t.erase path).lookup q = if q = path then none else t.lookup q := by
  split
  · rename_i heq
    subst heq
    exact AList.lookup_erase q t
  · exact AList.lookup_erase_ne ‹_›

theorem unlink_eq (hun : unlink t path = some t') :
    isLeaf t path = true ∧ t' = t.erase path := by
  rw [unlink] at hun
  split at hun
  · exact ⟨‹_›, (Option.some.inj hun).symm⟩
  · contradiction

theorem add_eq {node : Node F} (hadd : add t path node = some t') :
    t.lookup path = none ∧ t' = t.insert path node := by
  rw [add] at hadd
  split at hadd
  · rename_i hok
    exact ⟨hok.1, (Option.some.inj hadd).symm⟩
  · contradiction

theorem rmdir_eq (hrm : rmdir t path = some t') : t' = t.erase path := by
  rw [rmdir] at hrm
  split at hrm
  · exact (Option.some.inj hrm).symm
  · contradiction

theorem isDir_of_rmdir (hrm : rmdir t path = some t') : isDir t path = true := by
  rw [rmdir] at hrm
  split at hrm
  · rename_i hok
    exact hok.1
  · contradiction

theorem isDir_unlink (hun : unlink t path = some t') (hq : isDir t q = true) :
    isDir t' q = true := by
  obtain ⟨hleaf, rfl⟩ := unlink_eq hun
  rw [isDir_iff] at hq ⊢
  rw [lookup_erase_eq, if_neg, hq]
  rintro rfl
  rw [isLeaf, hq] at hleaf
  contradiction

theorem isDir_add {node : Node F} (hadd : add t path node = some t') (hq : isDir t q = true) :
    isDir t' q = true := by
  obtain ⟨hnone, rfl⟩ := add_eq hadd
  rw [isDir_iff] at hq ⊢
  rw [lookup_insert_eq, if_neg, hq]
  rintro rfl
  rw [hq] at hnone
  contradiction

theorem isDir_rmdir (hrm : rmdir t path = some t') (hq : isDir t q = true) (hne : q ≠ path) :
    isDir t' q = true := by
  rw [isDir_iff] at hq ⊢
  rw [rmdir_eq hrm, lookup_erase_eq, if_neg hne, hq]

theorem rename_eq (hre : rename t old new = some t') :
    ∃ node, t.lookup old = some node ∧ node ≠ .dir ∧ isDir t new = false ∧
      isDir t new.dropLast = true ∧ t' = (t.erase old).insert new node := by
  rw [rename] at hre
  split at hre
  · contradiction
  · contradiction
  · rename_i node hdir hold
    split at hre
    · contradiction
    · rename_i hok
      rw [not_or, not_not] at hok
      refine ⟨node, hold, ?_, by simpa using hok.1, hok.2, (Option.some.inj hre).symm⟩
      rintro rfl
      exact hdir rfl

theorem mkdirs_spec (t : Tree N F) (paths : List (List N)) (limit : Nat) :
    (∀ q, (mkdirs t paths limit).1.lookup q =
      if q ∈ (mkdirs t paths limit).2.1 then some .dir else t.lookup q) ∧
    ∀ q ∈ (mkdirs t paths limit).2.1, q ∈ paths ∧ t.lookup q = none := by
  induction paths generalizing t limit with
  | nil => simp [mkdirs]
  | cons path paths ih =>
    cases hnode : t.lookup path with
    | some node =>
      cases node with
      | dir =>
        obtain ⟨hlookup, hmade⟩ := ih t limit
        simp only [mkdirs, hnode]
        exact ⟨hlookup, fun q hq => ⟨List.mem_cons_of_mem _ (hmade q hq).1, (hmade q hq).2⟩⟩
      | link target | file f => simp [mkdirs, hnode]
    | none =>
      cases limit with
      | zero => simp [mkdirs, hnode]
      | succ limit =>
        obtain ⟨hlookup, hmade⟩ := ih (t.insert path .dir) limit
        simp only [mkdirs, hnode]
        refine ⟨fun q => ?_, fun q hq => ?_⟩
        · simp only [hlookup, lookup_insert_eq, List.mem_cons]
          by_cases hq : q = path <;> simp [hq]
        · rcases List.mem_cons.mp hq with rfl | hq
          · exact ⟨List.mem_cons_self, hnode⟩
          · obtain ⟨hmem, hlook⟩ := hmade q hq
            rw [lookup_insert_eq] at hlook
            split at hlook
            · contradiction
            · exact ⟨List.mem_cons_of_mem _ hmem, hlook⟩

theorem mkdirs_ok {paths : List (List N)} {limit : Nat}
    (hfree : ∀ q ∈ paths, t.lookup q = none ∨ t.lookup q = some .dir)
    (hlimit : paths.length ≤ limit) : (mkdirs t paths limit).2.2 = true := by
  induction paths generalizing t limit with
  | nil => rfl
  | cons path paths ih =>
    rcases hfree path List.mem_cons_self with hnone | hdir
    · obtain ⟨limit, rfl⟩ : ∃ l, limit = l + 1 := ⟨limit - 1, by simp at hlimit; omega⟩
      simp only [mkdirs, hnone]
      refine ih (fun q hq => ?_) (by simpa using hlimit)
      rw [lookup_insert_eq]
      split
      · exact .inr rfl
      · exact hfree q (List.mem_cons_of_mem _ hq)
    · simp only [mkdirs, hdir]
      exact ih (fun q hq => hfree q (List.mem_cons_of_mem _ hq)) (Nat.le_of_succ_le hlimit)

theorem lookup_mkdirs_of_some {paths : List (List N)} {limit : Nat} {node : Node F}
    (hq : t.lookup q = some node) : (mkdirs t paths limit).1.lookup q = some node := by
  obtain ⟨hlookup, hmade⟩ := mkdirs_spec t paths limit
  rw [hlookup, if_neg, hq]
  intro hmem
  rw [(hmade q hmem).2] at hq
  contradiction

end Lookup

end FileTree
