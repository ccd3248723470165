import Mathlib.Data.List.AList
import OdinLink.Lib.Paths

/-!
# The catalog of the sync engine

What is known of each path, relative to the shared folder: whether the file is here, at the peer, or
both.
-/

namespace OdinLink

open Paths

/-- `enum odl_file_location`. -/
inductive FileLocation where
  | localOnly
  | remote
  | cached
  | both
  deriving DecidableEq, Repr

structure FileInfo where
  fileSize : Nat
  mtimeNs : Nat
  mode : Nat
  isDir : Bool
  sha256 : List UInt8
  deriving DecidableEq, Repr

structure CatalogEntry where
  relPath : List UInt8
  info : FileInfo
  location : FileLocation
  deriving DecidableEq, Repr

abbrev Catalog := AList fun _ : List UInt8 => CatalogEntry

/-- `g_strlcpy` into an array of 256 bytes. -/
def copyPath (rel : List UInt8) : List UInt8 := rel.take 255

namespace Catalog
variable (c : Catalog)

def set (rel : List UInt8) (e : CatalogEntry) : Catalog := c.insert rel {e with relPath := copyPath rel}

def markCached (rel : List UInt8) : Catalog :=
  match c.lookup rel with
  | some e => if e.location = .remote then c.insert rel {e with location := .cached} else c
  | none => c

def markBoth (rel : List UInt8) : Catalog :=
  match c.lookup rel with
  | some e => c.insert rel {e with location := .both}
  | none => c

def dropRemote : Catalog where
  entries := c.entries.filter (·.2.location ≠ .remote)
  nodupKeys := c.nodupKeys.sublist List.filter_sublist

def addRemote (remote : CatalogEntry) : Catalog :=
  match c.lookup remote.relPath with
  | some e =>
    if e.location = .localOnly then c.insert remote.relPath {e with location := .both} else c
  | none => c.insert remote.relPath {remote with location := .remote}

def updateRemote (listing : List CatalogEntry) : Catalog := listing.foldl addRemote c.dropRemote

def inDir (dir key : List UInt8) : Bool :=
  if dir = [] then !key.contains slash
  else (dir ++ [slash]).isPrefixOf key &&
    !(key.drop (dir.length + 1)).isEmpty && !(key.drop (dir.length + 1)).contains slash

def listDir (dir : List UInt8) : List CatalogEntry :=
  (c.entries.filter fun e => inDir dir e.1).map (·.2)

section Listings
variable {d k : List UInt8}

def entriesIn (dir : List UInt8) : List ((_ : List UInt8) × CatalogEntry) :=
  c.entries.filter fun e => inDir dir e.1

theorem inDir_iff_of_ne (hd : d ≠ []) :
    inDir d k = true ↔ ∃ w, w ≠ [] ∧ slash ∉ w ∧ k = d ++ slash :: w := by
  rw [inDir, if_neg hd, Bool.and_eq_true, Bool.and_eq_true, List.isPrefixOf_iff_prefix]
  constructor
  · rintro ⟨⟨⟨w, rfl⟩, hne⟩, hslash⟩
    exact ⟨w, by simpa using hne, by simpa using hslash, by simp⟩
  · rintro ⟨w, hne, hslash, rfl⟩
    simp [hne, hslash]

theorem inDir_iff_parent (hk : Plain k) (hd : IsDirPath d) :
    inDir d k = true ↔ (comps k).dropLast = comps d := by
  obtain ⟨ws, w, hcomps, hne, hslash⟩ := hk.comps_concat
  rw [hcomps, List.dropLast_concat]
  obtain rfl | hd := hd
  · have hroot : inDir [] k = true ↔ slash ∉ k := by simp [inDir]
    rw [hroot, comps_nil]
    constructor
    · intro hk'
      rw [hk.comps_eq, splitSlash_of_not_mem hk', ← List.nil_append [k]] at hcomps
      exact (List.append_inj_left' hcomps rfl).symm
    · rintro rfl
      rwa [← IsDirPath.intercalate_comps (.inr hk), hcomps, List.nil_append,
        List.intercalate_singleton]
  · have hd' : d ≠ [] := by
      rintro rfl
      exact hd (List.mem_singleton_self _)
    rw [inDir_iff_of_ne hd']
    constructor
    · rintro ⟨v, -, hv, rfl⟩
      rw [hk.comps_eq, splitSlash_append_slash, splitSlash_of_not_mem hv, ← hd.comps_eq] at hcomps
      exact (List.append_inj_left' hcomps rfl).symm
    · rintro rfl
      refine ⟨w, hne, hslash, ?_⟩
      have hcd : comps d ≠ [] := hd.comps_eq ▸ splitSlash_ne_nil d
      rw [← IsDirPath.intercalate_comps (.inr hk), hcomps, intercalate_concat hcd,
        IsDirPath.intercalate_comps (.inr hd)]

/-- A listing has the entries whose path is that of the directory and one more component, each
once, and every entry is in the listing of one directory. -/
theorem listings_partition_catalog (hkeys : ∀ k ∈ c.keys, Plain k) :
    (∀ d, IsDirPath d → c.listDir d = (c.entriesIn d).map (·.2) ∧ (c.entriesIn d).Nodup ∧
      ∀ e, e ∈ c.entriesIn d ↔ e ∈ c.entries ∧ (comps e.1).dropLast = comps d) ∧
    ∀ e ∈ c.entries, ∃! d, IsDirPath d ∧ e ∈ c.entriesIn d := by
  have hplain (e) (he : e ∈ c.entries) : Plain e.1 := hkeys e.1 (List.mem_map_of_mem he)
  have hmem (d) (hd : IsDirPath d) (e) :
      e ∈ c.entriesIn d ↔ e ∈ c.entries ∧ (comps e.1).dropLast = comps d := by
    rw [entriesIn, List.mem_filter]
    exact and_congr_right fun he => inDir_iff_parent (hplain e he) hd
  refine ⟨fun d hd => ⟨rfl, c.nodupKeys.nodup.filter _, hmem d hd⟩, fun e he => ?_⟩
  obtain ⟨ws, w, hcomps, -, -⟩ := (hplain e he).comps_concat
  obtain ⟨hdir, hws⟩ := (hplain e he).isDirPath_of_concat hcomps
  refine ⟨[slash].intercalate ws, ⟨hdir, (hmem _ hdir e).mpr ⟨he, ?_⟩⟩, ?_⟩
  · rw [hcomps, List.dropLast_concat, hws]
  · rintro d ⟨hd, hin⟩
    have hparent := ((hmem d hd e).mp hin).2
    rw [hcomps, List.dropLast_concat] at hparent
    rw [hparent, hd.intercalate_comps]

/-- `a`, `a/b` and `ab/c`. -/
def siblings : Catalog :=
  [[97], [97, 47, 98], [97, 98, 47, 99]].foldl
    (fun c rel => c.set rel ⟨rel, ⟨0, 0, 0, false, []⟩, .both⟩) ∅

theorem listings_partition_siblings : (∀ k ∈ siblings.keys, Plain k) ∧
    (siblings.listDir [97]).map (·.relPath) = [[97, 47, 98]] ∧
    ∀ e ∈ siblings.entries, ∃! d, IsDirPath d ∧ e ∈ siblings.entriesIn d := by
  have hkeys : ∀ k ∈ siblings.keys, Plain k := by decide +kernel
  exact ⟨hkeys, by decide +kernel, (listings_partition_catalog _ hkeys).2⟩

end Listings

end Catalog

end OdinLink
