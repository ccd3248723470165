import OdinLink.Daemon.CatalogExchange

/-!
# Paths as the identity of files

The scan of the shared folder gives each file its path as the key of its catalog entry. The entry
has the path once more, in an array of 256 bytes, and the peer is told of the keys without a slash
only.
-/

namespace OdinLink

open Paths FileTree Scripts

abbrev Found := List UInt8 × FileInfo

def Found.entry (f : Found) : CatalogEntry := ⟨copyPath f.1, f.2, .localOnly⟩

def scanCatalog (c : Catalog) (found : List Found) : Catalog :=
  found.foldl (fun c f => c.set f.1 f.entry) c

def SyncOp.Scans (op : SyncOp) : Prop :=
  op.changesKnown = false ∨ ∃ f : Found, op = .catalogSet f.1 f.entry

section Scan
variable {sha256 : List UInt8 → List UInt8} {m : SyncMem} {path rel : List UInt8}

theorem scanFolder_scans (fuel : Nat) : AllOps SyncOp.Scans (scanFolder fuel path rel) := by
  refine scanFolder_ops (fun _ => .inl rfl) (fun _ => ⟨.inl rfl, .inl rfl⟩) fun rel node sha => ?_
  refine .inr ⟨(rel, (scanned rel node sha).info), ?_⟩
  cases node <;> rfl

theorem scanFolder_catalog (fuel : Nat) : Gives sha256
    (fun m' _ => ∃ found, m'.catalog = scanCatalog m.catalog found) (scanFolder fuel path rel) m := by
  refine (scanFolder_scans fuel).ensures
    (J := fun m' : SyncMem => ∃ found, m'.catalog = scanCatalog m.catalog found) ?_ ⟨[], rfl⟩
  rintro m₁ op x m₂ r es hop hexec ⟨found, hfound⟩
  rcases hop with hop | ⟨f, rfl⟩
  · exact ⟨found, (congrArg Prod.fst ((exec_keeps hexec).known hop)).trans hfound⟩
  · cases hexec
    refine ⟨found ++ [f], ?_⟩
    simp only [hfound, scanCatalog, List.foldl_append, List.foldl_cons, List.foldl_nil]

end Scan

/-- The path that a FETCH_REQ for a key of the peer's catalog leads to: it is cut off when it is
sent, and again by the handler. -/
def requestedPath (key : List UInt8) : List UInt8 := copyPath (copyPath key)

structure KeepsIdentity (d : SyncDirs) (sha256 : List UInt8 → List UInt8) (found : List Found) :
    Prop where
  keys : ∀ key e, (scanCatalog ∅ found).lookup key = some e → e.relPath = key
  apart : ∀ f ∈ found, ((scanCatalog ∅ found).lookup f.1).isSome = true
  listed : ∀ b b' : SyncMem, b.listing = [] ∧ b.listingInProgress = false →
    Handled d sha256 (exchangeMsgs (scanCatalog ∅ found)) b b' →
    ∀ f ∈ found, atPeer (b'.catalog.lookup f.1) = true
  fetched : ∀ f ∈ found,
    resolve (sharedPath d (requestedPath f.1)) = resolve (sharedPath d f.1) ∧
      (scanCatalog ∅ found).lookup (requestedPath f.1) = (scanCatalog ∅ found).lookup f.1

section Keys
variable {c : Catalog} {found : List Found} {key : List UInt8}

theorem copyPath_eq_self {p : List UInt8} : copyPath p = p ↔ p.length ≤ 255 :=
  List.take_eq_self_iff p

theorem scanCatalog_lookup
    (hc : ∀ e, c.lookup key = some e → e.relPath = copyPath key ∧ e.location = .localOnly) :
    (∀ e, (scanCatalog c found).lookup key = some e →
      e.relPath = copyPath key ∧ e.location = .localOnly) ∧
    (((scanCatalog c found).lookup key).isSome = true ↔
      (c.lookup key).isSome = true ∨ ∃ f ∈ found, f.1 = key) := by
  induction found generalizing c with
  | nil => simpa [scanCatalog] using hc
  | cons f found ih =>
    have hset : (c.set f.1 f.entry).lookup key =
        if f.1 = key then some {f.entry with relPath := copyPath key} else c.lookup key := by
      rw [Catalog.set]
      split
      · rename_i hkey
        subst hkey
        rw [AList.lookup_insert]
      · rename_i hkey
        rw [AList.lookup_insert_ne (Ne.symm hkey)]
    obtain ⟨hpath, hsome⟩ := ih (c := c.set f.1 f.entry) (by
      intro e he
      rw [hset] at he
      split at he
      · cases he
        exact ⟨rfl, rfl⟩
      · exact hc e he)
    refine ⟨hpath, hsome.trans ?_⟩
    rw [hset]
    by_cases hkey : f.1 = key <;> simp [hkey]

theorem scanCatalog_entry {e : CatalogEntry} (he : (scanCatalog ∅ found).lookup key = some e) :
    e.relPath = copyPath key ∧ e.location = .localOnly :=
  (scanCatalog_lookup (by simp)).1 e he

theorem scanCatalog_isSome :
    ((scanCatalog ∅ found).lookup key).isSome = true ↔ ∃ f ∈ found, f.1 = key := by
  rw [(scanCatalog_lookup (by simp)).2]
  simp

end Keys

theorem listed_scanCatalog_iff {found : List Found} {p : List UInt8} :
    Listed (scanCatalog ∅ found) p ↔ ∃ f ∈ found, slash ∉ f.1 ∧ copyPath f.1 = p := by
  have hcopy (key : List UInt8) : copyPath (copyPath key) = copyPath key := by
    simp [copyPath, List.take_take]
  constructor
  · rintro ⟨key, e, he, hslash, -, rfl⟩
    obtain ⟨f, hf, rfl⟩ := scanCatalog_isSome.mp (Option.isSome_iff_exists.mpr ⟨e, he⟩)
    exact ⟨f, hf, hslash, by rw [(scanCatalog_entry he).1, hcopy]⟩
  · rintro ⟨f, hf, hslash, rfl⟩
    obtain ⟨e, he⟩ := Option.isSome_iff_exists.mp (scanCatalog_isSome.mpr ⟨f, hf, rfl⟩)
    obtain ⟨hpath, hloc⟩ := scanCatalog_entry he
    exact ⟨f.1, e, he, hslash, by simp [entryHere, hloc], by rw [hpath, hcopy]⟩

theorem KeepsIdentity.length_le {d : SyncDirs} {sha256 : List UInt8 → List UInt8}
    {found : List Found} (hkeeps : KeepsIdentity d sha256 found) {f : Found} (hf : f ∈ found) :
    f.1.length ≤ 255 := by
  obtain ⟨e, he⟩ := Option.isSome_iff_exists.mp (hkeeps.apart f hf)
  exact copyPath_eq_self.mp ((scanCatalog_entry he).1.symm.trans (hkeeps.keys f.1 e he))

theorem KeepsIdentity.slash_notMem {d : SyncDirs} {sha256 : List UInt8 → List UInt8}
    {found : List Found} (hkeeps : KeepsIdentity d sha256 found) {f : Found} (hf : f ∈ found) :
    slash ∉ f.1 := by
  -- a peer that knows of nothing yet shows what is listed
  have hfree : plainMem.Free := ⟨rfl, rfl⟩
  obtain ⟨b', hall⟩ := hfree.exists_handled sha256 d (exchangeMsgs (scanCatalog ∅ found))
  rcases (hall.atPeer_iff ⟨rfl, rfl⟩).mp (hkeeps.listed plainMem b' ⟨rfl, rfl⟩ hall f hf) with
    h | h | h
  · contradiction
  · obtain ⟨g, hg, hslash, hgf⟩ := listed_scanCatalog_iff.mp h
    rwa [← hgf, copyPath_eq_self.mpr (hkeeps.length_le hg)]
  · exact absurd h.2 (by simp [plainMem, atPeer])

/-- A scan leaves the catalog of the files it found. The files keep their identity if and only if
their paths fit into the arrays and are listed: they are names at the top of the folder. -/
theorem keeps_identity_iff (d : SyncDirs) (sha256 : List UInt8 → List UInt8) :
    (∀ fuel path m m', m.catalog = ∅ → Runs sha256 (scanFolder fuel path []) m m' →
      ∃ found, m'.catalog = scanCatalog ∅ found) ∧
    ∀ found : List Found, KeepsIdentity d sha256 found ↔
      ∀ f ∈ found, f.1.length ≤ 255 ∧ slash ∉ f.1 := by
  refine ⟨fun fuel path m m' hm hruns => ?_, fun found => ⟨fun hkeeps f hf =>
    ⟨hkeeps.length_le hf, hkeeps.slash_notMem hf⟩, fun hall => ?_⟩⟩
  · rw [← hm]
    exact hruns.of_gives (scanFolder_catalog fuel)
  · have hself (f : Found) (hf : f ∈ found) : copyPath f.1 = f.1 :=
      copyPath_eq_self.mpr (hall f hf).1
    refine ⟨fun key e he => ?_, fun f hf => scanCatalog_isSome.mpr ⟨f, hf, rfl⟩,
      fun b b' hidle hhandled f hf => ?_, fun f hf => ?_⟩
    · obtain ⟨f, hf, rfl⟩ := scanCatalog_isSome.mp (Option.isSome_iff_exists.mpr ⟨e, he⟩)
      rw [(scanCatalog_entry he).1, hself f hf]
    · exact (hhandled.atPeer_iff hidle).mpr (.inr (.inl
        (listed_scanCatalog_iff.mpr ⟨f, hf, (hall f hf).2, hself f hf⟩)))
    · rw [requestedPath, hself f hf, hself f hf]
      exact ⟨rfl, rfl⟩

def nestedPath : Found := ([97, slash, 98], noInfo)

def longPath : Found := (List.replicate 127 97 ++ slash :: List.replicate 128 97, noInfo)

/-- A file in a directory is not listed, and one with a path of 256 bytes is found under no path that
a peer can name. -/
theorem nested_path_lost :
    (∃ b', Handled plainDirs id (exchangeMsgs (scanCatalog ∅ [nestedPath])) plainMem b' ∧
      atPeer (b'.catalog.lookup nestedPath.1) = false) ∧
    (∀ name ∈ comps longPath.1, name.length ≤ 255) ∧
      ((scanCatalog ∅ [longPath]).lookup longPath.1).isSome = true ∧
      (scanCatalog ∅ [longPath]).lookup (requestedPath longPath.1) = none := by
  have hfree : plainMem.Free := ⟨rfl, rfl⟩
  obtain ⟨b', hall⟩ := hfree.exists_handled id plainDirs (exchangeMsgs (scanCatalog ∅ [nestedPath]))
  refine ⟨⟨b', hall, Bool.eq_false_iff.mpr fun hpeer => ?_⟩, by decide +kernel⟩
  rcases (hall.atPeer_iff ⟨rfl, rfl⟩).mp hpeer with h | h | h
  · contradiction
  · obtain ⟨f, hf, hslash, -⟩ := listed_scanCatalog_iff.mp h
    rw [List.mem_singleton.mp hf] at hslash
    exact hslash (by decide)
  · exact absurd h.2 (by simp [plainMem, atPeer])

end OdinLink
