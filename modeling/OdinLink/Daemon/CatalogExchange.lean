import OdinLink.Daemon.Confinement
import OdinLink.Daemon.Delivery

/-!
# What an exchange of catalogs tells the peer

One engine sends its catalog, the other handles the messages. What is sent are the entries that have
no slash in their path, and what they are merged into keeps every copy that it says the peer had.
-/

namespace OdinLink

open Paths FileTree Scripts

def atPeer (ce : Option CatalogEntry) : Bool :=
  ce.any fun e => decide (e.location ≠ .localOnly)

def hasCopy (ce : Option CatalogEntry) : Bool :=
  ce.any fun e => decide (e.location = .cached ∨ e.location = .both)

def merged (listing : List CatalogEntry) (p : List UInt8) : Option CatalogEntry → Option CatalogEntry
  | none => (listing.find? fun r => decide (r.relPath = p)).map (relocate · .remote)
  | some e =>
    if e.location = .localOnly ∧ ∃ r ∈ listing, r.relPath = p then some (relocate e .both) else some e

def kept (ce : Option CatalogEntry) : Option CatalogEntry :=
  ce.filter fun e => decide (e.location ≠ .remote)

section Merge
variable {c : Catalog} {p : List UInt8} {ce : Option CatalogEntry} {listing : List CatalogEntry}

theorem dropRemote_lookup : c.dropRemote.lookup p = kept (c.lookup p) := by
  ext e
  rw [kept, ← Option.mem_def, AList.mem_lookup_iff, ← Option.mem_def, Option.mem_filter_iff,
    AList.mem_lookup_iff]
  simp [Catalog.dropRemote]

theorem merged_addRemote {r : CatalogEntry} :
    merged listing p ((c.addRemote r).lookup p) = merged (r :: listing) p (c.lookup p) := by
  rw [Catalog.addRemote]
  by_cases hp : r.relPath = p
  · subst hp
    cases h : c.lookup r.relPath with
    | none => simp [merged, relocate]
    | some e => by_cases hloc : e.location = .localOnly <;> simp [merged, relocate, hloc, h]
  · have hother (e : CatalogEntry) : (c.insert r.relPath e).lookup p = c.lookup p :=
      AList.lookup_insert_ne (Ne.symm hp)
    have hmerged : merged listing p (c.lookup p) = merged (r :: listing) p (c.lookup p) := by
      cases c.lookup p <;> simp [merged, hp]
    split
    · split
      · rw [hother, hmerged]
      · exact hmerged
    · rw [hother, hmerged]

theorem updateRemote_lookup :
    (c.updateRemote listing).lookup p = merged listing p (kept (c.lookup p)) := by
  rw [Catalog.updateRemote, ← dropRemote_lookup]
  generalize c.dropRemote = c
  induction listing generalizing c with
  | nil => cases h : c.lookup p <;> simp [merged, h]
  | cons r rs ih => rw [List.foldl_cons, ih, merged_addRemote]

theorem atPeer_merged :
    atPeer (merged listing p ce) = (atPeer ce || listing.any fun r => decide (r.relPath = p)) := by
  cases ce with
  | none =>
    rw [← List.isSome_find?, merged]
    cases listing.find? fun r => decide (r.relPath = p) <;> rfl
  | some e =>
    rw [merged]
    split
    · simp_all [atPeer, relocate]
    · rw [Bool.eq_iff_iff]
      simp_all [atPeer]
      tauto

theorem atPeer_kept : atPeer (kept ce) = hasCopy ce := by
  cases ce with
  | none => rfl
  | some e => cases hloc : e.location <;> simp [kept, atPeer, hasCopy, hloc]

theorem atPeer_updateRemote : atPeer ((c.updateRemote listing).lookup p) =
    (hasCopy (c.lookup p) || listing.any fun r => decide (r.relPath = p)) := by
  rw [updateRemote_lookup, atPeer_merged, atPeer_kept]

end Merge

/-! The sender. -/

def entryHere (e : CatalogEntry) : Bool := decide (e.location = .localOnly ∨ e.location = .both)

def listedEntries (entries : List CatalogEntry) : List SyncMsg :=
  (entries.filter entryHere).map fun e => .listingEntry e.relPath e.info

def exchangeMsgs (c : Catalog) : List SyncMsg :=
  .syncReq :: (listedEntries (c.listDir []) ++ [.listingEnd])

def Lossless (_ : SyncMem) (_ : SyncOp) (x : SyncEnv) : Prop := x.ok = true

section Sender
variable {sha256 : List UInt8 → List UInt8} {m : SyncMem}

theorem sendListing_ensures {entries : List CatalogEntry} :
    Ensures (exec sha256) Lossless (fun _ => True)
      (fun m' _ => m' = m.sending (listedEntries entries)) (sendListing entries) m := by
  induction entries generalizing m with
  | nil => exact m.sending_nil.symm
  | cons e es ih =>
    have hlisted : listedEntries (e :: es) = listedEntries [e] ++ listedEntries es := by
      rw [listedEntries, ← List.singleton_append, List.filter_append, List.map_append]
      rfl
    rw [hlisted, ← SyncMem.sending_sending]
    refine Ensures.bind (R := fun m' _ => m' = m.sending (listedEntries [e]))
      (Ensures.when (fun hhere => ?_) fun hhere => ?_) ?_
    · refine Until.op trivial fun x m' r es hok hexec => ?_
      cases (exec_send hok).symm.trans hexec
      simp [listedEntries, entryHere, hhere]
    · simp [listedEntries, entryHere, hhere]
    · rintro _ _ rfl
      exact ih

theorem syncExchangeCatalog_ensures : Ensures (exec sha256) Lossless (fun _ => True)
    (fun m' _ => m'.sent = m.sent ++ exchangeMsgs m.catalog) syncExchangeCatalog m := by
  refine Until.op trivial fun x m₁ _ _ _ hexec => ?_
  rw [exec] at hexec
  split at hexec <;> cases hexec
  refine Until.op trivial fun x m₁ _ _ hok hexec => ?_
  cases (exec_send hok).symm.trans hexec
  refine Ensures.bind (R := fun m' _ => m'.sent = m.sent ++ exchangeMsgs m.catalog)
    (Ensures.when (fun _ => ?_) fun hno => absurd rfl hno) fun m' _ hsent => ?_
  · refine Until.op trivial fun x m₁ _ _ _ hexec => ?_
    cases hexec
    refine Ensures.bind sendListing_ensures ?_
    rintro _ _ rfl
    refine Until.op trivial fun x m₁ _ _ hok hexec => ?_
    cases (exec_send hok).symm.trans hexec
    simp [SyncMem.sending, exchangeMsgs]
  · refine .inr ⟨trivial, fun x m₁ _ _ _ hexec => ?_⟩
    cases hexec
    exact hsent

end Sender

/-! The receiver. -/

section Receiver
variable {d : SyncDirs} {sha256 : List UInt8 → List UInt8} {m m' : SyncMem}

theorem gives_known {α : Type} {p : Sync α} (hp : AllOps (fun op => op.changesKnown = false) p) :
    Gives sha256 (fun m' _ => m'.known = m.known) p m :=
  hp.ensures (fun _ _ _ _ _ _ hop hexec hm => ((exec_keeps hexec).known hop).trans hm) rfl

theorem syncReq_known (hruns : Runs sha256 (syncDispatch d .syncReq) m m') : m'.known = m.known :=
  hruns.of_gives (gives_known
    (syncExchangeCatalog_ops ⟨rfl, rfl⟩ rfl ⟨rfl, rfl⟩ fun _ _ => rfl))

theorem listingEntry_known {rel : List UInt8} {info : FileInfo}
    (hruns : Runs sha256 (syncDispatch d (.listingEntry rel info)) m m') :
    m'.known = (m.catalog, ⟨copyPath rel, info, .remote⟩ :: m.listing, true) := by
  refine hruns.of_gives (Q := fun m' _ => m'.known = _) (gives_op fun _ _ _ _ hget => ?_)
  cases hget
  refine gives_lastOp fun _ _ _ _ hset => ?_
  cases hset
  rfl

theorem listingEnd_catalog (hruns : Runs sha256 (syncDispatch d .listingEnd) m m') :
    m'.catalog = if m.listing = [] ∧ m.listingInProgress = false then m.catalog
      else m.catalog.updateRemote m.listing := by
  refine hruns.of_gives (Q := fun m' _ => m'.catalog = _) (gives_op fun _ _ _ _ hget => ?_)
  cases hget
  split
  · exact rfl
  · refine gives_op fun _ _ _ _ hupdate => ?_
    cases hupdate
    have hlink (rel : List UInt8) :
        AllOps (fun op => op.changesKnown = false) (syncCreateRemoteSymlink d rel) :=
      .op rfl fun _ => .op rfl fun _ => .bind (.when (.op rfl fun _ => trivial))
        fun _ => .op rfl fun _ => .op rfl fun _ => trivial
    refine Ensures.bind (gives_known (linkListing_ops (fun _ => rfl) hlink)) fun m₁ _ hm₁ => ?_
    refine gives_lastOp fun _ _ _ _ hset => ?_
    cases hset
    exact congrArg Prod.fst hm₁

def collected (e : CatalogEntry) : CatalogEntry := ⟨copyPath e.relPath, e.info, .remote⟩

theorem listing_catalog {es : List CatalogEntry}
    (hall : Handled d sha256 (es.map (fun e => .listingEntry e.relPath e.info) ++ [.listingEnd]) m m') :
    m'.catalog = if es = [] ∧ m.listing = [] ∧ m.listingInProgress = false then m.catalog
      else m.catalog.updateRemote ((es.map collected).reverse ++ m.listing) := by
  induction es generalizing m with
  | nil =>
    cases hall with
    | cons hruns hrest =>
      cases hrest
      rw [listingEnd_catalog hruns]
      simp
  | cons e es ih =>
    cases hall with
    | @cons _ _ _ m₁ _ hruns hrest =>
      have hknown := listingEntry_known hruns
      simp only [SyncMem.known, Prod.mk.injEq] at hknown
      obtain ⟨hcatalog, hlisting, hprogress⟩ := hknown
      rw [ih hrest, hcatalog, hlisting]
      simp [collected]

end Receiver

structure Exchanged (d : SyncDirs) (sha256 : List UInt8 → List UInt8) (a b a' b' : SyncMem) : Prop where
  sent : ∃ xs es, (∀ x ∈ xs, x.ok = true) ∧
    finish (exec sha256) syncExchangeCatalog a xs = some (a', (), es)
  received : ∃ msgs, a'.sent = a.sent ++ msgs ∧ Handled d sha256 msgs b b'

/-- The path is sent: it is that of an entry for a file that is here, at the top of the folder. -/
def Listed (c : Catalog) (p : List UInt8) : Prop :=
  ∃ key e, c.lookup key = some e ∧ slash ∉ key ∧ entryHere e = true ∧ copyPath e.relPath = p

/-- Every file that is here is listed, or is known at the peer from before; the peer knows of no
other; and something is listed, if the peer is to forget what it knew. -/
structure ListsAll (ca cb : Catalog) : Prop where
  reaches : ∀ p, isHere (ca.lookup p) = true → Listed ca p ∨ hasCopy (cb.lookup p) = true ∨
    (∀ q, ¬ Listed ca q) ∧ atPeer (cb.lookup p) = true
  listed : ∀ p, Listed ca p → isHere (ca.lookup p) = true
  current : ∀ p, hasCopy (cb.lookup p) = true → isHere (ca.lookup p) = true
  stale : (∀ q, ¬ Listed ca q) → ∀ p, atPeer (cb.lookup p) = true → isHere (ca.lookup p) = true

section Exchange
variable {d : SyncDirs} {sha256 : List UInt8 → List UInt8} {a b a' b' : SyncMem} {p : List UInt8}

theorem listed_iff {c : Catalog} : Listed c p ↔
    ∃ e ∈ (c.listDir []).filter entryHere, copyPath e.relPath = p := by
  simp only [Listed, Catalog.listDir, List.mem_filter, List.mem_map, Sigma.exists, Catalog.inDir,
    if_true]
  constructor
  · rintro ⟨key, e, hlookup, hkey, hhere, hp⟩
    rw [← Option.mem_def, AList.mem_lookup_iff] at hlookup
    exact ⟨e, ⟨⟨key, e, ⟨hlookup, by simpa using hkey⟩, rfl⟩, hhere⟩, hp⟩
  · rintro ⟨e, ⟨⟨key, e', ⟨hmem, hkey⟩, rfl⟩, hhere⟩, hp⟩
    rw [← AList.mem_lookup_iff, Option.mem_def] at hmem
    exact ⟨key, e', hmem, by simpa using hkey, hhere, hp⟩

theorem hasCopy_atPeer {ce : Option CatalogEntry} (h : hasCopy ce = true) : atPeer ce = true := by
  cases ce with
  | none => contradiction
  | some e => cases hloc : e.location <;> simp_all [hasCopy, atPeer]

theorem Handled.atPeer_iff {c : Catalog} (hall : Handled d sha256 (exchangeMsgs c) b b')
    (hlisting : b.listing = [] ∧ b.listingInProgress = false) :
    atPeer (b'.catalog.lookup p) = true ↔
      hasCopy (b.catalog.lookup p) = true ∨ Listed c p ∨
        (∀ q, ¬ Listed c q) ∧ atPeer (b.catalog.lookup p) = true := by
  cases hall with
  | @cons _ _ _ b₁ _ hruns hrest =>
    have hknown := syncReq_known hruns
    simp only [SyncMem.known, Prod.mk.injEq, hlisting.1, hlisting.2] at hknown
    obtain ⟨hcatalog, hlisting, hprogress⟩ := hknown
    rw [listedEntries] at hrest
    rw [listing_catalog hrest, hcatalog, hlisting, hprogress]
    by_cases hnone : (c.listDir []).filter entryHere = []
    · have hno (q : List UInt8) : ¬ Listed c q := by simp [listed_iff, hnone]
      rw [if_pos ⟨hnone, rfl, rfl⟩]
      exact ⟨fun h => .inr (.inr ⟨hno, h⟩), fun h => h.elim hasCopy_atPeer fun h =>
        h.elim (fun h => absurd h (hno p)) And.right⟩
    · have hsome : ¬ ∀ q, ¬ Listed c q := by
        obtain ⟨e, he⟩ := List.exists_mem_of_ne_nil _ hnone
        exact fun hno => hno _ (listed_iff.mpr ⟨e, he, rfl⟩)
      rw [if_neg (fun h => hnone h.1), atPeer_updateRemote, Bool.or_eq_true, listed_iff]
      simp only [List.append_nil, List.any_reverse, List.any_map, List.any_eq_true,
        Function.comp_apply, decide_eq_true_eq, hsome, false_and, or_false]
      rfl

theorem Exchanged.atPeer_iff (hex : Exchanged d sha256 a b a' b')
    (hlisting : b.listing = [] ∧ b.listingInProgress = false) :
    atPeer (b'.catalog.lookup p) = true ↔
      hasCopy (b.catalog.lookup p) = true ∨ Listed a.catalog p ∨
        (∀ q, ¬ Listed a.catalog q) ∧ atPeer (b.catalog.lookup p) = true := by
  obtain ⟨xs, es, hok, hfin⟩ := hex.sent
  obtain ⟨msgs, hmsgs, hall⟩ := hex.received
  have hsent := syncExchangeCatalog_ensures.finish (.of_forall fun _ _ => hok) hfin
  rw [hmsgs, List.append_cancel_left_eq] at hsent
  subst hsent
  exact hall.atPeer_iff hlisting

variable (d sha256) in
theorem exists_exchanged (ha : a.Free) (hb : b.Free) : ∃ a' b', Exchanged d sha256 a b a' b' := by
  have hends : Ends (fun _ => True) syncExchangeCatalog :=
    syncExchangeCatalog_ends trivial (fun _ _ => trivial) trivial
  obtain ⟨n, a', r, es, hfin⟩ := (ha.agrees _).finishes sha256 hends
    (fun _ => ⟨true, 0, [], none⟩) (by simp)
  have hok : ∀ x ∈ (List.range n).map fun _ => (⟨true, 0, [], none⟩ : SyncEnv), x.ok = true := by
    simp
  have hsent := syncExchangeCatalog_ensures.finish (.of_forall fun _ _ => hok) hfin
  obtain ⟨b', hall⟩ := hb.exists_handled sha256 d (exchangeMsgs a.catalog)
  exact ⟨a', b', ⟨_, es, hok, hfin⟩, _, hsent, hall⟩

variable (d sha256) in
/-- An exchange comes to its end, and it is complete if and only if all that is here is listed. -/
theorem exchange_complete_iff (ha : a.Free) (hb : b.Free)
    (hlisting : b.listing = [] ∧ b.listingInProgress = false) :
    (∃ a' b', Exchanged d sha256 a b a' b') ∧ ∀ a' b', Exchanged d sha256 a b a' b' →
      ((∀ p, atPeer (b'.catalog.lookup p) = true ↔ isHere (a.catalog.lookup p) = true) ↔
        ListsAll a.catalog b.catalog) := by
  refine ⟨exists_exchanged d sha256 ha hb, fun a' b' hex => ?_⟩
  have hiff (p : List UInt8) := hex.atPeer_iff (p := p) hlisting
  constructor
  · intro hcomplete
    refine ⟨fun p hp => ?_, fun p hp => ?_, fun p hp => ?_, fun hno p hp => ?_⟩
    · rcases (hiff p).mp ((hcomplete p).mpr hp) with h | h | h
      · exact .inr (.inl h)
      · exact .inl h
      · exact .inr (.inr h)
    · exact (hcomplete p).mp ((hiff p).mpr (.inr (.inl hp)))
    · exact (hcomplete p).mp ((hiff p).mpr (.inl hp))
    · exact (hcomplete p).mp ((hiff p).mpr (.inr (.inr ⟨hno, hp⟩)))
  · intro hall p
    rw [hiff p]
    constructor
    · rintro (h | h | ⟨hno, h⟩)
      · exact hall.current p h
      · exact hall.listed p h
      · exact hall.stale hno p h
    · intro hp
      rcases hall.reaches p hp with h | h | h
      · exact .inr (.inl h)
      · exact .inl h
      · exact .inr (.inr h)

end Exchange

def hereAt (p : List UInt8) : SyncMem :=
  {plainMem with catalog := Catalog.set ∅ p ⟨p, noInfo, .localOnly⟩}

theorem hereAt_lookup {p q : List UInt8} {e : CatalogEntry} :
    (hereAt p).catalog.lookup q = some e ↔ q = p ∧ e = ⟨copyPath p, noInfo, .localOnly⟩ := by
  rw [hereAt, Catalog.set]
  by_cases hq : q = p
  · subst hq
    rw [AList.lookup_insert, Option.some.injEq]
    exact ⟨fun h => ⟨rfl, h.symm⟩, fun h => h.2.symm⟩
  · rw [AList.lookup_insert_ne hq]
    simp [hq]

theorem hereAt_isHere {p q : List UInt8} :
    isHere ((hereAt p).catalog.lookup q) = true ↔ q = p := by
  simp only [isHere, Option.any_eq_true, hereAt_lookup]
  constructor
  · rintro ⟨e, ⟨hq, -⟩, -⟩
    exact hq
  · rintro rfl
    exact ⟨_, ⟨rfl, rfl⟩, by simp⟩

theorem hereAt_listed {p q : List UInt8} (hq : Listed (hereAt p).catalog q) :
    slash ∉ p ∧ copyPath (copyPath p) = q := by
  obtain ⟨key, e, hlookup, hkey, -, hpath⟩ := hq
  obtain ⟨rfl, rfl⟩ := hereAt_lookup.mp hlookup
  exact ⟨hkey, hpath⟩

theorem exchange_complete_top : ∃ a' b', Exchanged plainDirs id (hereAt [97]) plainMem a' b' ∧
    ∀ p, atPeer (b'.catalog.lookup p) = true ↔ isHere ((hereAt [97]).catalog.lookup p) = true := by
  obtain ⟨⟨a', b', hex⟩, hiff⟩ :=
    exchange_complete_iff plainDirs id (a := hereAt [97]) (b := plainMem) ⟨rfl, rfl⟩ ⟨rfl, rfl⟩
      ⟨rfl, rfl⟩
  refine ⟨a', b', hex, (hiff a' b' hex).mpr ⟨fun p hp => ?_, fun p hp => ?_, ?_, ?_⟩⟩
  · rw [hereAt_isHere.mp hp]
    exact .inl ⟨[97], _, hereAt_lookup.mpr ⟨rfl, rfl⟩, by decide, rfl, rfl⟩
  · rw [hereAt_isHere, ← (hereAt_listed hp).2]
    rfl
  · intro p hp
    contradiction
  · intro _ p hp
    contradiction

/-- A file in a directory is not listed. -/
theorem exchange_misses_nested :
    (∃ a' b', Exchanged plainDirs id (hereAt [97, 47, 98]) plainMem a' b') ∧
      isHere ((hereAt [97, 47, 98]).catalog.lookup [97, 47, 98]) = true ∧
      ∀ a' b', Exchanged plainDirs id (hereAt [97, 47, 98]) plainMem a' b' →
        atPeer (b'.catalog.lookup [97, 47, 98]) = false := by
  refine ⟨exists_exchanged _ _ ⟨rfl, rfl⟩ ⟨rfl, rfl⟩, hereAt_isHere.mpr rfl, fun a' b' hex => ?_⟩
  rw [Bool.eq_false_iff]
  intro hpeer
  rcases (hex.atPeer_iff ⟨rfl, rfl⟩).mp hpeer with h | h | h
  · contradiction
  · exact absurd (hereAt_listed h).1 (by decide)
  · exact absurd h.2 (by decide)

/-! What a listing makes of the catalog. -/

/-- The catalog `c'` shows the peer's files as the listing has them, and the files here as `c`
does. -/
structure RemoteView (c : Catalog) (listing : List CatalogEntry) (c' : Catalog) : Prop where
  atPeer_iff : ∀ p, atPeer (c'.lookup p) = true ↔ ∃ r ∈ listing, r.relPath = p
  here : ∀ p, isHere (c.lookup p) = true → isHere (c'.lookup p) = true
  info : ∀ p e, c'.lookup p = some e → e.location = .remote → e ∈ listing ∧ e.relPath = p

structure Replaces (m : SyncMem) (listing : List CatalogEntry) : Prop where
  copies : ∀ p, hasCopy (m.catalog.lookup p) = true → ∃ r ∈ listing, r.relPath = p
  leftover : ∀ r ∈ m.listing, ∃ r' ∈ listing, r'.relPath = r.relPath
  skipped : listing = [] ∧ m.listing = [] ∧ m.listingInProgress = false →
    ∀ p, atPeer (m.catalog.lookup p) = false

section Listing
variable {c : Catalog} {listing leftover : List CatalogEntry} {p : List UInt8} {e : CatalogEntry}

theorem isHere_updateRemote (hp : isHere (c.lookup p) = true) :
    isHere ((c.updateRemote listing).lookup p) = true := by
  rw [isHere, Option.any_eq_true] at hp
  obtain ⟨e, he, hloc⟩ := hp
  have hkept : kept (c.lookup p) = some e := by
    rw [he, kept, Option.filter_some, if_pos]
    rcases of_decide_eq_true hloc with hloc | hloc <;> simp [hloc]
  rw [updateRemote_lookup, hkept, merged]
  split
  · rfl
  · exact hloc

theorem remote_updateRemote (he : (c.updateRemote listing).lookup p = some e)
    (hremote : e.location = .remote) :
    ∃ r, listing.find? (fun r => decide (r.relPath = p)) = some r ∧ e = relocate r .remote := by
  rw [updateRemote_lookup] at he
  cases hkept : kept (c.lookup p) with
  | none =>
    rw [hkept] at he
    obtain ⟨r, hr, rfl⟩ := Option.map_eq_some_iff.mp he
    exact ⟨r, hr, rfl⟩
  | some e' =>
    have hne : e'.location ≠ .remote := by
      simpa using (Option.mem_filter_iff.mp hkept).2
    rw [hkept, merged] at he
    split at he
    · cases he
      contradiction
    · cases he
      exact absurd hremote hne

theorem remoteView_updateRemote (hloc : ∀ r ∈ listing, r.location = .remote)
    (hcopies : ∀ p, hasCopy (c.lookup p) = true → ∃ r ∈ listing, r.relPath = p)
    (hleft : ∀ r ∈ leftover, ∃ r' ∈ listing, r'.relPath = r.relPath) :
    RemoteView c listing (c.updateRemote (listing.reverse ++ leftover)) := by
  refine ⟨fun p => ?_, fun p => isHere_updateRemote, fun p e he hremote => ?_⟩
  · simp only [atPeer_updateRemote, Bool.or_eq_true, List.any_eq_true, List.mem_append,
      List.mem_reverse, decide_eq_true_eq]
    constructor
    · rintro (hp | ⟨r, hr | hr, rfl⟩)
      · exact hcopies p hp
      · exact ⟨r, hr, rfl⟩
      · exact hleft r hr
    · rintro ⟨r, hr, hp⟩
      exact .inr ⟨r, .inl hr, hp⟩
  · obtain ⟨r, hfind, rfl⟩ := remote_updateRemote he hremote
    have hp : r.relPath = p := by simpa using List.find?_some hfind
    have hr : r ∈ listing := by
      rw [List.find?_append] at hfind
      rcases Option.or_eq_some_iff.mp hfind with hfind | ⟨hnone, hfind⟩
      · exact List.mem_reverse.mp (List.mem_of_find?_eq_some hfind)
      · obtain ⟨r', hr', hpath⟩ := hleft r (List.mem_of_find?_eq_some hfind)
        have hno := List.find?_eq_none.mp hnone r' (List.mem_reverse.mpr hr')
        exact absurd (hpath.trans hp) (by simpa using hno)
    have hsame : relocate r .remote = r := by rw [relocate, ← hloc r hr]
    rw [hsame]
    exact ⟨hr, hp⟩

variable (d : SyncDirs) (sha256 : List UInt8 → List UInt8) (m : SyncMem) in
/-- A listing that is received up to its end replaces what is known of the peer if and only if it
has all that there is a copy of, is not mixed with an earlier one and not skipped. -/
theorem listing_replaces_iff (es : List CatalogEntry) :
    (m.Free → ∃ m', Handled d sha256
      (es.map (fun e => .listingEntry e.relPath e.info) ++ [.listingEnd]) m m') ∧
    ∀ m', Handled d sha256 (es.map (fun e => .listingEntry e.relPath e.info) ++ [.listingEnd]) m m' →
      (RemoteView m.catalog (es.map collected) m'.catalog ↔ Replaces m (es.map collected)) := by
  refine ⟨fun hfree => hfree.exists_handled sha256 d _, fun m' hall => ?_⟩
  rw [listing_catalog hall]
  split
  · rename_i hskip
    obtain ⟨rfl, hleft, hidle⟩ := hskip
    constructor
    · intro hview
      have hnone (p : List UInt8) : ¬ atPeer (m.catalog.lookup p) = true := by
        simp [hview.atPeer_iff p]
      refine ⟨fun p hp => absurd (hasCopy_atPeer hp) (hnone p), by simp [hleft], fun _ p => ?_⟩
      exact Bool.eq_false_iff.mpr (hnone p)
    · intro hrep
      have hnone := hrep.skipped ⟨rfl, hleft, hidle⟩
      refine ⟨fun p => by simp [hnone p], fun _ hp => hp, fun p e he hremote => ?_⟩
      have hp := hnone p
      simp [he, atPeer, hremote] at hp
  · rename_i hread
    constructor
    · intro hview
      refine ⟨fun p hp => ?_, fun r hr => ?_, fun hskip => ?_⟩
      · refine (hview.atPeer_iff p).mp ?_
        rw [atPeer_updateRemote, hp, Bool.true_or]
      · refine (hview.atPeer_iff r.relPath).mp ?_
        rw [atPeer_updateRemote, Bool.or_eq_true, List.any_eq_true]
        exact .inr ⟨r, List.mem_append_right _ hr, decide_eq_true rfl⟩
      · exact absurd ⟨List.map_eq_nil_iff.mp hskip.1, hskip.2⟩ hread
    · intro hrep
      refine remoteView_updateRemote (fun r hr => ?_) hrep.copies hrep.leftover
      obtain ⟨e, -, rfl⟩ := List.mem_map.mp hr
      rfl

end Listing

def staleCopy : SyncMem :=
  {plainMem with catalog := Catalog.set ∅ [97] ⟨[97], noInfo, .cached⟩}

theorem listing_keeps_stale_copy : ∃ m', Handled plainDirs id
      [.listingEntry [98] noInfo, .listingEnd] staleCopy m' ∧
    (m'.catalog.lookup [97]).map CatalogEntry.location = some .cached := by
  have hfree : staleCopy.Free := ⟨rfl, rfl⟩
  obtain ⟨m', hall⟩ := hfree.exists_handled id plainDirs [.listingEntry [98] noInfo, .listingEnd]
  refine ⟨m', hall, ?_⟩
  rw [@listing_catalog _ _ _ _ [⟨[98], noInfo, .remote⟩] hall]
  decide +kernel

end OdinLink
