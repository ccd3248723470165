import OdinLink.Daemon.Catalog
import OdinLink.Lib.CStrings
import OdinLink.Lib.History

/-!
# The file window of the tray

The window keeps the directory it shows as a path that starts with a slash. It asks the daemon for
the entries of that directory, gets them as a JSON text and takes the text apart by searching for
braces and field names.
-/

namespace OdinLink.Tray

open Paths CStrings

def quote : UInt8 := 34
def comma : UInt8 := 44
def colon : UInt8 := 58
def backslash : UInt8 := 92
def openBrace : UInt8 := 123
def closeBrace : UInt8 := 125

section Daemon

def locStr : FileLocation → List UInt8
  | .localOnly => ascii "local"
  | .remote => ascii "remote"
  | .cached => ascii "cached"
  | .both => ascii "both"

def boolStr (b : Bool) : List UInt8 := if b then ascii "true" else ascii "false"

def decimal (n : Nat) : List UInt8 := (Nat.toDigits 10 n).map Char.toUInt8

/-- Paths are printed as they are, without any escapes. -/
def entryJson (e : CatalogEntry) : List UInt8 :=
  ascii "\x7b\"path\":\"" ++ e.relPath ++ ascii "\",\"location\":\"" ++ locStr e.location ++
    ascii "\",\"is_dir\":" ++ boolStr e.info.isDir ++ ascii ",\"size\":" ++
    decimal e.info.fileSize ++ ascii ",\"mtime\":" ++ decimal e.info.mtimeNs ++ [closeBrace]

def listFilesJson (c : Catalog) (dir : List UInt8) : List UInt8 :=
  ascii "[" ++ List.intercalate [comma] ((c.listDir dir).map entryJson) ++ ascii "]"

end Daemon

section Scanner

def isBlank (c : UInt8) : Bool := c = 32 || c = 9

/-- What follows a field name, up to the first character that is not blank. -/
def jsonField (obj key : List UInt8) : Option (List UInt8) :=
  (strstr (quote :: key ++ [quote, colon]) obj).map fun pos =>
    (pos.drop (key.length + 3)).dropWhile isBlank

/-- A string up to its closing quote, of `room` characters at most; a backslash is dropped and the
character after it is taken as it is. -/
def scanString : Nat → List UInt8 → List UInt8
  | 0, _ => []
  | _ + 1, [] => []
  | room + 1, c :: s =>
    if c = quote then []
    else if c = backslash then
      match s with
      | [] => [c]
      | d :: t => d :: scanString room t
    else c :: scanString room s

def jsonObjGetStr (obj key : List UInt8) (buflen : Nat) : Option (List UInt8) :=
  match jsonField obj key with
  | some (c :: s) => if c = quote then some (scanString (buflen - 1) s) else none
  | _ => none

def jsonObjGetBool (obj key : List UInt8) : Bool :=
  match jsonField obj key with
  | some s => (ascii "true").isPrefixOf s
  | none => false

end Scanner

structure Row where
  name : List UInt8
  isDir : Bool
  relPath : List UInt8
  locRaw : List UInt8
  deriving DecidableEq, Repr

def rootDir : List UInt8 := [slash]

def buildRelPath (dir name : List UInt8) : List UInt8 :=
  if dir = rootDir then slash :: name else dir ++ slash :: name

def objRow (dir obj : List UInt8) : Option Row :=
  match jsonObjGetStr obj (ascii "path") 512, jsonObjGetStr obj (ascii "location") 32 with
  | some path, some loc =>
    some ⟨path, jsonObjGetBool obj (ascii "is_dir"), buildRelPath dir path, loc⟩
  | _, _ => none

/-- The loop over the objects. Every round leaves a brace behind, so the length of the text bounds
the number of rounds. -/
def scanRows (dir : List UInt8) : Nat → List UInt8 → List Row
  | 0, _ => []
  | rounds + 1, cursor =>
    match strchr cursor openBrace with
    | none => []
    | some start =>
      match strchr start closeBrace with
      | none => []
      | some stop =>
        let obj := start.take (start.length - stop.length + 1)
        (objRow dir obj).toList ++ scanRows dir rounds (stop.drop 1)

/-- What `files_window_populate` shows. A call over D-Bus fails when its strings are not valid
(`utf8`), and then the window is empty. -/
def populate (utf8 : List UInt8 → Bool) (c : Catalog) (dir : List UInt8) : List Row :=
  let json := listFilesJson c dir
  if utf8 dir && utf8 json then scanRows dir json.length json else []

inductive Click where
  | activate (row : Nat)
  | up
  deriving DecidableEq, Repr

def onRowActivated (rows : List Row) (dir : List UInt8) (i : Nat) : List UInt8 :=
  match rows[i]? with
  | some row => if row.isDir then row.relPath else dir
  | none => dir

def onUpClicked (dir : List UInt8) : List UInt8 :=
  if dir = rootDir then dir
  else
    match beforeLast slash dir with
    | none | some [] => rootDir
    | some parent => parent

def click (utf8 : List UInt8 → Bool) (c : Catalog) (dir : List UInt8) : Click → List UInt8
  | .activate i => onRowActivated (populate utf8 c dir) dir i
  | .up => onUpClicked dir

inductive Visits (utf8 : List UInt8 → Bool) (c : Catalog) : List UInt8 → Prop where
  | root : Visits utf8 c rootDir
  | click {dir : List UInt8} (a : Click) :
    Visits utf8 c dir → Visits utf8 c (click utf8 c dir a)

/-- An entry of the catalog lies in a directory: its key is the directory's key, a slash and a name,
or the name alone in the root. -/
def IsChild (dir key : List UInt8) : Prop :=
  ∃ name, name ≠ [] ∧ slash ∉ name ∧ key = if dir = [] then name else dir ++ slash :: name

def dirKey (dir : List UInt8) : List UInt8 := if dir = rootDir then [] else dir

/-- The rows are those of the directory's entries, with their location and directory flag, and each
row passes back the key of its entry. -/
structure ShowsDir (utf8 : List UInt8 → Bool) (c : Catalog) (dir : List UInt8) : Prop where
  sound : ∀ row ∈ populate utf8 c dir, ∃ e, c.lookup row.relPath = some e ∧
    IsChild (dirKey dir) row.relPath ∧ row.locRaw = locStr e.location ∧ row.isDir = e.info.isDir
  complete : ∀ key e, c.lookup key = some e → IsChild (dirKey dir) key →
    ∃ row ∈ populate utf8 c dir, row.relPath = key
  distinct : ((populate utf8 c dir).map Row.relPath).Nodup

section Root
variable {utf8 : List UInt8 → Bool} {c : Catalog}

theorem listDir_root (hkeys : ∀ key e, c.lookup key = some e → ¬ IsChild rootDir key) :
    c.listDir rootDir = [] := by
  rw [Catalog.listDir, List.map_eq_nil_iff, List.filter_eq_nil_iff]
  intro e he hin
  exact hkeys e.1 e.2 (AList.mem_lookup_iff.mpr he)
    ((Catalog.inDir_iff_of_ne (by decide)).mp hin)

theorem populate_root (hkeys : ∀ key e, c.lookup key = some e → ¬ IsChild rootDir key) :
    populate utf8 c rootDir = [] := by
  simp only [populate, listFilesJson, listDir_root hkeys]
  split
  · decide
  · rfl

theorem isChild_root_iff {key : List UInt8} : IsChild [] key ↔ ¬ (key = [] ∨ slash ∈ key) := by
  rw [not_or]
  constructor
  · rintro ⟨name, hne, hslash, rfl⟩
    exact ⟨hne, hslash⟩
  · intro h
    exact ⟨key, h.1, h.2, rfl⟩

end Root

theorem visits_eq_root {utf8 : List UInt8 → Bool} {c : Catalog}
    (hrows : populate utf8 c rootDir = []) {dir : List UInt8} (h : Visits utf8 c dir) :
    dir = rootDir := by
  induction h with
  | root => rfl
  | click a _ ih =>
    subst ih
    cases a with
    | activate i => simp [click, onRowActivated, hrows]
    | up => simp [click, onUpClicked]

def fileInfo (isDir : Bool) : FileInfo := ⟨3, 0, 0, isDir, []⟩

def holding (path : List UInt8) : Catalog :=
  AList.singleton path ⟨path, fileInfo false, .both⟩

theorem holding_lookup {path key : List UInt8} {e : CatalogEntry}
    (h : (holding path).lookup key = some e) : key = path := by
  by_contra hne
  rw [holding, AList.lookup_eq_none.mpr (by simpa [AList.mem_keys] using hne)] at h
  cases h

end OdinLink.Tray
