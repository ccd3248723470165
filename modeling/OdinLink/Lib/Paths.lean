import Mathlib.Data.List.DropRight
import Mathlib.Data.List.Infix

/-!
# Path names

A path name is a string of bytes. Its components are what stands between the slashes, and a path is
resolved by walking along them: `.` stays, `..` goes up and every other component goes down. The walk
starts at the root; `resolveFrom` starts it at a working directory if the path is a relative one.
-/

namespace Paths

def slash : UInt8 := 47

def dot : UInt8 := 46

abbrev Name := List UInt8

def splitSlash : List UInt8 → List Name
  | [] => [[]]
  | c :: s =>
    if c = slash then [] :: splitSlash s
    else
      match splitSlash s with
      | [] => [[c]]
      | w :: ws => (c :: w) :: ws

def comps (s : List UInt8) : List Name := (splitSlash s).filter (· ≠ [])

section Comps
variable {a b s : List UInt8}

theorem splitSlash_ne_nil (s : List UInt8) : splitSlash s ≠ [] := by
  cases s with
  | nil => simp [splitSlash]
  | cons c s =>
    rw [splitSlash]
    split
    · simp
    · split <;> simp

theorem splitSlash_append_slash (a b : List UInt8) :
    splitSlash (a ++ slash :: b) = splitSlash a ++ splitSlash b := by
  induction a with
  | nil => simp [splitSlash]
  | cons c a ih =>
    rw [List.cons_append, splitSlash, splitSlash, ih]
    split
    · rfl
    · cases hw : splitSlash a with
      | nil => exact absurd hw (splitSlash_ne_nil a)
      | cons w ws => rfl

theorem splitSlash_of_not_mem (hs : slash ∉ s) : splitSlash s = [s] := by
  induction s with
  | nil => rfl
  | cons c s ih =>
    rw [List.mem_cons, not_or] at hs
    rw [splitSlash, if_neg (Ne.symm hs.1), ih hs.2]

@[simp] theorem comps_nil : comps [] = [] := rfl

theorem comps_append_slash (a b : List UInt8) : comps (a ++ slash :: b) = comps a ++ comps b := by
  rw [comps, splitSlash_append_slash, List.filter_append]
  rfl

theorem comps_cons_slash (b : List UInt8) : comps (slash :: b) = comps b :=
  comps_append_slash [] b

theorem comps_concat_slash (a : List UInt8) : comps (a ++ [slash]) = comps a := by
  rw [comps_append_slash, comps_nil, List.append_nil]

theorem comps_of_not_mem (hs : slash ∉ s) : comps s = if s = [] then [] else [s] := by
  rw [comps, splitSlash_of_not_mem hs]
  split <;> simp_all

theorem comps_dropWhile (s : List UInt8) : comps (s.dropWhile (· = slash)) = comps s := by
  induction s with
  | nil => rfl
  | cons c s ih =>
    rw [List.dropWhile_cons]
    split
    · rename_i hc
      rw [ih, of_decide_eq_true hc, comps_cons_slash]
    · rfl

theorem comps_rdropWhile (s : List UInt8) : comps (s.rdropWhile (· = slash)) = comps s := by
  induction s using List.reverseRecOn with
  | nil => rfl
  | append_singleton s c ih =>
    rw [List.rdropWhile_concat]
    split
    · rename_i hc
      rw [ih, of_decide_eq_true hc, comps_concat_slash]
    · rfl

end Comps

section Walk

def here : Name := [dot]

def up : Name := [dot, dot]

def walk (dir : List Name) : List Name → List Name
  | [] => dir
  | w :: ws => walk (if w = here then dir else if w = up then dir.dropLast else dir ++ [w]) ws

def resolve (s : List UInt8) : List Name := walk [] (comps s)

theorem walk_append (dir ws vs : List Name) : walk dir (ws ++ vs) = walk (walk dir ws) vs := by
  induction ws generalizing dir with
  | nil => rfl
  | cons w ws ih => exact ih _

theorem walk_of_not_up {ws : List Name} (hws : up ∉ ws) (dir : List Name) :
    walk dir ws = dir ++ ws.filter (· ≠ here) := by
  induction ws generalizing dir with
  | nil => simp [walk]
  | cons w ws ih =>
    rw [List.mem_cons, not_or] at hws
    rw [walk, ih hws.2, if_neg (Ne.symm hws.1), List.filter_cons]
    split <;> simp [*]

def Inside (dir path : List Name) : Prop := dir <+: path ∧ dir ≠ path

instance (dir path : List Name) : Decidable (Inside dir path) := inferInstanceAs (Decidable (_ ∧ _))

theorem inside_append {ws : List Name} (dir : List Name) (hws : ws ≠ []) :
    Inside dir (dir ++ ws) :=
  ⟨List.prefix_append dir ws, by simpa using hws⟩

theorem Inside.append {dir path : List Name} (hin : Inside dir path) (ws : List Name) :
    Inside dir (path ++ ws) := by
  obtain ⟨⟨vs, rfl⟩, hne⟩ := hin
  rw [List.append_assoc]
  exact inside_append dir fun hnil => hne (by rw [(List.append_eq_nil_iff.mp hnil).1, List.append_nil])

theorem inside_or_eq {dir path : List Name} (hpre : dir <+: path) : path = dir ∨ Inside dir path := by
  by_cases heq : path = dir
  · exact .inl heq
  · exact .inr ⟨hpre, Ne.symm heq⟩

theorem Inside.disjoint {a b path : List Name} (ha : Inside a path) (hb : Inside b path)
    (hab : ¬ a <+: b) (hba : ¬ b <+: a) : False :=
  (List.prefix_or_prefix_of_prefix ha.1 hb.1).elim hab hba

/-- The string leads below the directory that it is taken from. -/
def Below (s : List UInt8) : Prop := up ∉ comps s ∧ (comps s).filter (· ≠ here) ≠ []

instance (s : List UInt8) : Decidable (Below s) := inferInstanceAs (Decidable (_ ∧ _))

theorem Below.ne_nil {s : List UInt8} (hs : Below s) : s ≠ [] := by
  rintro rfl
  exact hs.2 rfl

theorem resolve_append_slash (a b : List UInt8) :
    resolve (a ++ slash :: b) = walk (resolve a) (comps b) := by
  rw [resolve, comps_append_slash, walk_append]
  rfl

theorem Below.inside_append_slash {b : List UInt8} (hb : Below b) (a : List UInt8) :
    Inside (resolve a) (resolve (a ++ slash :: b)) := by
  rw [resolve_append_slash, walk_of_not_up hb.1]
  exact inside_append _ hb.2

def wayTo (path : List UInt8) : List (List Name) :=
  (List.range (comps path).length).map fun i => walk [] ((comps path).take (i + 1))

theorem mem_wayTo {s : List UInt8} {q : List Name} :
    q ∈ wayTo s ↔ ∃ ws, ws ≠ [] ∧ ws <+: comps s ∧ walk [] ws = q := by
  constructor
  · intro hq
    obtain ⟨i, hi, rfl⟩ := List.mem_map.mp hq
    have hlt : i < (comps s).length := List.mem_range.mp hi
    refine ⟨_, ?_, List.take_prefix _ _, rfl⟩
    rw [ne_eq, List.take_eq_nil_iff]
    rintro (hzero | hnil)
    · contradiction
    · rw [hnil] at hlt
      contradiction
  · rintro ⟨ws, hne, hws, rfl⟩
    have hpos : 0 < ws.length := List.length_pos_iff.mpr hne
    have hle := hws.length_le
    refine List.mem_map.mpr ⟨ws.length - 1, List.mem_range.mpr (by omega), ?_⟩
    rw [Nat.sub_add_cancel hpos, ← List.prefix_iff_eq_take.mp hws]

/-- The way to what is reached from a directory without `..` goes to the directory and then stays
below it. -/
theorem wayTo_cases {a b s : List UInt8} {q : List Name} (hs : comps s <+: comps a ++ comps b)
    (hb : up ∉ comps b) (hq : q ∈ wayTo s) :
    q ∈ wayTo a ∨ q = resolve a ∨ Inside (resolve a) q := by
  obtain ⟨ws, hne, hws, rfl⟩ := mem_wayTo.mp hq
  rcases List.prefix_or_prefix_of_prefix (hws.trans hs) (List.prefix_append _ _) with hpre | hpre
  · exact .inl (mem_wayTo.mpr ⟨ws, hne, hpre, rfl⟩)
  · obtain ⟨vs, rfl⟩ := hpre
    have hvs : vs <+: comps b := (List.prefix_append_right_inj _).mp (hws.trans hs)
    rw [walk_append, walk_of_not_up fun hup => hb (hvs.subset hup)]
    exact .inr (inside_or_eq (List.prefix_append _ _))

end Walk

section Build

/-- Joins two strings with exactly one slash; an empty string is left out. -/
def join (a b : List UInt8) : List UInt8 :=
  if b = [] then a else if a = [] then b
  else a.rdropWhile (· = slash) ++ slash :: b.dropWhile (· = slash)

@[simp] theorem comps_join (a b : List UInt8) : comps (join a b) = comps a ++ comps b := by
  rw [join]
  split
  · simp [*]
  · split
    · simp [*]
    · rw [comps_append_slash, comps_rdropWhile, comps_dropWhile]

theorem resolve_join (a b : List UInt8) : resolve (join a b) = walk (resolve a) (comps b) := by
  rw [resolve, comps_join, walk_append]
  rfl

theorem Below.inside {a b : List UInt8} (hb : Below b) : Inside (resolve a) (resolve (join a b)) := by
  rw [resolve_join, walk_of_not_up hb.1]
  exact inside_append _ hb.2

/-- Where the name leads to in a process with this working directory. -/
def resolveFrom (cwd : List Name) (s : List UInt8) : List Name :=
  walk (if s.head? = some slash then [] else cwd) (comps s)

theorem resolveFrom_append_slash {a : List UInt8} (ha : a ≠ []) (cwd : List Name) (b : List UInt8) :
    resolveFrom cwd (a ++ slash :: b) = walk (resolveFrom cwd a) (comps b) := by
  rw [resolveFrom, comps_append_slash, walk_append, List.head?_append_of_ne_nil a ha]
  rfl

theorem head?_join {a b : List UInt8} (ha : a ≠ []) : (join a b).head? = a.head? := by
  rw [join, if_neg ha]
  split
  · rfl
  obtain ⟨t, ht⟩ := List.rdropWhile_prefix (· = slash) (l := a)
  cases hw : a.rdropWhile (· = slash) with
  | nil =>
    -- the first string has only slashes
    obtain ⟨c, a, rfl⟩ := List.exists_cons_of_ne_nil ha
    have hc := List.rdropWhile_eq_nil_iff.mp hw c List.mem_cons_self
    rw [of_decide_eq_true hc]
    rfl
  | cons c w =>
    rw [← ht, hw]
    rfl

theorem resolveFrom_join {a : List UInt8} (ha : a ≠ []) (cwd : List Name) (b : List UInt8) :
    resolveFrom cwd (join a b) = walk (resolveFrom cwd a) (comps b) := by
  rw [resolveFrom, comps_join, walk_append, head?_join ha]
  rfl

/-- What stands before the last slash, without the slashes at its end. -/
def dirname (s : List UInt8) : List UInt8 :=
  if slash ∉ s then here
  else if (s.rdropWhile (· ≠ slash)).rdropWhile (· = slash) = [] then [slash]
  else (s.rdropWhile (· ≠ slash)).rdropWhile (· = slash)

theorem comps_dirname {s : List UInt8} (hs : slash ∈ s) :
    comps (dirname s) = comps (s.rdropWhile (· ≠ slash)) := by
  rw [dirname, if_neg (not_not_intro hs)]
  split
  · rename_i hnil
    rw [← comps_rdropWhile (s.rdropWhile (· ≠ slash)), hnil]
    rfl
  · rw [comps_rdropWhile]

theorem comps_dirname_prefix {s : List UInt8} (hs : slash ∈ s) : comps (dirname s) <+: comps s := by
  have hne : s.rdropWhile (· ≠ slash) ≠ [] := by
    intro hnil
    have hall := List.rdropWhile_eq_nil_iff.mp hnil slash hs
    simp at hall
  obtain ⟨b, hb⟩ := List.rdropWhile_prefix (· ≠ slash) (l := s)
  have hlast := List.rdropWhile_last_not (· ≠ slash) s hne
  have hsplit := List.dropLast_append_getLast hne
  rw [decide_eq_true_eq, not_not] at hlast
  rw [hlast] at hsplit
  rw [comps_dirname hs, ← hsplit, comps_concat_slash]
  refine ⟨comps b, ?_⟩
  rw [← comps_append_slash, List.append_cons, hsplit, hb]

theorem wayTo_join {a b : List UInt8} {q : List Name} (hb : up ∉ comps b)
    (hq : q ∈ wayTo (join a b)) : q ∈ wayTo a ∨ q = resolve a ∨ Inside (resolve a) q :=
  wayTo_cases (by rw [comps_join]) hb hq

theorem wayTo_dirname_join {a b : List UInt8} {q : List Name} (hb : Below b)
    (hq : q ∈ wayTo (dirname (join a b))) :
    q ∈ wayTo a ∨ q = resolve a ∨ Inside (resolve a) q := by
  by_cases hs : slash ∈ join a b
  · refine wayTo_cases ?_ hb.1 hq
    rw [← comps_join]
    exact comps_dirname_prefix hs
  · -- then the directory is the one that the names are taken from
    have ha : a = [] := by
      by_contra ha
      rw [join, if_neg hb.ne_nil, if_neg ha] at hs
      simp at hs
    subst ha
    rw [dirname, if_pos hs] at hq
    rw [List.mem_singleton.mp (show q ∈ [[]] from hq)]
    exact .inr (.inl rfl)

theorem resolve_child {w : Name} (hw : slash ∉ w) (hne : w ≠ []) (hhere : w ≠ here) (hup : w ≠ up)
    (a : List UInt8) : resolve (a ++ slash :: w) = resolve a ++ [w] := by
  rw [resolve_append_slash, comps_of_not_mem hw, if_neg hne, walk, walk, if_neg hhere, if_neg hup]

end Build

section Plain
variable {s d : List UInt8} {w : Name} {ws : List Name}

/-- A relative path without empty components, so without a slash at either end. -/
def Plain (s : List UInt8) : Prop := [] ∉ splitSlash s

instance (s : List UInt8) : Decidable (Plain s) := inferInstanceAs (Decidable (_ ∉ _))

def IsDirPath (d : List UInt8) : Prop := d = [] ∨ Plain d

theorem Plain.comps_eq (hs : Plain s) : comps s = splitSlash s :=
  List.filter_eq_self.mpr fun _ hw => decide_eq_true fun hnil => hs (hnil ▸ hw)

theorem intercalate_splitSlash (s : List UInt8) : [slash].intercalate (splitSlash s) = s := by
  induction s with
  | nil => rfl
  | cons c s ih =>
    rw [splitSlash]
    split
    · rename_i hc
      rw [List.intercalate_cons_of_ne_nil (splitSlash_ne_nil s), ih, hc]
      rfl
    · cases hws : splitSlash s with
      | nil => exact absurd hws (splitSlash_ne_nil s)
      | cons w ws =>
        rw [hws] at ih
        rw [← ih]
        cases ws <;> simp [List.intercalate_cons_cons]

theorem not_mem_of_mem_splitSlash (hw : w ∈ splitSlash s) : slash ∉ w := by
  induction s generalizing w with
  | nil => simp_all [splitSlash]
  | cons c s ih =>
    rw [splitSlash] at hw
    split at hw
    · cases hw with
      | head => exact List.not_mem_nil
      | tail _ hw => exact ih hw
    · rename_i hc
      cases hws : splitSlash s with
      | nil => exact absurd hws (splitSlash_ne_nil s)
      | cons v vs =>
        rw [hws] at hw ih
        cases hw with
        | head => simpa [Ne.symm hc] using ih List.mem_cons_self
        | tail _ hw => exact ih (List.mem_cons_of_mem v hw)

theorem intercalate_concat (hws : ws ≠ []) (w : Name) :
    [slash].intercalate (ws ++ [w]) = [slash].intercalate ws ++ slash :: w := by
  induction ws with
  | nil => contradiction
  | cons v vs ih =>
    cases vs with
    | nil => simp [List.intercalate_cons_cons]
    | cons u us => simpa [List.intercalate_cons_cons] using ih (List.cons_ne_nil u us)

theorem IsDirPath.intercalate_comps (hd : IsDirPath d) : [slash].intercalate (comps d) = d := by
  obtain rfl | hd := hd
  · rfl
  · rw [hd.comps_eq, intercalate_splitSlash]

theorem Plain.comps_concat (hs : Plain s) : ∃ ws w, comps s = ws ++ [w] ∧ w ≠ [] ∧ slash ∉ w := by
  have hsplit := List.dropLast_concat_getLast (splitSlash_ne_nil s)
  have hlast := List.getLast_mem (splitSlash_ne_nil s)
  exact ⟨_, _, hs.comps_eq.trans hsplit.symm, fun hnil => hs (hnil ▸ hlast),
    not_mem_of_mem_splitSlash hlast⟩

theorem Plain.isDirPath_of_concat (hs : Plain s) (hws : comps s = ws ++ [w]) :
    IsDirPath ([slash].intercalate ws) ∧ comps ([slash].intercalate ws) = ws := by
  by_cases hnil : ws = []
  · subst hnil
    exact ⟨.inl rfl, rfl⟩
  rw [hs.comps_eq] at hws
  have hslash : slash ∉ w := not_mem_of_mem_splitSlash (hws ▸ List.mem_concat_self)
  have hpath : s = [slash].intercalate ws ++ slash :: w := by
    rw [← intercalate_concat hnil, ← hws, intercalate_splitSlash]
  have hsplit : splitSlash ([slash].intercalate ws) = ws := by
    rw [hpath, splitSlash_append_slash, splitSlash_of_not_mem hslash] at hws
    exact List.append_cancel_right hws
  have hplain : Plain ([slash].intercalate ws) := by
    rw [Plain, hsplit]
    exact fun hmem => hs (hws ▸ List.mem_append_left [w] hmem)
  exact ⟨.inr hplain, hplain.comps_eq.trans hsplit⟩

end Plain

end Paths
