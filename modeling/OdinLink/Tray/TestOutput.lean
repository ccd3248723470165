import OdinLink.Tray.FileWindow

/-!
# The output of a test on its way to the tray

The daemon puts the output of a test into a JSON text, some of its characters escaped. The tray
searches the text for the field and takes the escapes back.
-/

namespace OdinLink.Tray

open CStrings

inductive TestType where
  | bandwidth
  | latency
  | latencyLoad
  | mimo
  | jitter
  | all

/-- What `test_type_from_str` accepts. -/
def testTypeToStr : TestType → List UInt8
  | .bandwidth => ascii "bandwidth"
  | .latency => ascii "latency"
  | .latencyLoad => ascii "latency_load"
  | .mimo => ascii "mimo"
  | .jitter => ascii "jitter"
  | .all => ascii "all"

def hexDigit (n : Nat) : UInt8 := (Nat.digitChar n).toUInt8

def escape (c : UInt8) : List UInt8 :=
  if c = quote then [backslash, quote]
  else if c = backslash then [backslash, backslash]
  else if c = 10 then [backslash, 110]
  else if c = 13 then [backslash, 114]
  else if c = 9 then [backslash, 116]
  else if 32 ≤ c then [c]
  else [backslash, 117, 48, 48, hexDigit (c.toNat / 16), hexDigit (c.toNat % 16)]

def outputField : Option (List UInt8) → List UInt8
  | some text => ascii "\"output\": \"" ++ text.flatMap escape ++ ascii "\"\n\x7d"
  | none => ascii "\"output\": null\n\x7d"

def buildResultJson (type : TestType) (deviceIndex : Nat) (success : Bool)
    (output : Option (List UInt8)) : List UInt8 :=
  (ascii "\x7b\n  \"test_type\": \"" ++ testTypeToStr type ++ ascii "\",\n  \"device_index\": ") ++
    decimal deviceIndex ++
    (ascii ",\n  \"success\": " ++ boolStr success ++ ascii ",\n  ") ++ outputField output

def isSpace (c : UInt8) : Bool := c = 32 || (9 ≤ c && c ≤ 13)

def unescapeChar (c : UInt8) : UInt8 :=
  if c = 110 then 10 else if c = 114 then 13 else if c = 116 then 9 else c

/-- The loop ends at a quote; a backslash at the very end is taken as it is. -/
def unescape : List UInt8 → List UInt8
  | [] => []
  | [c] => if c = quote then [] else [c]
  | c :: d :: s =>
    if c = quote then []
    else if c = backslash then unescapeChar d :: unescape s
    else c :: unescape (d :: s)

def extractJsonOutput (json : List UInt8) : Option (List UInt8) :=
  (strstr (ascii "\"output\":") json).bind fun key =>
    let key := (key.drop 9).dropWhile isSpace
    if (ascii "null").isPrefixOf key then none
    else if key.head? = some quote then some (unescape key.tail) else none

section Field
variable {c : UInt8} {pat s t : List UInt8}

theorem strstr_append_of_not_mem (hs : c ∉ s) : strstr (c :: pat) (s ++ t) = strstr (c :: pat) t := by
  induction s with
  | nil => rfl
  | cons a s ih =>
    rw [List.mem_cons, not_or] at hs
    rw [List.cons_append, strstr, ih hs.2]
    simp [List.isPrefixOf, hs.1]

def Apart (pat s : List UInt8) : Prop := ∀ u ∈ s.tails, u = [] ∨ ¬ pat <+: u ∧ ¬ u <+: pat

instance (pat s : List UInt8) : Decidable (Apart pat s) := inferInstanceAs (Decidable (∀ u ∈ _, _))

theorem strstr_append_of_apart (hs : Apart pat s) : strstr pat (s ++ t) = strstr pat t := by
  induction s with
  | nil => rfl
  | cons a s ih =>
    rw [Apart, List.tails_cons, List.forall_mem_cons] at hs
    obtain ⟨hpat, hu⟩ := hs.1.resolve_left (List.cons_ne_nil a s)
    have hno : ¬ pat.isPrefixOf (a :: (s ++ t)) = true := by
      rw [List.isPrefixOf_iff_prefix]
      intro hpre
      exact (List.prefix_or_prefix_of_prefix hpre (List.prefix_append (a :: s) t)).elim hpat hu
    rw [List.cons_append, strstr, if_neg hno, ih hs.2]

theorem quote_not_mem_decimal (n : Nat) : quote ∉ decimal n := by
  intro hmem
  obtain ⟨a, ha, hquote⟩ := List.mem_map.mp hmem
  have hdigit := Nat.isDigit_of_mem_toDigits (by decide) (by decide) ha
  rw [Char.isDigit, Bool.and_eq_true, decide_eq_true_eq, decide_eq_true_eq] at hdigit
  have hlow : 48 ≤ a.val.toNat := hdigit.1
  have hhigh : a.val.toNat ≤ 57 := hdigit.2
  have hval : a.val.toNat % 256 = 34 := congrArg UInt8.toNat hquote
  omega

theorem strstr_buildResultJson (type : TestType) (deviceIndex : Nat) (success : Bool)
    (output : Option (List UInt8)) :
    strstr (ascii "\"output\":") (buildResultJson type deviceIndex success output) =
      strstr (ascii "\"output\":") (outputField output) := by
  have hkey : ascii "\"output\":" = quote :: ascii "output\":" := by decide +kernel
  have htype : Apart (ascii "\"output\":") (ascii "\x7b\n  \"test_type\": \"" ++
      testTypeToStr type ++ ascii "\",\n  \"device_index\": ") := by
    cases type <;> decide +kernel
  have hsuccess : Apart (ascii "\"output\":")
      (ascii ",\n  \"success\": " ++ boolStr success ++ ascii ",\n  ") := by
    cases success <;> decide +kernel
  rw [buildResultJson, List.append_assoc, List.append_assoc, strstr_append_of_apart htype, hkey,
    strstr_append_of_not_mem (quote_not_mem_decimal _), ← hkey, strstr_append_of_apart hsuccess]

end Field

section RoundTrip

/-- What an escaped character becomes. -/
def arrives (c : UInt8) : List UInt8 :=
  if 32 ≤ c ∨ c = 10 ∨ c = 13 ∨ c = 9 then [c]
  else [117, 48, 48, hexDigit (c.toNat / 16), hexDigit (c.toNat % 16)]

theorem unescape_quote (s : List UInt8) : unescape (quote :: s) = [] := by
  cases s <;> simp [unescape]

theorem unescape_cons {c : UInt8} (hquote : c ≠ quote) (hback : c ≠ backslash) (s : List UInt8) :
    unescape (c :: s) = c :: unescape s := by
  cases s <;> simp [unescape, hquote, hback]

theorem unescape_backslash (d : UInt8) (s : List UInt8) :
    unescape (backslash :: d :: s) = unescapeChar d :: unescape s :=
  rfl

theorem hexDigit_plain {n : Nat} (hn : n < 16) : hexDigit n ≠ quote ∧ hexDigit n ≠ backslash := by
  have hall : ∀ k : Fin 16, hexDigit k ≠ quote ∧ hexDigit k ≠ backslash := by decide +kernel
  exact hall ⟨n, hn⟩

theorem unescape_escape (c : UInt8) (s : List UInt8) :
    unescape (escape c ++ s) = arrives c ++ unescape s := by
  rw [escape]
  split_ifs with hquote hback hn hr ht hprint
  · rw [hquote]
    rfl
  · rw [hback]
    rfl
  · rw [hn]
    rfl
  · rw [hr]
    rfl
  · rw [ht]
    rfl
  · rw [arrives, if_pos (.inl hprint)]
    exact unescape_cons hquote hback s
  · have hlt := c.toNat_lt
    obtain ⟨hq, hb⟩ := hexDigit_plain (n := c.toNat / 16) (by omega)
    obtain ⟨hq', hb'⟩ := hexDigit_plain (n := c.toNat % 16) (by omega)
    have hzero : (48 : UInt8) ≠ quote ∧ (48 : UInt8) ≠ backslash := by decide
    rw [arrives, if_neg (by simp [hprint, hn, hr, ht])]
    simp only [List.cons_append, List.nil_append, unescape_backslash, unescape_cons hzero.1 hzero.2,
      unescape_cons hq hb, unescape_cons hq' hb']
    rfl

theorem unescape_flatMap (text s : List UInt8) :
    unescape (text.flatMap escape ++ quote :: s) = text.flatMap arrives := by
  induction text with
  | nil => exact unescape_quote s
  | cons c text ih => rw [List.flatMap_cons, List.flatMap_cons, List.append_assoc, unescape_escape, ih]

theorem extract_build (type : TestType) (deviceIndex : Nat) (success : Bool) (text : List UInt8) :
    extractJsonOutput (buildResultJson type deviceIndex success (some text)) =
      some (text.flatMap arrives) := by
  have hfield : outputField (some text) = ascii "\"output\":" ++
      32 :: quote :: (text.flatMap escape ++ quote :: ascii "\n\x7d") := by
    rw [outputField, List.append_assoc]
    rfl
  have hfound (s : List UInt8) :
      strstr (ascii "\"output\":") (ascii "\"output\":" ++ s) = some (ascii "\"output\":" ++ s) :=
    rfl
  rw [extractJsonOutput, strstr_buildResultJson, hfield, hfound, Option.bind_some]
  exact congrArg some (unescape_flatMap text _)

theorem flatMap_arrives_iff (text : List UInt8) :
    text.flatMap arrives = text ↔ ∀ c ∈ text, 32 ≤ c ∨ c = 10 ∨ c = 13 ∨ c = 9 := by
  have hlen (text : List UInt8) : text.length ≤ (text.flatMap arrives).length := by
    induction text with
    | nil => rfl
    | cons c text ih =>
      rw [List.flatMap_cons, List.length_append, arrives]
      split <;> simp only [List.length_cons, List.length_nil] <;> omega
  induction text with
  | nil => simp
  | cons c text ih =>
    rw [List.flatMap_cons, List.forall_mem_cons]
    by_cases hc : 32 ≤ c ∨ c = 10 ∨ c = 13 ∨ c = 9
    · rw [arrives, if_pos hc, List.singleton_append, List.cons_inj_right]
      exact ih.trans (and_iff_right hc).symm
    · refine ⟨fun heq => ?_, fun hall => absurd hall.1 hc⟩
      have hlong := congrArg List.length heq
      have hle := hlen text
      rw [arrives, if_neg hc, List.length_append, List.length_cons] at hlong
      simp only [List.length_cons, List.length_nil] at hlong
      omega

end RoundTrip

/-- Test output survives exactly if it has no control characters but newlines, carriage returns and
tabs. -/
theorem output_survives_iff (type : TestType) (deviceIndex : Nat) (success : Bool)
    (text : List UInt8) :
    extractJsonOutput (buildResultJson type deviceIndex success (some text)) = some text ↔
      ∀ c ∈ text, 32 ≤ c ∨ c = 10 ∨ c = 13 ∨ c = 9 := by
  rw [extract_build, Option.some.injEq, flatMap_arrives_iff]

/-- The escape character of a terminal arrives as `u001b`. -/
theorem control_character_mangled :
    extractJsonOutput (buildResultJson .latency 0 true (some [27])) = some (ascii "u001b") := by
  decide +kernel

end OdinLink.Tray
