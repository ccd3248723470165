import OdinLink.Tray.TestOutput

/-!
# The parser of test output

Two loops search the output for the headings of blocks and go on behind the block that was parsed.
A pointer is the rest of the text from there on, an offset counts from the start of the text; the
text has fewer than `2 ^ 31` bytes.
-/

namespace OdinLink.Tray

open CStrings Relation

def parseMaxStats : Nat := 4

def parseHistBuckets : Nat := 13

/-- A number as `sscanf` reads it. The sign makes no difference to whether it is zero. -/
def scanNumber (s : List UInt8) : Option Nat :=
  let s := s.dropWhile isSpace
  let s := if s.head? = some 43 ∨ s.head? = some 45 then s.tail else s
  let digits := s.takeWhile fun c => 48 ≤ c && c ≤ 57
  if digits = [] then none else some (digits.foldl (fun n c => 10 * n + (c.toNat - 48)) 0)

/-- The label and the number of samples in a heading, which is 0 if it cannot be read. -/
def scanHeading (header : List UInt8) : Option (List UInt8 × Nat) :=
  let s := (header.drop 3).dropWhile isSpace
  let label := (s.takeWhile (· ≠ 40)).take 63
  let rest := (s.drop label.length).dropWhile isSpace
  if label = [] then none
  else some (label, if rest.head? = some 40 then (scanNumber rest.tail).getD 0 else 0)

theorem length_next_lt {line : List UInt8} (hline : line ≠ []) (c : UInt8) :
    ((line.dropWhile (· ≠ c)).drop 1).length < line.length := by
  have hpos := List.length_pos_of_ne_nil hline
  have hle := (List.dropWhile_suffix (l := line) (· ≠ c)).length_le
  rw [List.length_drop]
  omega

def statLines (line stop : List UInt8) : List (List UInt8) :=
  if stop.length < line.length then
    (line.takeWhile (· ≠ 10)).take 255 :: statLines ((line.dropWhile (· ≠ 10)).drop 1) stop
  else []
termination_by line.length
decreasing_by exact length_next_lt (by rintro rfl; simp at *) 10

structure ParsedStats where
  label : List UInt8
  sampleCount : Nat
  lines : List (List UInt8)

def parseStatsBlock (text : List UInt8) (offset : Nat) : Option (ParsedStats × Nat) :=
  (strstr (ascii "=== ") (text.drop offset)).bind fun header =>
    (scanHeading header).map fun (label, count) =>
      let blockEnd := (strstr (ascii "\n===") (header.drop 4)).getD []
      (⟨label.rdropWhile isSpace, count, statLines header blockEnd⟩, text.length - blockEnd.length)

def histLines (line : List UInt8) (n : Nat) : Nat × List UInt8 :=
  if line = [] ∨ parseHistBuckets ≤ n then (n, line)
  else match strchr line 124 with
    | none => (n, line)
    | some bar =>
      let cp := (bar.drop 1).dropWhile (· = 35)
      let n' := if (scanNumber cp).isSome then n + 1 else n
      if 10 ∉ line then (n', line)
      else
        let next := (line.dropWhile (· ≠ 10)).drop 1
        if (strchr next 124).isNone ∨ next.head? ≠ some 32 ∧ next.head? ≠ some 9 then (n', next)
        else histLines next n'
termination_by line.length
decreasing_by exact length_next_lt (by simp_all) 10

def parseHistogram (text : List UInt8) (offset : Nat) : Option (Nat × Nat) :=
  (strstr (ascii "Histogram:") (text.drop offset)).bind fun header =>
    (strchr header 10).map fun nl =>
      let r := histLines (nl.drop 1) 0
      (r.1, text.length - r.2.length)

abbrev Search := Nat × List UInt8

/-- A round of either loop, `none` when it is over; `block` tells whether the block is valid and
where it ends. -/
def searchRound (pat : List UInt8) (block : List UInt8 → Option (Bool × Nat)) (text : List UInt8)
    (s : Search) : Option Search :=
  if parseMaxStats ≤ s.1 then none
  else (strstr pat s.2).map fun found =>
    match block found with
    | none => (s.1, found.drop pat.length)
    | some (valid, stop) => (if valid then s.1 + 1 else s.1, text.drop stop)

def statsBlock (text found : List UInt8) : Option (Bool × Nat) :=
  if (ascii "=== Latency Comparison").isPrefixOf found then none
  else (parseStatsBlock text (text.length - found.length)).map fun r =>
    (decide (0 < r.1.sampleCount), r.2)

/-- The histogram is looked for from 20 bytes before the heading on. -/
def histBlock (text found : List UInt8) : Option (Bool × Nat) :=
  (parseHistogram text (text.length - found.length - 20)).map fun r => (decide (0 < r.1), r.2)

def statsRound (text : List UInt8) : Search → Option Search :=
  searchRound (ascii "=== ") (statsBlock text) text

def histRound (text : List UInt8) : Search → Option Search :=
  searchRound (ascii "Histogram:") (histBlock text) text

section Loops
variable {pat text : List UInt8} {block : List UInt8 → Option (Bool × Nat)} {s s' : Search}

def After (round : Search → Option Search) : Nat → Search → Option Search
  | 0, _ => none
  | n + 1, s =>
    match round s with
    | none => some s
    | some s' => After round n s'

def Returns (round : Search → Option Search) (s : Search) : Prop := ∃ n, (After round n s).isSome

def Comes (round : Search → Option Search) : Search → Search → Prop :=
  ReflTransGen fun s s' => round s = some s'

/-- Every round that adds no result leaves less to search. -/
def Advances (round : Search → Option Search) (s : Search) : Prop :=
  ∀ s' s'', Comes round s s' → round s' = some s'' → s''.1 = s'.1 → s''.2.length < s'.2.length

/-- A block that adds nothing ends behind where the search for it began. -/
def Forward (pat : List UInt8) (block : List UInt8 → Option (Bool × Nat)) (text : List UInt8) :
    Prop :=
  ∀ t found stop, t <:+ text → strstr pat t = some found → block found = some (false, stop) →
    text.length - t.length < stop

theorem strstr_spec {s r : List UInt8} (h : strstr pat s = some r) : pat <+: r ∧ r <:+ s := by
  induction s with
  | nil =>
    rw [strstr] at h
    split at h
    · cases h
      simp_all
    · contradiction
  | cons c s ih =>
    rw [strstr] at h
    split at h
    · rename_i hpre
      cases h
      exact ⟨List.isPrefixOf_iff_prefix.mp hpre, List.suffix_rfl⟩
    · obtain ⟨hpat, hsuf⟩ := ih h
      exact ⟨hpat, hsuf.trans (List.suffix_cons c s)⟩

theorem strstr_length {s r : List UInt8} (h : strstr pat s = some r) :
    pat.length ≤ r.length ∧ r.length ≤ s.length :=
  ⟨(strstr_spec h).1.length_le, (strstr_spec h).2.length_le⟩

theorem searchRound_cases (h : searchRound pat block text s = some s') :
    s.1 < parseMaxStats ∧ ∃ found, strstr pat s.2 = some found ∧
      (block found = none ∧ s' = (s.1, found.drop pat.length) ∨
        ∃ valid stop, block found = some (valid, stop) ∧
          s' = (if valid then s.1 + 1 else s.1, text.drop stop)) := by
  rw [searchRound] at h
  split at h
  · contradiction
  · obtain ⟨found, hfound, rfl⟩ := Option.map_eq_some_iff.mp h
    refine ⟨by omega, found, hfound, ?_⟩
    split
    · exact .inl ⟨‹_›, rfl⟩
    · exact .inr ⟨_, _, ‹_›, rfl⟩

theorem searchRound_suffix (h : searchRound pat block text s = some s') (hs : s.2 <:+ text) :
    s'.2 <:+ text ∧ (s'.1 = s.1 + 1 ∨ s'.1 = s.1) := by
  obtain ⟨-, found, hfound, ⟨-, rfl⟩ | ⟨valid, stop, -, rfl⟩⟩ := searchRound_cases h
  · exact ⟨(List.drop_suffix _ _).trans ((strstr_spec hfound).2.trans hs), .inr rfl⟩
  · refine ⟨List.drop_suffix _ _, ?_⟩
    cases valid <;> simp

theorem Comes.suffix (h : Comes (searchRound pat block text) s s') (hs : s.2 <:+ text) :
    s'.2 <:+ text := by
  induction h with
  | refl => exact hs
  | tail _ hr ih => exact (searchRound_suffix hr ih).1

theorem Forward.advances (hblock : Forward pat block text) (hpat : 0 < pat.length)
    (hs : s.2 <:+ text) : Advances (searchRound pat block text) s := by
  intro s' s'' hc hr hsame
  have hs' : s'.2 <:+ text := hc.suffix hs
  have hle := hs'.length_le
  obtain ⟨hlt, found, hfound, ⟨-, rfl⟩ | ⟨valid, stop, hstop, rfl⟩⟩ := searchRound_cases hr
  all_goals have hlen := strstr_length hfound
  · simp only [List.length_drop]
    omega
  · cases valid with
    | true => simp at hsame
    | false =>
      have hbehind := hblock s'.2 found stop hs' hfound hstop
      simp only [List.length_drop]
      omega

theorem Returns.of_advances (ha : Advances (searchRound pat block text) s) (hs : s.2 <:+ text) :
    Returns (searchRound pat block text) s := by
  induction hn : (parseMaxStats - s.1) * (text.length + 1) + s.2.length using
    Nat.strong_induction_on generalizing s with
  | _ n ih =>
    cases hr : searchRound pat block text s with
    | none => exact ⟨1, by simp [After, hr]⟩
    | some s' =>
      obtain ⟨hsuf, hcount⟩ := searchRound_suffix hr hs
      have hle := hsuf.length_le
      have hlimit := (searchRound_cases hr).1
      have hless : (parseMaxStats - s'.1) * (text.length + 1) + s'.2.length < n := by
        rcases hcount with hone | hsame
        · rw [← hn, hone, show parseMaxStats - s.1 = parseMaxStats - (s.1 + 1) + 1 by omega,
            Nat.succ_mul]
          omega
        · have hlt := ha s s' .refl hr hsame
          rw [← hn, hsame]
          omega
      obtain ⟨k, hk⟩ := ih _ hless (fun t t' ht => ha t t' (.head hr ht)) hsuf rfl
      exact ⟨k + 1, by simpa [After, hr] using hk⟩

theorem statsBlock_forward (text : List UInt8) :
    Forward (ascii "=== ") (statsBlock text) text := by
  intro t found stop ht hfound hblock
  have hlen := strstr_length hfound
  have hle := ht.length_le
  rw [statsBlock] at hblock
  split at hblock
  · contradiction
  · obtain ⟨r, hr, heq⟩ := Option.map_eq_some_iff.mp hblock
    obtain ⟨header, hheader, hparse⟩ := Option.bind_eq_some_iff.mp hr
    obtain ⟨_, -, rfl⟩ := Option.map_eq_some_iff.mp hparse
    obtain ⟨-, rfl⟩ := Prod.mk.inj heq
    have hheader' := strstr_length hheader
    have hend : ((strstr (ascii "\n===") (header.drop 4)).getD []).length ≤ header.length - 4 := by
      cases hend : strstr (ascii "\n===") (header.drop 4) with
      | none => exact Nat.zero_le _
      | some r => simpa using (strstr_length hend).2
    have hfour : (ascii "=== ").length = 4 := rfl
    simp only [List.length_drop] at hheader' ⊢
    omega

end Loops

def HeadingAt (text : List UInt8) (i : Nat) : Prop := ascii "Histogram:" <+: text.drop i

instance (text : List UInt8) (i : Nat) : Decidable (HeadingAt text i) :=
  inferInstanceAs (Decidable (_ <+: _))

def bucketCount (header : List UInt8) : Nat := (histLines ((header.dropWhile (· ≠ 10)).drop 1) 0).1

/-- Where a heading stands on a later line than another and at most 20 bytes behind it, a bucket is
read after the first of them. -/
def Spaced (text : List UInt8) : Prop :=
  ∀ i < text.length, ∀ k ≤ 20, HeadingAt text i ∧ HeadingAt text (i + k) ∧
    10 ∈ (text.drop i).take k → 0 < bucketCount (text.drop i)

instance (text : List UInt8) : Decidable (Spaced text) :=
  inferInstanceAs (Decidable (∀ i < text.length, ∀ k ≤ 20, _ → _))

theorem histLines_suffix (line : List UInt8) (n : Nat) : (histLines line n).2 <:+ line := by
  fun_induction histLines line n with
  | case1 | case2 | case3 => exact List.suffix_rfl
  | case4 => exact (List.drop_suffix _ _).trans (List.dropWhile_suffix _)
  | case5 _ _ _ _ _ _ _ _ _ _ ih =>
    exact ih.trans ((List.drop_suffix _ _).trans (List.dropWhile_suffix _))

theorem strchr_eq {s r : List UInt8} {c : UInt8} (h : strchr s c = some r) :
    r = s.dropWhile (· ≠ c) ∧ r ≠ [] := by
  rw [strchr] at h
  split at h
  · contradiction
  · rename_i hne
    cases h
    exact ⟨rfl, hne⟩

theorem mem_take_of_dropWhile {s : List UInt8} {c : UInt8} {k : Nat}
    (hk : s.length < (s.dropWhile (· ≠ c)).length + k) (hne : s.dropWhile (· ≠ c) ≠ []) :
    c ∈ s.take k := by
  induction s generalizing k with
  | nil => contradiction
  | cons b s ih =>
    cases k with
    | zero =>
      have hle := (List.dropWhile_suffix (l := b :: s) (· ≠ c)).length_le
      omega
    | succ k =>
      rw [List.take_succ_cons, List.mem_cons]
      by_cases hb : b = c
      · exact .inl hb.symm
      · rw [List.dropWhile_cons_of_pos (by simpa using hb)] at hk hne
        rw [List.length_cons] at hk
        exact .inr (ih (by omega) hne)

theorem histBlock_forward {text : List UInt8} (hspaced : Spaced text) :
    Forward (ascii "Histogram:") (histBlock text) text := by
  intro t found stop ht hfound hblock
  obtain ⟨r, hr, heq⟩ := Option.map_eq_some_iff.mp hblock
  obtain ⟨header, hheader, hparse⟩ := Option.bind_eq_some_iff.mp hr
  obtain ⟨nl, hnl, rfl⟩ := Option.map_eq_some_iff.mp hparse
  obtain ⟨hcount, rfl⟩ := Prod.mk.inj heq
  obtain ⟨rfl, hne⟩ := strchr_eq hnl
  obtain ⟨hpat, hsuf⟩ := strstr_spec hfound
  obtain ⟨hpat', hsuf'⟩ := strstr_spec hheader
  have hfoundAt := List.suffix_iff_eq_drop.mp (hsuf.trans ht)
  have hheaderAt := List.suffix_iff_eq_drop.mp (hsuf'.trans (List.drop_suffix _ _))
  have hlen := hsuf'.length_le
  rw [List.length_drop] at hlen
  have hle : found.length ≤ t.length ∧ t.length ≤ text.length := ⟨hsuf.length_le, ht.length_le⟩
  have hten := hpat'.length_le
  have hrest := (histLines_suffix ((header.dropWhile (· ≠ 10)).drop 1) 0).length_le
  have hnlLen := (List.dropWhile_suffix (l := header) (· ≠ 10)).length_le
  have hpos := List.length_pos_of_ne_nil hne
  rw [List.length_drop] at hrest
  -- otherwise the block is that of an earlier heading, and its first line ends before this one
  by_contra hstop
  simp only [not_lt] at hstop
  have hcloser : header.length < (header.dropWhile (· ≠ 10)).length +
      (header.length - found.length) := by omega
  have hbucket := hspaced (text.length - header.length) (by
    have hlength : (ascii "Histogram:").length = 10 := rfl
    omega) (header.length - found.length) (by omega) ?_
  · rw [← hheaderAt] at hbucket
    exact absurd hbucket (of_decide_eq_false hcount)
  · refine ⟨by rwa [HeadingAt, ← hheaderAt], ?_, ?_⟩
    · rw [HeadingAt, show text.length - header.length + (header.length - found.length) =
        text.length - found.length by omega, ← hfoundAt]
      exact hpat
    · rw [← hheaderAt]
      exact mem_take_of_dropWhile hcloser hne

def twoHistograms : List UInt8 :=
  ascii "Histogram:\n 0-1 |## 3 (60%)\nHistogram:\n 1-2 |# 2 (40%)\n"

def twoHeadings : List UInt8 := ascii "Histogram:\nHistogram:\n"

end OdinLink.Tray
