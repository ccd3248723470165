import Mathlib.Data.List.Infix
import OdinLink.Lib.Reassembly

/-!
# Which arrivals are taken for one message

A stretch is a run of consecutive arrivals whose indices count up from zero. The receiver hands
something up exactly when the last fragment of some message ends a stretch. `Unmixed` says that such
a stretch lies in that one message.
-/

namespace Reassembly

universe u v w

variable {τ : Type u} {α : Type v} {ι : Type w}

def Aligned (seg : List (ι × Nat)) : Prop := seg.map Prod.snd = List.range seg.length

/-- Arrivals with indices 0, 1, 2, … that end with the last fragment of `j` are all of `j`. -/
def Unmixed (size : ι → Nat) (es : List (ι × Nat)) : Prop :=
  ∀ pre seg j k post, es = pre ++ (seg ++ [(j, k)]) ++ post → k + 1 = size j →
    Aligned (seg ++ [(j, k)]) → ∀ e ∈ seg, e.1 = j

/-- It is enough to look at the stretches of the list. -/
theorem unmixed_iff {size : ι → Nat} {es : List (ι × Nat)} :
    Unmixed size es ↔ ∀ t ∈ es.inits, ∀ s ∈ t.tails, Aligned s →
      ∀ e ∈ s.getLast?.toList, e.2 + 1 = size e.1 → ∀ x ∈ s, x.1 = e.1 := by
  constructor
  · intro h t ht s hs hal e he hend x hx
    obtain ⟨post, rfl⟩ := (List.mem_inits _ _).mp ht
    obtain ⟨pre, rfl⟩ := (List.mem_tails _ _).mp hs
    obtain ⟨seg, rfl⟩ := List.getLast?_eq_some_iff.mp (Option.mem_toList.mp he)
    rcases List.mem_append.mp hx with hx | hx
    · exact h pre seg e.1 e.2 post rfl hend hal x hx
    · rw [List.mem_singleton.mp hx]
  · rintro h pre seg j k post rfl hend hal e he
    refine h (pre ++ (seg ++ [(j, k)])) ((List.mem_inits _ _).mpr (List.prefix_append _ _))
      (seg ++ [(j, k)]) ((List.mem_tails _ _).mpr (List.suffix_append _ _)) hal (j, k) ?_ hend e
      (List.mem_append_left _ he)
    simp

instance (seg : List (ι × Nat)) : Decidable (Aligned seg) := inferInstanceAs (Decidable (_ = _))

instance [DecidableEq ι] (size : ι → Nat) (es : List (ι × Nat)) : Decidable (Unmixed size es) :=
  decidable_of_iff _ unmixed_iff.symm

/-- The stretch the receiver is in, and its part since the last message end. -/
structure Stretch (ι : Type w) where
  first : ι × Nat
  rest : List (ι × Nat)
  pend : List (ι × Nat)

def Stretch.seg (g : Stretch ι) : List (ι × Nat) := g.first :: g.rest

def Stretch.last (g : Stretch ι) : ι × Nat := g.seg.getLast (List.cons_ne_nil _ _)

def move (c : Option (Stretch ι)) (e : ι × Nat) : Option (Stretch ι) :=
  if e.2 = 0 then some ⟨e, [], [e]⟩
  else match c with
    | none => none
    | some g => if e.2 = g.seg.length then some ⟨g.first, g.rest ++ [e], g.pend ++ [e]⟩ else none

def isEnd (size : ι → Nat) (e : ι × Nat) : Bool := e.2 + 1 == size e.1

def next (size : ι → Nat) (c : Option (Stretch ι)) (e : ι × Nat) :
    Option (Stretch ι) × Option (Stretch ι) :=
  if isEnd size e then ((move c e).map fun g => {g with pend := []}, move c e)
  else (move c e, none)

def scan (size : ι → Nat) (c : Option (Stretch ι)) :
    List (ι × Nat) → Option (Stretch ι) × List (Stretch ι)
  | [] => (c, [])
  | e :: es =>
    let r := next size c e
    let q := scan size r.1 es
    (q.1, r.2.toList ++ q.2)

/-- The stretches that a last fragment ends, in order of arrival. -/
def closed (size : ι → Nat) (es : List (ι × Nat)) : List (Stretch ι) := (scan size none es).2

theorem scan_append (size : ι → Nat) (c : Option (Stretch ι)) (es fs : List (ι × Nat)) :
    scan size c (es ++ fs) =
      ((scan size (scan size c es).1 fs).1,
        (scan size c es).2 ++ (scan size (scan size c es).1 fs).2) := by
  induction es generalizing c with
  | nil => simp [scan]
  | cons e es ih => simp [scan, ih, List.append_assoc]

theorem scan_concat (size : ι → Nat) (c : Option (Stretch ι)) (es : List (ι × Nat)) (e : ι × Nat) :
    scan size c (es ++ [e]) =
      ((next size (scan size c es).1 e).1,
        (scan size c es).2 ++ (next size (scan size c es).1 e).2.toList) := by
  simp [scan_append, scan]

theorem aligned_singleton {e : ι × Nat} (h : e.2 = 0) : Aligned [e] := by
  simp [Aligned, h]

theorem aligned_concat (seg : List (ι × Nat)) (e : ι × Nat) :
    Aligned (seg ++ [e]) ↔ Aligned seg ∧ e.2 = seg.length := by
  simp only [Aligned, List.map_append, List.map_cons, List.map_nil, List.length_append,
    List.length_cons, List.length_nil, Nat.zero_add, List.range_succ]
  constructor
  · intro h
    obtain ⟨h1, h2⟩ := List.append_inj' h rfl
    exact ⟨h1, by simpa using h2⟩
  · rintro ⟨h1, h2⟩
    rw [h1, h2]

theorem aligned_getElem? {seg : List (ι × Nat)} (h : Aligned seg) {p : Nat} {e : ι × Nat}
    (hp : seg[p]? = some e) : e.2 = p := by
  have hq : (seg.map Prod.snd)[p]? = (List.range seg.length)[p]? := by rw [h]
  have hlt : p < seg.length := (List.getElem?_eq_some_iff.mp hp).1
  rw [List.getElem?_map, hp, List.getElem?_range hlt] at hq
  exact Option.some.inj hq

theorem aligned_append_nil {a b : List (ι × Nat)} (hb : Aligned b) (hab : Aligned (a ++ b))
    (hne : b ≠ []) : a = [] := by
  obtain ⟨e, b', rfl⟩ := List.exists_cons_of_ne_nil hne
  have h0 := aligned_getElem? hb (p := 0) (e := e) rfl
  have h1 := aligned_getElem? hab (p := a.length) (e := e) (by simp)
  exact List.length_eq_zero_iff.mp (by omega)

theorem aligned_suffix_unique {pre pre' seg seg' : List (ι × Nat)}
    (h : pre ++ seg = pre' ++ seg') (hs : Aligned seg) (hs' : Aligned seg')
    (hn : seg ≠ []) (hn' : seg' ≠ []) : seg = seg' := by
  rcases List.append_eq_append_iff.mp h with ⟨a, rfl, rfl⟩ | ⟨a, rfl, rfl⟩
  · simp [aligned_append_nil hs' hs hn']
  · simp [aligned_append_nil hs hs' hn]

theorem aligned_nodup {seg : List (ι × Nat)} (h : Aligned seg) : seg.Nodup := by
  apply List.Nodup.of_map Prod.snd
  rw [h]
  exact List.nodup_range

section Scan
variable (size : ι → Nat)
variable {seg : List (ι × Nat)} {es : List (ι × Nat)} {e : ι × Nat}

def Pending (seg pend : List (ι × Nat)) : Prop :=
  ∃ before, seg = before ++ pend ∧ (before ≠ [] → ∃ b e, before = b ++ [e] ∧ isEnd size e)

def Current (es : List (ι × Nat)) : Option (Stretch ι) → Prop
  | none => ∀ pre seg, es = pre ++ seg → seg ≠ [] → ¬ Aligned seg
  | some g => (∃ pre, es = pre ++ g.seg) ∧ Aligned g.seg ∧ Pending size g.seg g.pend ∧
      ∀ e ∈ g.pend, ¬ isEnd size e

theorem stretch_seg_concat (g : Stretch ι) (e : ι × Nat) (p : List (ι × Nat)) :
    (⟨g.first, g.rest ++ [e], p⟩ : Stretch ι).seg = g.seg ++ [e] := rfl

theorem pending_concat {seg pend : List (ι × Nat)} (h : Pending size seg pend) (e : ι × Nat) :
    Pending size (seg ++ [e]) (pend ++ [e]) := by
  obtain ⟨before, rfl, hb⟩ := h
  exact ⟨before, by simp, hb⟩

theorem move_current {c : Option (Stretch ι)} (hc : Current size es c) (e : ι × Nat) :
    match move c e with
    | none => ∀ pre seg, es ++ [e] = pre ++ seg → seg ≠ [] → ¬ Aligned seg
    | some g => (∃ pre, es ++ [e] = pre ++ g.seg) ∧ Aligned g.seg ∧ Pending size g.seg g.pend ∧
        (∃ p, g.pend = p ++ [e] ∧ ∀ d ∈ p, ¬ isEnd size d) ∧ g.last = e := by
  -- index 0 starts a stretch, any other index can only continue the current one
  by_cases h0 : e.2 = 0
  · simp only [move, h0, if_true]
    refine ⟨⟨es, rfl⟩, aligned_singleton h0, ⟨[], rfl, by simp⟩, ⟨[], rfl, by simp⟩, rfl⟩
  · have hno : ∀ pre seg, es ++ [e] = pre ++ seg → seg ≠ [] → Aligned seg →
        ∃ s', s' ≠ [] ∧ es = pre ++ s' ∧ Aligned s' ∧ e.2 = s'.length := by
      intro pre seg hes hne ha
      obtain ⟨s', d, rfl⟩ := List.eq_nil_or_concat seg |>.resolve_left hne
      rw [List.concat_eq_append, ← List.append_assoc] at hes
      rw [List.concat_eq_append] at ha
      obtain ⟨hes', hd⟩ := List.append_inj' hes rfl
      obtain ⟨hs', hlen⟩ := (aligned_concat s' d).mp ha
      have hde : e = d := by simpa using hd
      refine ⟨s', ?_, hes', hs', hde ▸ hlen⟩
      rintro rfl
      exact h0 (by simpa [hde] using hlen)
    cases c with
    | none =>
      simp only [move, h0, if_false]
      intro pre seg hes hne ha
      obtain ⟨s', hs', hes', ha', _⟩ := hno pre seg hes hne ha
      exact hc pre s' hes' hs' ha'
    | some g =>
      obtain ⟨⟨pre, hes⟩, hal, hpend, hend⟩ := hc
      by_cases hl : e.2 = g.seg.length
      · simp only [move, hl, if_true]
        refine ⟨⟨pre, by rw [hes, stretch_seg_concat, List.append_assoc]⟩, ?_, ?_, ?_, ?_⟩
        · rw [stretch_seg_concat, aligned_concat]
          exact ⟨hal, hl⟩
        · rw [stretch_seg_concat]
          exact pending_concat size hpend e
        · exact ⟨g.pend, rfl, hend⟩
        · simp [Stretch.last, stretch_seg_concat]
      · simp only [move, h0, hl, if_false]
        intro pre' seg hes' hne ha
        obtain ⟨s', hs', hes'', ha', hlen⟩ := hno pre' seg hes' hne ha
        have huniq : s' = g.seg :=
          aligned_suffix_unique (hes''.symm.trans hes) ha' hal hs' (List.cons_ne_nil _ _)
        exact hl (huniq ▸ hlen)

structure Closes (es : List (ι × Nat)) (g : Stretch ι) : Prop where
  suffix : ∃ pre, es = pre ++ g.seg
  aligned : Aligned g.seg
  pending : Pending size g.seg g.pend
  inner : ∃ p, g.pend = p ++ [g.last] ∧ ∀ d ∈ p, ¬ isEnd size d
  isEnd : isEnd size g.last

theorem next_current {c : Option (Stretch ι)} (hc : Current size es c) (e : ι × Nat) :
    Current size (es ++ [e]) (next size c e).1 ∧
      ∀ g, (next size c e).2 = some g → Closes size (es ++ [e]) g := by
  have hm := move_current size hc e
  cases hmv : move c e with
  | none =>
    rw [hmv] at hm
    by_cases hend : isEnd size e
    · simpa only [next, hend, if_true, hmv, Option.map_none] using ⟨hm, by simp⟩
    · simpa only [next, hend, if_false, hmv] using ⟨hm, by simp⟩
  | some g =>
    rw [hmv] at hm
    obtain ⟨hpre, hal, hpend, ⟨p, hp, hin⟩, hlast⟩ := hm
    by_cases hend : isEnd size e
    · simp only [next, hend, if_true, hmv, Option.map_some, Option.some.injEq, forall_eq']
      refine ⟨⟨hpre, hal, ⟨g.seg, by simp [Stretch.seg], ?_⟩, by simp⟩, hpre, hal, hpend, ?_, ?_⟩
      · intro _
        obtain ⟨before, hb, _⟩ := hpend
        exact ⟨before ++ p, e, by rw [hb, hp, List.append_assoc], hend⟩
      · exact ⟨p, by rw [hp, hlast], hin⟩
      · exact hlast ▸ hend
    · simp only [next, hend, if_false, hmv, reduceCtorEq, false_implies, implies_true, and_true]
      refine ⟨hpre, hal, hpend, ?_⟩
      intro d hd
      rw [hp] at hd
      rcases List.mem_append.mp hd with hd | hd
      · exact hin d hd
      · rw [List.mem_singleton.mp hd]
        exact hend

theorem scan_current (es : List (ι × Nat)) : Current size es (scan size none es).1 := by
  induction es using List.reverseRecOn with
  | nil => intro pre seg h hne; simp_all
  | append_singleton es e ih =>
    rw [scan_concat]
    exact (next_current size ih e).1

theorem closed_append (es fs : List (ι × Nat)) :
    closed size (es ++ fs) = closed size es ++ (scan size (scan size none es).1 fs).2 := by
  simp [closed, scan_append]

theorem closes_of_mem_closed {g : Stretch ι} (h : g ∈ closed size es) :
    ∃ es' post, es = es' ++ post ∧ Closes size es' g := by
  induction es using List.reverseRecOn with
  | nil => simp [closed, scan] at h
  | append_singleton es e ih =>
    rw [closed, scan_concat] at h
    rcases List.mem_append.mp h with h | h
    · obtain ⟨es', post, rfl, hc⟩ := ih h
      exact ⟨es', post ++ [e], by simp, hc⟩
    · exact ⟨es ++ [e], [], by simp,
        (next_current size (scan_current size es) e).2 g (by simpa using h)⟩

theorem mem_closed_of_aligned (pre : List (ι × Nat))
    (post : List (ι × Nat)) (ha : Aligned (seg ++ [e])) (he : isEnd size e) :
    ∃ g ∈ closed size (pre ++ (seg ++ [e]) ++ post), g.seg = seg ++ [e] := by
  have hcur := scan_current size (pre ++ (seg ++ [e]))
  rw [← List.append_assoc, scan_concat] at hcur
  have hnone : move (scan size none (pre ++ seg)).1 e ≠ none := by
    intro hm
    have := move_current size (scan_current size (pre ++ seg)) e
    rw [hm] at this
    exact this pre (seg ++ [e]) (by simp) (by simp) ha
  obtain ⟨g, hg⟩ := Option.ne_none_iff_exists'.mp hnone
  have hn : (next size (scan size none (pre ++ seg)).1 e).2 = some g := by
    simpa only [next, he, if_true] using hg
  have hcl := (next_current size (scan_current size (pre ++ seg)) e).2 g hn
  obtain ⟨pre', hpre'⟩ := hcl.suffix
  refine ⟨g, ?_, ?_⟩
  · rw [closed_append, closed, ← List.append_assoc, scan_concat, hn]
    simp
  · exact (aligned_suffix_unique (by rw [← List.append_assoc]; exact hpre') ha hcl.aligned
      (by simp) (List.cons_ne_nil _ _)).symm

theorem scan_last_sublist (c : Option (Stretch ι)) (es : List (ι × Nat)) :
    ((scan size c es).2.map Stretch.last).Sublist (es.filter (isEnd size)) := by
  induction es generalizing c with
  | nil => simp [scan]
  | cons e es ih =>
    have hlast : ∀ g, move c e = some g → g.last = e := by
      intro g hg
      by_cases h0 : e.2 = 0
      · simp only [move, h0, if_true, Option.some.injEq] at hg
        simp [← hg, Stretch.last, Stretch.seg]
      · cases c with
        | none => simp [move, h0] at hg
        | some g' =>
          simp only [move, h0, if_false, Option.ite_none_right_eq_some, Option.some.injEq] at hg
          simp [← hg.2, Stretch.last, stretch_seg_concat]
    simp only [scan, List.map_append]
    by_cases hend : isEnd size e
    · rw [List.filter_cons_of_pos hend]
      simp only [next, hend, if_true]
      cases hm : move c e with
      | none => exact (ih _).cons _
      | some g =>
        simp only [Option.toList_some, List.map_cons, List.map_nil, List.singleton_append,
          hlast g hm]
        exact (ih _).cons_cons _
    · rw [List.filter_cons_of_neg hend]
      simp only [next, hend]
      exact ih _

end Scan

end Reassembly
