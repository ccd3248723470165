import OdinLink.Lib.Stretches

/-!
# What a receiver hands up

The receiver of `Reassembly` follows the stretches of its arrivals, so the messages it
hands up are read off them: whole messages exactly when the arrivals are unmixed.
-/

namespace Reassembly

universe u v w

variable {τ : Type u} {α : Type v} {ι : Type w}
variable {c : Option (Stretch ι)} {es : List (ι × Nat)} {s : Asm τ α}

namespace Family
variable (F : Family ι τ α)

def message (g : Stretch ι) : τ × List α :=
  (F.src g.first.1, g.pend.flatMap fun e => F.body e.1 e.2)

def Follows (s : Asm τ α) : Option (Stretch ι) → Prop
  | none => s.bad = true ∨ s.next = 0
  | some g => s.bad = false ∧ s.next = g.seg.length ∧ (s.src, s.buf) = F.message g

theorem follows_accept (h : F.Follows s c) (e : ι × Nat) :
    match move c e with
    | none => ((s.reset (F.frag e)).accept (F.frag e)).bad = true
    | some g => F.Follows ((s.reset (F.frag e)).accept (F.frag e)) (some g) := by
  by_cases h0 : e.2 = 0
  · simp only [move, h0, if_true, Follows, message, Asm.reset, Asm.accept, frag, Stretch.seg]
    simp [h0]
  · have hs : s.reset (F.frag e) = s := by simp [Asm.reset, frag, h0]
    rw [hs]
    cases c with
    | none =>
      simp only [move, h0, if_false, Asm.accept, frag]
      rcases h with h | h
      · simp [h]
      · simp [h, h0]
    | some g =>
      obtain ⟨hb, hn, hm⟩ := h
      by_cases hl : e.2 = g.seg.length
      · simp only [move, hl, if_true, if_neg (show ¬ g.seg.length = 0 by simp [Stretch.seg])]
        simp only [message, Prod.mk.injEq] at hm
        simp [Follows, message, Asm.accept, frag, hb, hn, hl, hm, stretch_seg_concat]
      · simp [move, h0, hl, Asm.accept, frag, hn]

theorem follows_feed (h : F.Follows s c) (e : ι × Nat) :
    F.Follows (feed s (F.frag e)).1 (next F.size c e).1 ∧
      (feed s (F.frag e)).2 = (next F.size c e).2.map F.message := by
  have ha := F.follows_accept h e
  have hfin : (F.frag e).fin = isEnd F.size e := rfl
  simp only [feed, hfin, next]
  generalize (s.reset (F.frag e)).accept (F.frag e) = t at ha ⊢
  cases hm : move c e with
  | none =>
    rw [hm] at ha
    change t.bad = true at ha
    by_cases he : isEnd F.size e
    · simp [he, Asm.close, ha, Follows]
    · simp [he, ha, Follows]
  | some g =>
    rw [hm] at ha
    obtain ⟨hb, hn, hmsg⟩ := ha
    by_cases he : isEnd F.size e
    · simp only [he, if_true, Asm.close, hb, Bool.false_eq_true, if_false, Option.map_some, hmsg,
        and_true]
      simp only [message, Prod.mk.injEq] at hmsg
      exact ⟨rfl, hn, by simp [message, hmsg.1]⟩
    · simp [he, Follows, hb, hn, hmsg]

theorem run_follows (h : F.Follows s c) (es : List (ι × Nat)) :
    (F.run s es).2 = (scan F.size c es).2.map F.message := by
  induction es generalizing s c with
  | nil => rfl
  | cons e es ih =>
    obtain ⟨hf, ho⟩ := F.follows_feed h e
    have hr := ih hf
    simp only [run, List.map_cons, feedAll, scan, List.map_append] at hr ⊢
    rw [hr, ho]
    cases (next F.size c e).2 <;> rfl

end Family

theorem eq_leading_of_aligned {seg : List (ι × Nat)} {j : ι} (ha : Aligned seg)
    (hj : ∀ e ∈ seg, e.1 = j) : seg = Family.leading j seg.length := by
  have h : seg = (seg.map Prod.snd).map (Prod.mk j) := by
    rw [List.map_map]
    conv_lhs => rw [← List.map_id seg]
    apply List.map_congr_left
    intro e he
    simp [← hj e he]
  rw [Family.leading, ← ha]
  exact h

theorem stretch_seg_last (g : Stretch ι) : ∃ seg, g.seg = seg ++ [g.last] :=
  ⟨g.seg.dropLast, (List.dropLast_concat_getLast _).symm⟩

theorem unmixed_stretch {size : ι → Nat} (hu : Unmixed size es)
    {g : Stretch ι} (hg : g ∈ closed size es) :
    g.seg = Family.leading g.last.1 (size g.last.1) ∧ g.pend = g.seg := by
  obtain ⟨es', post, rfl, hc⟩ := closes_of_mem_closed size hg
  obtain ⟨pre, rfl⟩ := hc.suffix
  obtain ⟨seg, hseg⟩ := stretch_seg_last g
  have hend : g.last.2 + 1 = size g.last.1 := by simpa [isEnd] using hc.isEnd
  have hal := hc.aligned
  have htags : ∀ e ∈ seg, e.1 = g.last.1 :=
    hu pre seg g.last.1 g.last.2 post (by rw [hseg]) hend (by rw [← hseg]; exact hal)
  have hall : ∀ e ∈ g.seg, e.1 = g.last.1 := by
    intro e he
    rw [hseg] at he
    rcases List.mem_append.mp he with he | he
    · exact htags e he
    · rw [List.mem_singleton.mp he]
  have hlen : g.seg.length = size g.last.1 := by
    rw [hseg, aligned_concat] at hal
    rw [hseg, List.length_append, List.length_singleton, ← hal.2, hend]
  refine ⟨?_, ?_⟩
  · rw [← hlen]
    exact eq_leading_of_aligned hc.aligned hall
  · obtain ⟨before, hb, hbe⟩ := hc.pending
    obtain ⟨p, hp, _⟩ := hc.inner
    -- a message end before the pending part would be the last fragment a second time
    have hnil : before = [] := by
      by_contra hne
      obtain ⟨b, e, rfl, he⟩ := hbe hne
      have hee : e = g.last := by
        have h1 := hall e (by rw [hb]; simp)
        have h2 : e.2 + 1 = size e.1 := by simpa [isEnd] using he
        rw [h1] at h2
        exact Prod.ext h1 (by omega)
      have hnd := aligned_nodup hc.aligned
      rw [hb, hp, hee] at hnd
      simp [List.nodup_append] at hnd
    rw [hb, hnil, List.nil_append]

theorem unmixed_message (F : Family ι τ α) (hu : Unmixed F.size es)
    {g : Stretch ι} (hg : g ∈ closed F.size es) : F.message g = F.whole g.last.1 := by
  obtain ⟨hseg, hpend⟩ := unmixed_stretch hu hg
  have hfirst : g.first.1 = g.last.1 := by
    have hm : g.first ∈ g.seg := List.mem_cons_self
    rw [hseg] at hm
    obtain ⟨k, _, hk⟩ := List.mem_map.mp hm
    simp [← hk]
  simp only [Family.message, Family.whole, hpend, hseg, hfirst, Family.leading, List.flatMap_map]

def endTags (size : ι → Nat) (es : List (ι × Nat)) : List ι :=
  (closed size es).map fun g => g.last.1

theorem endTags_sublist_filter (size : ι → Nat) (es : List (ι × Nat)) :
    (endTags size es).Sublist ((es.filter (isEnd size)).map Prod.fst) := by
  have h := (scan_last_sublist size none es).map Prod.fst
  rwa [List.map_map] at h

/-- Unmixed arrivals: the receiver hands up whole messages only, one for each last
fragment that ends a stretch. -/
theorem run_unmixed (F : Family ι τ α) (hs : F.Follows s none) (hu : Unmixed F.size es) :
    (F.run s es).2 = (endTags F.size es).map F.whole := by
  rw [F.run_follows hs, endTags, List.map_map]
  exact List.map_congr_left fun g hg => unmixed_message F hu hg

end Reassembly
