import Mathlib.Data.List.Perm.Subperm
import OdinLink.Lib.HandUp

/-!
# Losses and interleavings

Two ways in which the fragments of many messages reach one receiver: messages sent one after another
with fragments lost, and messages sent at the same time with fragments interleaved.
-/

namespace Reassembly

universe u v w

variable {τ : Type u} {α : Type v} {ι : Type w}
variable {es : List (ι × Nat)} {count : ι → Nat} {e : ι × Nat} {n i : Nat}

section Loss
variable (size : Nat → Nat) (arrives : Nat → Nat → Bool)

def kept (i : Nat) : List (Nat × Nat) :=
  (Family.leading i (size i)).filter fun e => arrives e.1 e.2

def arrivals (n : Nat) : List (Nat × Nat) := (List.range n).flatMap (kept size arrives)

def intact (i : Nat) : Bool := (List.range (size i)).all (arrives i)

theorem mem_leading {i k : Nat} {j : ι} (h : i = k) :
    e ∈ Family.leading j i ↔ e.1 = j ∧ e.2 < k := by
  subst h
  constructor
  · intro he
    obtain ⟨p, hp, rfl⟩ := List.mem_map.mp he
    exact ⟨rfl, List.mem_range.mp hp⟩
  · rintro ⟨rfl, hlt⟩
    exact List.mem_map.mpr ⟨e.2, List.mem_range.mpr hlt, rfl⟩

theorem mem_kept {i : Nat} {e : Nat × Nat} :
    e ∈ kept size arrives i ↔ e.1 = i ∧ e.2 < size i ∧ arrives i e.2 := by
  rw [kept, List.mem_filter, mem_leading rfl]
  constructor
  · rintro ⟨⟨rfl, hlt⟩, ha⟩
    exact ⟨rfl, hlt, ha⟩
  · rintro ⟨rfl, hlt, ha⟩
    exact ⟨⟨rfl, hlt⟩, ha⟩

theorem leading_nodup (j : ι) (k : Nat) : (Family.leading j k).Nodup :=
  List.nodup_range.map fun _ _ h => (Prod.mk.inj h).2

theorem aligned_leading (j : ι) (k : Nat) : Aligned (Family.leading j k) := by
  simp [Aligned, Family.leading, Function.comp_def]

theorem sublist_singleton_of_nodup {β : Type v} {a : β} {l : List β} (hn : l.Nodup)
    (ha : ∀ b ∈ l, b = a) : l.Sublist [a] := by
  match l, hn, ha with
  | [], _, _ => exact List.nil_sublist _
  | [b], _, ha => rw [ha b (by simp)]
  | b :: c :: l, hn, ha =>
    have hbc : b = c := (ha b (by simp)).trans (ha c (by simp)).symm
    simp [hbc] at hn

theorem arrivals_nodup (n : Nat) : (arrivals size arrives n).Nodup := by
  rw [arrivals, List.nodup_flatMap]
  refine ⟨fun i _ => (leading_nodup i _).filter _, ?_⟩
  apply List.nodup_range.imp
  intro i j hij e hi hj
  exact hij (((mem_kept size arrives).mp hi).1.symm.trans ((mem_kept size arrives).mp hj).1)

theorem kept_of_intact {i : Nat} (h : intact size arrives i) :
    kept size arrives i = Family.leading i (size i) := by
  apply List.filter_eq_self.mpr
  intro e he
  obtain ⟨rfl, hlt⟩ := (mem_leading rfl).mp he
  exact List.all_eq_true.mp h e.2 (List.mem_range.mpr hlt)

theorem arrivals_split (h : i < n) :
    ∃ pre post, arrivals size arrives n = pre ++ kept size arrives i ++ post := by
  have hr : List.range n = List.range i ++ (List.range (n - i)).map (i + ·) := by
    rw [← List.range_add, Nat.add_sub_cancel' (Nat.le_of_lt h)]
  obtain ⟨m, hm⟩ : ∃ m, n - i = m + 1 := ⟨n - i - 1, by omega⟩
  refine ⟨arrivals size arrives i,
    (((List.range m).map Nat.succ).map (i + ·)).flatMap (kept size arrives), ?_⟩
  simp only [arrivals]
  rw [hr, hm, List.range_succ_eq_map, List.flatMap_append, List.map_cons, List.flatMap_cons,
    Nat.add_zero, List.append_assoc]

theorem endTags_sublist (n : Nat) :
    (endTags size (arrivals size arrives n)).Sublist (List.range n) := by
  have h2 : ∀ n, (((arrivals size arrives n).filter (isEnd size)).map Prod.fst).Sublist
      (List.range n) := by
    intro n
    induction n with
    | zero => simp [arrivals]
    | succ n ih =>
      rw [arrivals, List.range_succ, List.flatMap_append, List.filter_append, List.map_append]
      apply ih.append
      -- one message has at most one last fragment
      have hk : ((kept size arrives n).filter (isEnd size)).Sublist [(n, size n - 1)] := by
        apply sublist_singleton_of_nodup (((leading_nodup n _).filter _).filter _)
        intro e he
        obtain ⟨hm, hend⟩ := List.mem_filter.mp he
        obtain ⟨h1, h2, _⟩ := (mem_kept size arrives).mp hm
        have h3 : e.2 + 1 = size e.1 := by simpa [isEnd] using hend
        rw [h1] at h3
        exact Prod.ext h1 (by simp only; omega)
      simpa using hk.map Prod.fst
  exact (endTags_sublist_filter size _).trans (h2 n)

theorem seg_of_intact {n i k : Nat} {pre seg post : List (Nat × Nat)}
    (hes : arrivals size arrives n = pre ++ (seg ++ [(i, k)]) ++ post) (hi : i < n)
    (hk : k + 1 = size i) (ha : Aligned (seg ++ [(i, k)])) (hin : intact size arrives i) :
    seg ++ [(i, k)] = Family.leading i (size i) := by
  obtain ⟨pre', post', hes'⟩ := arrivals_split size arrives hi
  rw [kept_of_intact size arrives hin] at hes'
  have hl : Family.leading i (size i) = Family.leading i k ++ [(i, k)] := by
    rw [← hk, Family.leading, List.range_succ, List.map_append]
    rfl
  have hsplit : (pre ++ seg) ++ (i, k) :: post =
      (pre' ++ Family.leading i k) ++ (i, k) :: post' := by
    rw [hes, hl] at hes'
    simpa using hes'
  have hnd : ((pre ++ seg) ++ (i, k) :: post).Nodup := by
    simpa [hes] using arrivals_nodup size arrives n
  have hcut : pre ++ seg = pre' ++ Family.leading i k :=
    ((List.append_cons_inj_of_notMem (fun h => (List.disjoint_of_nodup_append hnd) h (by simp))
      (fun h => (List.nodup_cons.mp (List.nodup_append.mp hnd).2.1).1 h)).mp hsplit).1
  exact aligned_suffix_unique (by rw [← List.append_assoc, hcut, List.append_assoc, ← hl]) ha
    (aligned_leading i _) (by simp) (by rw [hl]; simp)

theorem mem_endTags_of_intact (hi : i < n) (hs : 0 < size i)
    (hin : intact size arrives i) : i ∈ endTags size (arrivals size arrives n) := by
  obtain ⟨k, hk⟩ := Nat.exists_eq_succ_of_ne_zero (Nat.ne_of_gt hs)
  obtain ⟨pre, post, hes⟩ := arrivals_split size arrives hi
  have hl : kept size arrives i = Family.leading i k ++ [(i, k)] := by
    rw [kept_of_intact size arrives hin, hk, Family.leading, Nat.succ_eq_add_one, List.range_succ,
      List.map_append]
    rfl
  have ha : Aligned (Family.leading i k ++ [(i, k)]) := by
    rw [← hl, kept_of_intact size arrives hin]
    exact aligned_leading i _
  obtain ⟨g, hg, hseg⟩ := mem_closed_of_aligned size pre post ha
    (by simp [isEnd, hk])
  rw [← hl, ← hes] at hg
  refine List.mem_map.mpr ⟨g, hg, ?_⟩
  simp [Stretch.last, hseg]

theorem intact_of_mem_endTags (hu : Unmixed size (arrivals size arrives n))
    (hi : i ∈ endTags size (arrivals size arrives n)) : intact size arrives i := by
  obtain ⟨g, hg, rfl⟩ := List.mem_map.mp hi
  obtain ⟨hseg, _⟩ := unmixed_stretch hu hg
  obtain ⟨es', post, hes, hc⟩ := closes_of_mem_closed size hg
  obtain ⟨pre, hpre⟩ := hc.suffix
  apply List.all_eq_true.mpr
  intro k hk
  have hm : (g.last.1, k) ∈ g.seg := by
    rw [hseg]
    exact (mem_leading rfl).mpr ⟨rfl, List.mem_range.mp hk⟩
  have hm' : (g.last.1, k) ∈ arrivals size arrives n := by
    rw [hes, hpre]
    simp [hm]
  obtain ⟨j, _, hj⟩ := List.mem_flatMap.mp hm'
  obtain ⟨rfl, _, h⟩ := (mem_kept size arrives).mp hj
  exact h

end Loss

/-- Messages sent one after another over a link that loses fragments: what is handed up
is a selection of the intact messages, in order, exactly when the arrivals are unmixed. -/
theorem run_arrivals_iff (F : Family Nat τ α) {s : Asm τ α} (hs : F.Follows s none)
    (arrives : Nat → Nat → Bool) (n : Nat) (hsize : ∀ i < n, 0 < F.size i) :
    (F.run s (arrivals F.size arrives n)).2.Sublist
        (((List.range n).filter (intact F.size arrives)).map F.whole) ↔
      Unmixed F.size (arrivals F.size arrives n) := by
  have hsub := endTags_sublist F.size arrives n
  constructor
  · intro h
    have hlen : (endTags F.size (arrivals F.size arrives n)).length ≤
        ((List.range n).filter (intact F.size arrives)).length := by
      have := h.length_le
      rw [F.run_follows hs] at this
      simpa [endTags, closed] using this
    -- every intact message ends a stretch, so no other message does
    have hss : (List.range n).filter (intact F.size arrives) ⊆
        endTags F.size (arrivals F.size arrives n) := by
      intro i hi
      obtain ⟨hr, hin⟩ := List.mem_filter.mp hi
      have hlt := List.mem_range.mp hr
      exact mem_endTags_of_intact F.size arrives hlt (hsize i hlt) hin
    have hperm := (List.subperm_of_subset (List.nodup_range.filter _) hss).perm_of_length_le hlen
    intro pre seg j k post hes hk ha e he
    obtain ⟨g, hg, hgs⟩ := mem_closed_of_aligned F.size pre post ha
      (by simp [isEnd, hk])
    rw [← hes] at hg
    have hj : j ∈ endTags F.size (arrivals F.size arrives n) :=
      List.mem_map.mpr ⟨g, hg, by simp [Stretch.last, hgs]⟩
    obtain ⟨hr, hin⟩ := List.mem_filter.mp (hperm.mem_iff.mpr hj)
    have hseg := seg_of_intact F.size arrives hes (List.mem_range.mp hr) hk ha hin
    have he' : e ∈ seg ++ [(j, k)] := List.mem_append_left _ he
    rw [hseg] at he'
    exact ((mem_leading rfl).mp he').1
  · intro hu
    rw [run_unmixed F hs hu]
    apply List.Sublist.map
    have hall : ∀ i ∈ endTags F.size (arrivals F.size arrives n), intact F.size arrives i :=
      fun i hi => intact_of_mem_endTags F.size arrives hu hi
    rw [← List.filter_eq_self.mpr hall]
    exact hsub.filter _

section Interleaving
variable [DecidableEq ι] (size : ι → Nat)

/-- The first `count i` fragments of every message, in order for each message and
interleaved in any way. -/
def Interleaves (count : ι → Nat) (es : List (ι × Nat)) : Prop :=
  ∀ i, es.filter (fun e => e.1 = i) = Family.leading i (count i)

theorem interleaves_nodup (h : Interleaves count es) :
    es.Nodup := by
  rw [List.nodup_iff_count_le_one]
  intro e
  have hc : (es.filter fun d => d.1 = e.1).count e = es.count e := List.count_filter (by simp)
  rw [← hc, h]
  exact List.nodup_iff_count_le_one.mp (leading_nodup _ _) e

theorem endTags_nodup (h : Interleaves count es) :
    (endTags size es).Nodup := by
  apply (endTags_sublist_filter size es).nodup
  apply List.Nodup.map_on _ ((interleaves_nodup h).filter _)
  intro d hd e he hde
  have h1 : d.2 + 1 = size d.1 := by simpa [isEnd] using (List.mem_filter.mp hd).2
  have h2 : e.2 + 1 = size e.1 := by simpa [isEnd] using (List.mem_filter.mp he).2
  exact Prod.ext hde (by rw [hde] at h1; omega)

theorem mem_leading_of_interleaves (h : Interleaves count es) (he : e ∈ es) : e.2 < count e.1 := by
  have hm : e ∈ es.filter fun d => d.1 = e.1 := List.mem_filter.mpr ⟨he, by simp⟩
  rw [h] at hm
  exact ((mem_leading rfl).mp hm).2

theorem count_of_mem_endTags (h : Interleaves count es)
    {i : ι} (hi : i ∈ endTags size es) : size i ≤ count i := by
  obtain ⟨e, he, rfl⟩ := List.mem_map.mp ((endTags_sublist_filter size es).subset hi)
  obtain ⟨hm, hend⟩ := List.mem_filter.mp he
  have h1 : e.2 + 1 = size e.1 := by simpa [isEnd] using hend
  have h2 := mem_leading_of_interleaves h hm
  omega

end Interleaving

theorem tag_of_marked (F : Family ι τ α) {i j : ι} {a : α}
    (hj : ∀ k, ∀ x ∈ F.body j k, x = a) (ho : ∀ i, i ≠ j → ∀ k, ∀ x ∈ F.body i k, x ≠ a)
    {pend : List (ι × Nat)} (hne : ∀ d ∈ pend, F.body d.1 d.2 ≠ []) {k : Nat}
    (hlast : (j, k) ∈ pend)
    (hbytes : (List.range (F.size i)).flatMap (F.body i) =
      pend.flatMap fun d => F.body d.1 d.2) : i = j ∧ ∀ d ∈ pend, d.1 = j := by
  have hmem {d : ι × Nat} (hd : d ∈ pend) {x : α} (hx : x ∈ F.body d.1 d.2) :
      ∃ k', x ∈ F.body i k' := by
    have hm : x ∈ (List.range (F.size i)).flatMap (F.body i) := by
      rw [hbytes]
      exact List.mem_flatMap.mpr ⟨d, hd, hx⟩
    obtain ⟨k', _, hk'⟩ := List.mem_flatMap.mp hm
    exact ⟨k', hk'⟩
  obtain rfl : i = j := by
    obtain ⟨x, hx⟩ := List.exists_mem_of_ne_nil _ (hne _ hlast)
    obtain ⟨k', hk'⟩ := hmem hlast hx
    by_contra hij
    exact ho i hij k' x hk' (hj k x hx)
  refine ⟨rfl, fun d hd => ?_⟩
  by_contra hdi
  obtain ⟨x, hx⟩ := List.exists_mem_of_ne_nil _ (hne d hd)
  obtain ⟨k', hk'⟩ := hmem hd hx
  exact ho d.1 hdi d.2 x hx (hj k' x hk')

theorem not_whole_of_mixed (F : Family ι τ α) {s : Asm τ α} (hs : F.Follows s none)
    (hne : ∀ e ∈ es, F.body e.1 e.2 ≠ []) {j : ι} (h0 : F.body j 0 ≠ [])
    {a : α} (hj : ∀ k, ∀ x ∈ F.body j k, x = a) (ho : ∀ i, i ≠ j → ∀ k, ∀ x ∈ F.body i k, x ≠ a)
    {pre seg post : List (ι × Nat)} {k : Nat} (hes : es = pre ++ (seg ++ [(j, k)]) ++ post)
    (hk : k + 1 = F.size j) (ha : Aligned (seg ++ [(j, k)])) (he : e ∈ seg)
    (hej : e.1 ≠ j) : ¬ ∃ tags : List ι, (F.run s es).2 = tags.map F.whole := by
  rintro ⟨tags, htags⟩
  obtain ⟨g, hg, hseg⟩ := mem_closed_of_aligned F.size pre post ha
    (by simp [isEnd, hk])
  rw [← hes] at hg
  obtain ⟨i, _, hi⟩ : ∃ i ∈ tags, F.whole i = F.message g := by
    have hm : F.message g ∈ (F.run s es).2 := by
      rw [F.run_follows hs]
      exact List.mem_map_of_mem hg
    rw [htags] at hm
    exact List.mem_map.mp hm
  have hbytes : (List.range (F.size i)).flatMap (F.body i) =
      g.pend.flatMap fun d => F.body d.1 d.2 := congrArg Prod.snd hi
  obtain ⟨es', post', hes', hc⟩ := closes_of_mem_closed F.size hg
  obtain ⟨before, hbefore, _⟩ := hc.pending
  have hsub : ∀ d ∈ g.pend, d ∈ es := by
    intro d hd
    rw [hes, ← hseg, hbefore]
    simp [hd]
  have hlast : (j, k) ∈ g.pend := by
    obtain ⟨p, hp, _⟩ := hc.inner
    rw [hp]
    simp [Stretch.last, hseg]
  -- the last fragment of `j` is in the message, so the message can only be `j`
  obtain ⟨rfl, hown⟩ := tag_of_marked F hj ho (fun d hd => hne d (hsub d hd)) hlast hbytes
  -- the foreign fragment lies before the pending part, which therefore lacks fragment 0
  have hb : e ∈ before := by
    have hm : e ∈ g.seg := by
      rw [hseg]
      exact List.mem_append_left _ he
    rw [hbefore] at hm
    exact (List.mem_append.mp hm).resolve_right fun hp => hej (hown e hp)
  have hlen : g.seg.length = F.size i := by
    have hlk : k = seg.length := ((aligned_concat _ _).mp ha).2
    rw [hseg, ← hk, List.length_append, List.length_singleton, hlk]
  have hidx : g.pend.map Prod.snd = (List.range (F.size i)).drop before.length := by
    rw [← hlen, ← hc.aligned, hbefore, List.map_append, ← List.length_map Prod.snd, List.drop_left]
  have hpend : (g.pend.flatMap fun d => F.body d.1 d.2) =
      ((List.range (F.size i)).drop before.length).flatMap (F.body i) := by
    rw [← hidx, List.flatMap_map]
    exact List.flatMap_congr fun d hd => by rw [hown d hd]
  rw [hpend] at hbytes
  nth_rewrite 1 [← List.take_append_drop before.length (List.range (F.size i))] at hbytes
  rw [List.flatMap_append, List.append_left_eq_self, List.flatMap_eq_nil_iff] at hbytes
  apply h0
  apply hbytes 0
  rw [List.take_range, List.mem_range]
  have := List.length_pos_of_mem hb
  omega

end Reassembly
