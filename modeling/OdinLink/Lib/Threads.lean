import Mathlib.Algebra.BigOperators.Group.List.Basic
import OdinLink.Lib.History

/-!
# Threads over a shared memory

Threads are started and then run one atomic operation at a time, in any order. A counter in the
shared memory is the sum of the parts that the threads stand for.
-/

namespace Threads

open History

variable {M P J I E : Type}

structure Sys (M P : Type) where
  mem : M
  pcs : List P

inductive Move (J I : Type) where
  | start (x : J)
  | run (i : Nat) (x : I)
  deriving DecidableEq, Repr

/-- What can be started, perhaps without a thread, and what one operation of a thread does. `J` and
`I` are what the surroundings answer. -/
structure Prog (M P J I E : Type) where
  start : M → J → Option (M × Option P × List E)
  op : M → P → I → Option (M × P × List E)

def Prog.step (prog : Prog M P J I E) (s : Sys M P) : Move J I → Option (Sys M P × List E)
  | .start x => (prog.start s.mem x).map fun r => (⟨r.1, s.pcs ++ r.2.1.toList⟩, r.2.2)
  | .run i x =>
    s.pcs[i]?.bind fun p => (prog.op s.mem p x).map fun r => (⟨r.1, s.pcs.set i r.2.1⟩, r.2.2)

section Step
variable {prog : Prog M P J I E} {s s' : Sys M P} {es : List E}

theorem step_start {x : J} : prog.step s (.start x) = some (s', es) ↔
    ∃ m o, prog.start s.mem x = some (m, o, es) ∧ s' = ⟨m, s.pcs ++ o.toList⟩ := by
  simp only [Prog.step, Option.map_eq_some_iff, Prod.mk.injEq, Prod.exists]
  constructor
  · rintro ⟨m, o, fs, hr, rfl, rfl⟩
    exact ⟨m, o, hr, rfl⟩
  · rintro ⟨m, o, hr, rfl⟩
    exact ⟨m, o, es, hr, rfl, rfl⟩

theorem step_run {i : Nat} {x : I} : prog.step s (.run i x) = some (s', es) ↔
    ∃ p m p', s.pcs[i]? = some p ∧ prog.op s.mem p x = some (m, p', es) ∧
      s' = ⟨m, s.pcs.set i p'⟩ := by
  simp only [Prog.step, Option.bind_eq_some_iff, Option.map_eq_some_iff, Prod.mk.injEq,
    Prod.exists]
  constructor
  · rintro ⟨p, hp, m, p', fs, hr, rfl, rfl⟩
    exact ⟨p, m, p', hp, hr, rfl⟩
  · rintro ⟨p, m, p', hp, hr, rfl⟩
    exact ⟨p, hp, m, p', es, hr, rfl, rfl⟩

end Step

section Tally
variable (w : P → Int)

def tally : List P → Int
  | [] => 0
  | p :: ps => w p + tally ps

@[simp] theorem tally_nil : tally w [] = 0 := rfl

@[simp] theorem tally_cons (p : P) (ps : List P) : tally w (p :: ps) = w p + tally w ps :=
  rfl

theorem tally_append (ps qs : List P) : tally w (ps ++ qs) = tally w ps + tally w qs := by
  induction ps with
  | nil => simp
  | cons p ps ih =>
    rw [List.cons_append, tally_cons, tally_cons, ih]
    omega

theorem tally_sub (v : P → Int) (ps : List P) :
    tally (fun p => w p - v p) ps = tally w ps - tally v ps := by
  induction ps with
  | nil => rfl
  | cons p ps ih =>
    rw [tally_cons, tally_cons, tally_cons, ih]
    omega

theorem tally_set {ps : List P} {i : Nat} {p : P} (hp : ps[i]? = some p) (p' : P) :
    tally w (ps.set i p') + w p = tally w ps + w p' := by
  induction ps generalizing i with
  | nil => simp at hp
  | cons q ps ih =>
    cases i with
    | zero =>
      rw [List.getElem?_cons_zero, Option.some.injEq] at hp
      subst hp
      simp only [List.set_cons_zero, tally_cons]
      omega
    | succ i =>
      have hset := ih (by simpa using hp)
      simp only [List.set_cons_succ, tally_cons]
      omega

theorem tally_eq_zero {ps : List P} (hw : ∀ p ∈ ps, w p = 0) : tally w ps = 0 := by
  induction ps with
  | nil => rfl
  | cons p ps ih =>
    rw [tally_cons, hw p List.mem_cons_self, ih fun q hq => hw q (List.mem_cons_of_mem p hq)]
    rfl

theorem tally_nonpos {ps : List P} (hw : ∀ p ∈ ps, w p ≤ 0) : tally w ps ≤ 0 := by
  induction ps with
  | nil => exact Int.le_refl 0
  | cons p ps ih =>
    have hp := hw p List.mem_cons_self
    have hps := ih fun q hq => hw q (List.mem_cons_of_mem p hq)
    rw [tally_cons]
    omega

theorem tally_ite (c : P → Bool) (ps : List P) :
    tally (fun p => if c p then 1 else 0) ps = ps.countP c := by
  induction ps with
  | nil => rfl
  | cons p ps ih =>
    rw [tally_cons, List.countP_cons, ih]
    split <;> push_cast <;> omega

theorem tally_le_tally {w v : P → Int} (hle : ∀ p, w p ≤ v p) (ps : List P) :
    tally w ps ≤ tally v ps := by
  induction ps with
  | nil => simp
  | cons p ps ih =>
    have hp := hle p
    rw [tally_cons, tally_cons]
    omega

variable {w} (hw : ∀ p, 0 ≤ w p)
include hw

theorem tally_nonneg (ps : List P) : 0 ≤ tally w ps := by
  induction ps with
  | nil => simp
  | cons p ps ih =>
    have hp := hw p
    rw [tally_cons]
    omega

theorem le_tally {ps : List P} {p : P} (hp : p ∈ ps) : w p ≤ tally w ps := by
  induction ps with
  | nil => simp at hp
  | cons q ps ih =>
    have hq := hw q
    have hrest := tally_nonneg hw ps
    rw [tally_cons]
    rcases List.mem_cons.mp hp with rfl | hp
    · omega
    · have hle := ih hp
      omega

theorem add_le_tally {ps : List P} {i j : Nat} {p q : P} (hij : i ≠ j) (hp : ps[i]? = some p)
    (hq : ps[j]? = some q) : w p + w q ≤ tally w ps := by
  induction ps generalizing i j with
  | nil => simp at hp
  | cons r ps ih =>
    have hr := hw r
    rw [tally_cons]
    match i, j with
    | 0, 0 => contradiction
    | 0, j + 1 =>
      rw [List.getElem?_cons_zero, Option.some.injEq] at hp
      subst hp
      have hle := le_tally hw (List.mem_of_getElem? (by simpa using hq))
      omega
    | i + 1, 0 =>
      rw [List.getElem?_cons_zero, Option.some.injEq] at hq
      subst hq
      have hle := le_tally hw (List.mem_of_getElem? (by simpa using hp))
      omega
    | i + 1, j + 1 =>
      rw [List.getElem?_cons_succ] at hp hq
      have hle := ih (by omega) hp hq
      omega

omit hw in
theorem eq_of_countP_le_one {c : P → Bool} {ps : List P} {i j : Nat} {p q : P}
    (hle : ps.countP c ≤ 1) (hp : ps[i]? = some p) (hq : ps[j]? = some q) (hc : c p = true)
    (hc' : c q = true) : i = j := by
  by_contra hij
  have hsum := add_le_tally (w := fun r => if c r then 1 else 0)
    (fun r => by split <;> simp) hij hp hq
  rw [tally_ite, if_pos hc, if_pos hc'] at hsum
  omega

end Tally

section Flags

@[simp] def one (b : Bool) : Int := if b then 1 else 0

theorem one_nonneg (b : Bool) : 0 ≤ one b := by
  cases b <;> simp

variable {b : Bool} {c : P → Bool} {ps : List P} (hb : one b = tally (fun p => one (c p)) ps)
include hb

theorem flag_of_mem {p : P} (hp : p ∈ ps) (hc : c p = true) : b = true := by
  have hle := le_tally (w := fun p => one (c p)) (fun q => one_nonneg (c q)) hp
  rw [← hb, hc] at hle
  cases b with
  | true => rfl
  | false => simp at hle

theorem mem_of_flag (htrue : b = true) : ∃ p ∈ ps, c p = true := by
  by_contra hnone
  have hzero : tally (fun p => one (c p)) ps = 0 :=
    tally_eq_zero _ fun p hp => if_neg fun hc => hnone ⟨p, hp, hc⟩
  rw [hzero, htrue] at hb
  exact absurd hb (by simp)

theorem flag_alone {i j : Nat} {p q : P} (hij : i ≠ j) (hp : ps[i]? = some p)
    (hq : ps[j]? = some q) (hc : c p = true) : c q = false := by
  have hle := add_le_tally (w := fun p => one (c p)) (fun r => one_nonneg (c r)) hij hp hq
  have hmax : one b ≤ 1 := by cases b <;> simp
  rw [← hb, hc] at hle
  cases hcq : c q with
  | false => rfl
  | true =>
    rw [hcq, one, if_pos rfl] at hle
    omega

end Flags

theorem mem_set_cases {ps : List P} {i : Nat} {p' q : P} (hq : q ∈ ps.set i p') :
    q = p' ∨ ∃ j, j ≠ i ∧ ps[j]? = some q := by
  obtain ⟨j, hj⟩ := List.mem_iff_getElem?.mp hq
  rw [List.getElem?_set] at hj
  split at hj
  · split at hj
    · exact .inl (Option.some.inj hj).symm
    · contradiction
  · exact .inr ⟨j, Ne.symm ‹_›, hj⟩

theorem forall_mem_started {ps : List P} {p : P} {c : P → Prop} (hold : ∀ q ∈ ps, c q) (hp : c p) :
    ∀ q ∈ ps ++ (some p).toList, c q :=
  List.forall_mem_append.mpr ⟨hold, List.forall_mem_singleton.mpr hp⟩

theorem countP_eraseIdx {α : Type} {l : List α} {k : Nat} {x : α} (hk : l[k]? = some x)
    (c : α → Bool) : ((l.eraseIdx k).countP c : Int) + (if c x then 1 else 0) = l.countP c := by
  obtain ⟨hlt, rfl⟩ := List.getElem?_eq_some_iff.mp hk
  rw [← (List.getElem_cons_eraseIdx_perm hlt).countP_eq c, List.countP_cons]
  split <;> simp

theorem countP_set {α : Type} {l : List α} {k : Nat} {x : α} (hk : l[k]? = some x)
    (c : α → Bool) (y : α) : ((l.set k y).countP c : Int) + (if c x then 1 else 0) =
      l.countP c + (if c y then 1 else 0) := by
  have hset := tally_set (fun p => if c p then 1 else 0) hk y
  rwa [tally_ite, tally_ite] at hset

section Runs
variable {prog : Prog M P J I E} {ok : Sys M P → List E → Move J I → Prop} {m₀ : M}
  {s : Sys M P} {h : List E}

/-- Quantities of the memory and the history, each changing with every operation as the thread's
own part of it does, are the sums of the parts; what a thread knows of the memory, which it learns
by its own operations and no operation of another thread takes away, holds; and so does what every
operation leaves true of the memory. Any of them may be used for the others. -/
theorem accounted {K : Type} (f : K → M → List E → Int) (w : K → P → Int) (Q : M → P → Prop)
    (R : M → List E → Prop) (h0 : ∀ j, f j m₀ [] = 0) (hR : R m₀ [])
    (hstart : ∀ s h x m o es, Reaches prog.step ok ⟨m₀, []⟩ s h → ok s h (.start x) →
      (∀ j, f j s.mem h = tally (w j) s.pcs) → R s.mem h → prog.start s.mem x = some (m, o, es) →
      (∀ j, f j m (h ++ es) = f j s.mem h + (o.map (w j)).getD 0) ∧
        (∀ p ∈ o, Q m p) ∧ (∀ q ∈ s.pcs, Q s.mem q → Q m q) ∧ R m (h ++ es))
    (hop : ∀ s h i x p m p' es, Reaches prog.step ok ⟨m₀, []⟩ s h → ok s h (.run i x) →
      (∀ j, f j s.mem h = tally (w j) s.pcs) → (∀ q ∈ s.pcs, Q s.mem q) → R s.mem h →
      s.pcs[i]? = some p →
      prog.op s.mem p x = some (m, p', es) →
      (∀ j, f j m (h ++ es) + w j p = f j s.mem h + w j p') ∧
        Q m p' ∧ (∀ k q, k ≠ i → s.pcs[k]? = some q → Q m q) ∧ R m (h ++ es))
    (hr : Reaches prog.step ok ⟨m₀, []⟩ s h) :
    (∀ j, f j s.mem h = tally (w j) s.pcs) ∧ (∀ p ∈ s.pcs, Q s.mem p) ∧ R s.mem h := by
  refine hr.invariant
    (fun s h => (∀ j, f j s.mem h = tally (w j) s.pcs) ∧ (∀ p ∈ s.pcs, Q s.mem p) ∧ R s.mem h)
    ⟨h0, by simp, hR⟩ ?_
  intro s h a s' es hr ⟨hI, hQ, hR⟩ hok hs
  cases a with
  | start x =>
    obtain ⟨m, o, hx, rfl⟩ := step_start.mp hs
    obtain ⟨hf, hnew, hold, hR'⟩ := hstart s h x m o es hr hok hI hR hx
    refine ⟨fun j => ?_, fun q hq => ?_, hR'⟩
    · rw [tally_append, ← hI, hf]
      cases o <;> simp
    · rcases List.mem_append.mp hq with hq | hq
      · exact hold q hq (hQ q hq)
      · exact hnew q (Option.mem_toList.mp hq)
  | run i x =>
    obtain ⟨p, m, p', hp, hx, rfl⟩ := step_run.mp hs
    obtain ⟨hf, hown, hother, hR'⟩ :=
      hop s h i x p m p' es hr hok hI hQ hR hp hx
    refine ⟨fun j => ?_, fun q hq => ?_, hR'⟩
    · have hj := hf j
      have hsum := hI j
      have ht := tally_set (w j) hp p'
      simp only
      omega
    · rcases mem_set_cases hq with rfl | ⟨k, hk, hq⟩
      · exact hown
      · exact hother k q hk hq

theorem conserved (f : M → List E → Int) (w : P → Int) (h0 : f m₀ [] = 0)
    (hstart : ∀ s h x m o es, Reaches prog.step ok ⟨m₀, []⟩ s h → ok s h (.start x) →
      prog.start s.mem x = some (m, o, es) → f m (h ++ es) = f s.mem h + (o.map w).getD 0)
    (hop : ∀ s h i x p m p' es, Reaches prog.step ok ⟨m₀, []⟩ s h → ok s h (.run i x) →
      f s.mem h = tally w s.pcs → s.pcs[i]? = some p → prog.op s.mem p x = some (m, p', es) →
      f m (h ++ es) + w p = f s.mem h + w p')
    (hr : Reaches prog.step ok ⟨m₀, []⟩ s h) : f s.mem h = tally w s.pcs := by
  refine (accounted (fun _ : Unit => f) (fun _ => w) (fun _ _ => True) (fun _ _ => True)
    (fun _ => h0) trivial ?_ ?_ hr).1 ()
  · intro s h x m o es hr hok _ _ hx
    exact ⟨fun _ => hstart s h x m o es hr hok hx, fun _ _ => trivial, fun _ _ _ => trivial, trivial⟩
  · intro s h i x p m p' es hr hok hI _ _ hp hx
    exact ⟨fun _ => hop s h i x p m p' es hr hok (hI ()) hp hx, trivial, fun _ _ _ _ => trivial,
      trivial⟩

/-- What a thread knows of the memory: it learns it by its own operations, and no operation of
another thread takes it away. -/
theorem known (Q : M → P → Prop)
    (hstart : ∀ s h x m o es, Reaches prog.step ok ⟨m₀, []⟩ s h → ok s h (.start x) →
      prog.start s.mem x = some (m, o, es) →
      (∀ p ∈ o, Q m p) ∧ ∀ q ∈ s.pcs, Q s.mem q → Q m q)
    (hop : ∀ s h i x p m p' es, Reaches prog.step ok ⟨m₀, []⟩ s h → ok s h (.run i x) →
      s.pcs[i]? = some p → prog.op s.mem p x = some (m, p', es) → Q s.mem p →
      Q m p' ∧ ∀ k q, k ≠ i → s.pcs[k]? = some q → Q s.mem q → Q m q)
    (hr : Reaches prog.step ok ⟨m₀, []⟩ s h) : ∀ p ∈ s.pcs, Q s.mem p := by
  refine (accounted (fun j : Empty => j.elim) (fun j => j.elim) Q (fun _ _ => True)
    (fun j => j.elim) trivial ?_ ?_ hr).2.1
  · intro s h x m o es hr hok _ _ hx
    obtain ⟨hnew, hold⟩ := hstart s h x m o es hr hok hx
    exact ⟨fun j => j.elim, hnew, hold, trivial⟩
  · intro s h i x p m p' es hr hok _ hQ _ hp hx
    obtain ⟨hown, hother⟩ := hop s h i x p m p' es hr hok hp hx (hQ p (List.mem_of_getElem? hp))
    exact ⟨fun j => j.elim, hown, fun k q hk hq => hother k q hk hq (hQ q (List.mem_of_getElem? hq)),
      trivial⟩

/-- A position that is entered only when nobody is there is taken by one thread at most. -/
theorem at_most_one (c : P → Bool)
    (hstart : ∀ s h x m p es, Reaches prog.step ok ⟨m₀, []⟩ s h → ok s h (.start x) →
      prog.start s.mem x = some (m, some p, es) → c p = true → s.pcs.countP c = 0)
    (hop : ∀ s h i x p m p' es, Reaches prog.step ok ⟨m₀, []⟩ s h → ok s h (.run i x) →
      s.pcs[i]? = some p → prog.op s.mem p x = some (m, p', es) → c p' = true →
      c p = true ∨ s.pcs.countP c = 0)
    (hr : Reaches prog.step ok ⟨m₀, []⟩ s h) : s.pcs.countP c ≤ 1 := by
  refine hr.invariant (fun s _ => s.pcs.countP c ≤ 1) (Nat.zero_le 1) ?_
  intro s h a s' es hr hI hok hs
  cases a with
  | start x =>
    obtain ⟨m, o, hx, rfl⟩ := step_start.mp hs
    cases o with
    | none => simpa using hI
    | some p =>
      simp only [Option.toList_some, List.countP_append, List.countP_singleton]
      split
      · have hzero := hstart s h x m p es hr hok hx ‹_›
        omega
      · exact hI
  | run i x =>
    obtain ⟨p, m, p', hp, hx, rfl⟩ := step_run.mp hs
    have hset := tally_set (fun q => if c q then 1 else 0) hp p'
    rw [tally_ite, tally_ite] at hset
    simp only
    split at hset
    · split at hset <;> omega
    · split at hset
      · rename_i hc hc'
        have hzero := (hop s h i x p m p' es hr hok hp hx hc').resolve_left hc
        omega
      · omega

end Runs

end Threads
