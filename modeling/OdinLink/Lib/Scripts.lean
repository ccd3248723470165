import Mathlib.Control.Basic

/-!
# Programs of operations

A program performs one operation after another on a memory that it shares with others, and goes on
according to their results. What can be said of a program alone is which operations it performs
after which results.
-/

namespace Scripts

/-- Performs operations of `Op`, whose results are of type `Res`, and returns an `α`. -/
inductive Script (Op : Type) (Res : Op → Type) (α : Type) where
  | pure (a : α)
  | call (op : Op) (k : Res op → Script Op Res α)

variable {Op : Type} {Res : Op → Type} {α β γ : Type}

namespace Script

def bind : Script Op Res α → (α → Script Op Res β) → Script Op Res β
  | .pure a, f => f a
  | .call op k, f => .call op fun r => (k r).bind f

instance : Monad (Script Op Res) where
  pure := .pure
  bind := bind

@[simp] theorem pure_bind' (a : α) (f : α → Script Op Res β) :
    (Pure.pure a : Script Op Res α) >>= f = f a :=
  rfl

@[simp] theorem call_bind (op : Op) (k : Res op → Script Op Res α) (f : α → Script Op Res β) :
    Script.call op k >>= f = .call op fun r => k r >>= f :=
  rfl

theorem bind_pure' (x : Script Op Res α) : x >>= Pure.pure = x := by
  induction x with
  | pure a => rfl
  | call op k ih => exact congrArg (Script.call op) (funext ih)

theorem bind_assoc' (x : Script Op Res α) (f : α → Script Op Res β) (g : β → Script Op Res γ) :
    x >>= f >>= g = x >>= fun a => f a >>= g := by
  induction x with
  | pure a => rfl
  | call op k ih => exact congrArg (Script.call op) (funext ih)

instance : LawfulMonad (Script Op Res) := LawfulMonad.mk'
  _ bind_pure' (fun _ _ => rfl) bind_assoc'

def perform (op : Op) : Script Op Res (Res op) := .call op .pure

@[simp] theorem perform_bind (op : Op) (f : Res op → Script Op Res β) :
    perform op >>= f = .call op f :=
  rfl

def when (c : Prop) [Decidable c] (x : Script Op Res Unit) : Script Op Res Unit :=
  if c then x else Pure.pure ()

end Script

section Rules
variable {G : Type}

/-- A rule for programs: which operations are allowed in a state of knowledge, and which states
their results lead to. -/
structure Rule (Op : Type) (Res : Op → Type) (G : Type) where
  allows : G → Op → Prop
  learns : G → (op : Op) → Res op → G → Prop

variable (rule : Rule Op Res G)

/-- The program keeps to the rule, whatever the results, and what it returns satisfies `Q`. -/
def Follows (Q : G → α → Prop) : Script Op Res α → G → Prop
  | .pure a, g => Q g a
  | .call op k, g => rule.allows g op ∧ ∀ r g', rule.learns g op r g' → Follows Q (k r) g'

variable {rule} {Q : G → α → Prop} {R : G → β → Prop}

@[simp] theorem follows_pure {a : α} {g : G} :
    Follows rule Q (Pure.pure a : Script Op Res α) g ↔ Q g a :=
  Iff.rfl

@[simp] theorem follows_call {op : Op} {k : Res op → Script Op Res α} {g : G} :
    Follows rule Q (.call op k) g ↔
      rule.allows g op ∧ ∀ r g', rule.learns g op r g' → Follows rule Q (k r) g' :=
  Iff.rfl

theorem Follows.mono {Q' : G → α → Prop} {x : Script Op Res α} {g : G} (hx : Follows rule Q x g)
    (hQ : ∀ g a, Q g a → Q' g a) : Follows rule Q' x g := by
  induction x generalizing g with
  | pure a => exact hQ g a hx
  | call op k ih => exact ⟨hx.1, fun r g' hr => ih r (hx.2 r g' hr)⟩

theorem follows_bind {x : Script Op Res α} {f : α → Script Op Res β} {g : G} :
    Follows rule R (x >>= f) g ↔ Follows rule (fun g a => Follows rule R (f a) g) x g := by
  induction x generalizing g with
  | pure a => exact Iff.rfl
  | call op k ih =>
    simp only [Script.call_bind, follows_call, ih]

theorem follows_when {Q : G → Unit → Prop} {c : Prop} [Decidable c] {x : Script Op Res Unit} {g : G} :
    Follows rule Q (x.when c) g ↔ if c then Follows rule Q x g else Q g () := by
  rw [Script.when]
  split <;> rfl

theorem Follows.when {Q : G → Unit → Prop} {c : Prop} [Decidable c] {x : Script Op Res Unit} {g : G}
    (hx : c → Follows rule Q x g) (hQ : Q g ()) : Follows rule Q (x.when c) g := by
  rw [follows_when]
  split
  · exact hx ‹_›
  · exact hQ

theorem Follows.bind {x : Script Op Res α} {f : α → Script Op Res β} {g : G}
    (hx : Follows rule Q x g) (hf : ∀ g a, Q g a → Follows rule R (f a) g) :
    Follows rule R (x >>= f) g :=
  follows_bind.mpr (hx.mono hf)

abbrev Abides (rule : Rule Op Res G) (x : Script Op Res α) (g : G) : Prop :=
  Follows rule (fun _ _ => True) x g

theorem Abides.bind {x : Script Op Res α} {f : α → Script Op Res β} {g : G}
    (hx : Abides rule x g) (hf : ∀ g a, Follows rule R (f a) g) : Follows rule R (x >>= f) g :=
  Follows.bind hx fun g a _ => hf g a

theorem Abides.when {c : Prop} [Decidable c] {x : Script Op Res Unit} {g : G}
    (hx : c → Abides rule x g) : Abides rule (x.when c) g :=
  Follows.when hx trivial

section OfLearn
variable {allows : G → Op → Prop} {safe : (op : Op) → Res op → Prop}
  {learn : G → (op : Op) → Res op → G} {g : G}

variable (allows safe learn) in
/-- A rule by which a result determines the next state of knowledge; `safe` is what is known of
the results beforehand. -/
def Rule.ofLearn : Rule Op Res G where
  allows := allows
  learns g op r g' := safe op r ∧ g' = learn g op r

theorem Follows.op {op : Op} {f : Res op → Script Op Res α} (hallows : allows g op)
    (hf : ∀ r, safe op r → Follows (.ofLearn allows safe learn) Q (f r) (learn g op r)) :
    Follows (.ofLearn allows safe learn) Q (Script.perform op >>= f) g := by
  refine ⟨hallows, ?_⟩
  rintro r g' ⟨hsafe, rfl⟩
  exact hf r hsafe

theorem Follows.lastOp {op : Op} {Q : G → Res op → Prop} (hallows : allows g op)
    (hQ : ∀ r, safe op r → Q (learn g op r) r) :
    Follows (.ofLearn allows safe learn) Q (Script.perform op) g := by
  refine ⟨hallows, ?_⟩
  rintro r g' ⟨hsafe, rfl⟩
  exact hQ r hsafe

theorem Abides.last {op : Op} (hallows : allows g op) :
    Abides (.ofLearn allows safe learn) (Script.perform op) g :=
  Follows.lastOp hallows fun _ _ => trivial

end OfLearn

end Rules

def AllOps (P : Op → Prop) : Script Op Res α → Prop
  | .pure _ => True
  | .call op k => P op ∧ ∀ r, AllOps P (k r)

namespace AllOps
variable {P : Op → Prop}

theorem op {op : Op} {f : Res op → Script Op Res α} (hop : P op) (hf : ∀ r, AllOps P (f r)) :
    AllOps P (Script.perform op >>= f) :=
  ⟨hop, hf⟩

theorem lastOp {op : Op} (hop : P op) :
    AllOps P (Script.perform op : Script Op Res (Res op)) :=
  ⟨hop, fun _ => trivial⟩

theorem bind {x : Script Op Res α} {f : α → Script Op Res β} (hx : AllOps P x)
    (hf : ∀ a, AllOps P (f a)) : AllOps P (x >>= f) := by
  induction x with
  | pure a => exact hf a
  | call op k ih => exact ⟨hx.1, fun r => ih r (hx.2 r)⟩

theorem when {c : Prop} [Decidable c] {x : Script Op Res Unit} (hx : AllOps P x) :
    AllOps P (x.when c) := by
  rw [Script.when]
  split
  · exact hx
  · trivial

theorem mono {P' : Op → Prop} {p : Script Op Res α} (hp : AllOps P p) (hP : ∀ op, P op → P' op) :
    AllOps P' p := by
  induction p with
  | pure a => trivial
  | call op k ih => exact ⟨hP op hp.1, fun r => ih r (hp.2 r)⟩

theorem abides {G : Type} {rule : Rule Op Res G} {p : Script Op Res α} {g : G}
    (hp : AllOps (fun op => ∀ g, rule.allows g op) p) : Abides rule p g := by
  induction p generalizing g with
  | pure a => trivial
  | call op k ih => exact ⟨hp.1 g, fun r g' _ => ih r (hp.2 r)⟩

end AllOps

section Execution
variable {M I E : Type} (exec : M → (op : Op) → I → Option (M × Res op × List E))

def opStep (m : M) : Script Op Res α → I → Option (M × Script Op Res α × List E)
  | .pure _, _ => none
  | .call op k, x => (exec m op x).map fun r => (r.1, k r.2.1, r.2.2)

theorem opStep_eq {m m' : M} {p p' : Script Op Res α} {x : I} {es : List E}
    (hop : opStep exec m p x = some (m', p', es)) :
    ∃ op k r, p = .call op k ∧ exec m op x = some (m', r, es) ∧ p' = k r := by
  cases p with
  | pure a => contradiction
  | call op k =>
    obtain ⟨⟨m₁, r, fs⟩, hexec, heq⟩ := Option.map_eq_some_iff.mp hop
    cases heq
    exact ⟨op, k, r, rfl, hexec, rfl⟩

theorem Follows.opStep {G : Type} {allows : G → Op → Prop} {safe : (op : Op) → Res op → Prop}
    {learn : G → (op : Op) → Res op → G} {Q : G → α → Prop} {g : G} {m m' : M}
    {p p' : Script Op Res α} {x : I} {es : List E}
    (hp : Follows (.ofLearn allows safe learn) Q p g)
    (hop : Scripts.opStep exec m p x = some (m', p', es)) :
    ∃ op k r, p = .call op k ∧ allows g op ∧ exec m op x = some (m', r, es) ∧
      (safe op r → Follows (.ofLearn allows safe learn) Q p' (learn g op r)) := by
  obtain ⟨op, k, r, rfl, hexec, rfl⟩ := opStep_eq exec hop
  exact ⟨op, k, r, rfl, hp.1, hexec, fun hsafe => hp.2 r _ ⟨hsafe, rfl⟩⟩

end Execution

section Weakest
variable {M I E : Type} (exec : M → (op : Op) → I → Option (M × Res op × List E))
  (fine : M → Op → I → Prop)

/-- With answers that are fine, the program runs from the memory to a point where `stop` holds, or
to its end with `Q`; up to there, `inv` holds before every operation. -/
def Until (stop : Script Op Res α → M → Prop) (inv : M → Prop) (Q : M → α → Prop) :
    Script Op Res α → M → Prop
  | .pure a, m => Q m a
  | .call op k, m => stop (.call op k) m ∨ inv m ∧ ∀ x m' r es, fine m op x →
      exec m op x = some (m', r, es) → Until stop inv Q (k r) m'

abbrev Ensures (inv : M → Prop) (Q : M → α → Prop) : Script Op Res α → M → Prop :=
  Until exec fine (fun _ _ => False) inv Q

variable {exec fine} {stop : Script Op Res α → M → Prop} {inv : M → Prop} {Q : M → α → Prop}
  {m : M}

@[simp] theorem until_pure {a : α} :
    Until exec fine stop inv Q (Pure.pure a : Script Op Res α) m ↔ Q m a :=
  Iff.rfl

theorem Until.op {op : Op} {f : Res op → Script Op Res α} (hinv : inv m)
    (hf : ∀ x m' r es, fine m op x → exec m op x = some (m', r, es) →
      Until exec fine stop inv Q (f r) m') :
    Until exec fine stop inv Q (Script.perform op >>= f) m :=
  .inr ⟨hinv, hf⟩

theorem Ensures.mono {Q' : M → α → Prop} {p : Script Op Res α} (hp : Ensures exec fine inv Q p m)
    (hQ : ∀ m a, Q m a → Q' m a) : Ensures exec fine inv Q' p m := by
  induction p generalizing m with
  | pure a => exact hQ m a hp
  | call op k ih =>
    obtain ⟨hinv, hk⟩ := hp.resolve_left id
    exact .inr ⟨hinv, fun x m' r es hfine hexec => ih r (hk x m' r es hfine hexec)⟩

theorem Ensures.when {c : Prop} [Decidable c] {Q : M → Unit → Prop} {x : Script Op Res Unit}
    (hx : c → Ensures exec fine inv Q x m) (hQ : ¬ c → Q m ()) :
    Ensures exec fine inv Q (x.when c) m := by
  rw [Script.when]
  split
  · exact hx ‹_›
  · exact hQ ‹_›

theorem Ensures.bind {x : Script Op Res β} {f : β → Script Op Res α} {R : M → β → Prop}
    (hx : Ensures exec fine inv R x m)
    (hf : ∀ m a, R m a → Ensures exec fine inv Q (f a) m) :
    Ensures exec fine inv Q (x >>= f) m := by
  induction x generalizing m with
  | pure a => exact hf m a hx
  | call op k ih =>
    obtain ⟨hinv, hk⟩ := hx.resolve_left id
    exact .inr ⟨hinv, fun x m' r es hfine hexec => ih r (hk x m' r es hfine hexec)⟩

end Weakest

section Finish
variable {M I E : Type} {exec : M → (op : Op) → I → Option (M × Res op × List E)}
variable {xs : List I} {es : List E} {a : α} {m : M} {p : Script Op Res α}

variable (exec) in
def finish : Script Op Res α → M → List I → Option (M × α × List E)
  | .pure a, m, _ => some (m, a, [])
  | .call _ _, _, [] => none
  | .call op k, m, x :: xs => (exec m op x).bind fun r =>
    (finish (k r.2.1) r.1 xs).map fun q => (q.1, q.2.1, r.2.2 ++ q.2.2)

@[simp] theorem finish_pure :
    finish exec (Pure.pure a : Script Op Res α) m xs = some (m, a, []) := by
  cases xs <;> rfl

theorem finish_call {op : Op} {k : Res op → Script Op Res α} {m m' : M} :
    finish exec (.call op k) m xs = some (m', a, es) ↔
      ∃ x ys m₁ r es₁ es₂, xs = x :: ys ∧ exec m op x = some (m₁, r, es₁) ∧
        finish exec (k r) m₁ ys = some (m', a, es₂) ∧ es = es₁ ++ es₂ := by
  cases xs with
  | nil => simp [finish]
  | cons x ys =>
    simp only [finish, Option.bind_eq_some_iff, Option.map_eq_some_iff, Prod.exists, List.cons.injEq,
      Prod.mk.injEq]
    constructor
    · rintro ⟨m₁, r, es₁, hexec, m₂, a₂, es₂, hfin, rfl, rfl, rfl⟩
      exact ⟨x, ys, m₁, r, es₁, es₂, ⟨rfl, rfl⟩, hexec, hfin, rfl⟩
    · rintro ⟨_, _, m₁, r, es₁, es₂, ⟨rfl, rfl⟩, hexec, hfin, rfl⟩
      exact ⟨m₁, r, es₁, hexec, m', a, es₂, hfin, rfl, rfl, rfl⟩

theorem AllOps.ensures {P : Op → Prop} {fine : M → Op → I → Prop} {J : M → Prop} (hp : AllOps P p)
    (hexec : ∀ m op x m' r es, P op → exec m op x = some (m', r, es) → J m → J m') (hm : J m) :
    Ensures exec fine (fun _ => True) (fun m' _ => J m') p m := by
  induction p generalizing m with
  | pure a => exact hm
  | call op k ih =>
    exact .inr ⟨trivial, fun x m' r es _ hop => ih r (hp.2 r) (hexec m op x m' r es hp.1 hop hm)⟩

/-- The answers that the program uses are fine. -/
def FineRun (exec : M → (op : Op) → I → Option (M × Res op × List E)) (fine : M → Op → I → Prop) :
    Script Op Res α → M → List I → Prop
  | .call op k, m, x :: xs => fine m op x ∧
      ∀ m' r es, exec m op x = some (m', r, es) → FineRun exec fine (k r) m' xs
  | _, _, _ => True

theorem FineRun.of_forall {fine : M → Op → I → Prop}
    (hfine : ∀ m op, ∀ x ∈ xs, fine m op x) : FineRun exec fine p m xs := by
  induction p generalizing m xs with
  | pure a => cases xs <;> trivial
  | call op k ih =>
    cases xs with
    | nil => trivial
    | cons x xs =>
      refine ⟨hfine m op x List.mem_cons_self, fun m' r es _ => ih r ?_⟩
      exact fun m op y hy => hfine m op y (List.mem_cons_of_mem _ hy)

def fineRun (exec : M → (op : Op) → I → Option (M × Res op × List E)) (fine : M → Op → I → Bool) :
    Script Op Res α → M → List I → Bool
  | .call op k, m, x :: xs => fine m op x && match exec m op x with
    | some r => fineRun exec fine (k r.2.1) r.1 xs
    | none => true
  | _, _, _ => true

theorem FineRun.of_fineRun {fine : M → Op → I → Bool} (hfine : fineRun exec fine p m xs = true) :
    FineRun exec (fun m op x => fine m op x = true) p m xs := by
  induction p generalizing m xs with
  | pure a => cases xs <;> trivial
  | call op k ih =>
    cases xs with
    | nil => trivial
    | cons x xs =>
      rw [fineRun, Bool.and_eq_true] at hfine
      refine ⟨hfine.1, fun m' r es hexec => ih r ?_⟩
      rw [hexec] at hfine
      exact hfine.2

theorem AllOps.fineRun {P : Op → Prop} {fine : M → Op → I → Bool} (hp : AllOps P p)
    (hfine : ∀ m op, P op → ∀ x ∈ xs, fine m op x = true) :
    fineRun exec fine p m xs = true := by
  induction p generalizing m xs with
  | pure a => cases xs <;> rfl
  | call op k ih =>
    cases xs with
    | nil => rfl
    | cons x xs =>
      rw [Scripts.fineRun, hfine m op hp.1 x List.mem_cons_self, Bool.true_and]
      split
      · exact ih _ (hp.2 _) fun m op hop y hy => hfine m op hop y (List.mem_cons_of_mem _ hy)
      · rfl

theorem Ensures.finish {fine : M → Op → I → Prop} {J : M → Prop} {Q : M → α → Prop} {m m' : M}
    (hp : Ensures exec fine J Q p m) (hfine : FineRun exec fine p m xs)
    (hfin : Scripts.finish exec p m xs = some (m', a, es)) : Q m' a := by
  induction p generalizing m xs es with
  | pure b =>
    cases finish_pure.symm.trans hfin
    exact hp
  | call op k ih =>
    obtain ⟨x, ys, m₁, r, es₁, es₂, rfl, hop, hrest, -⟩ := finish_call.mp hfin
    exact ih r ((hp.resolve_left id).2 x m₁ r es₁ hfine.1 hop) (hfine.2 m₁ r es₁ hop) hrest

section Knowing
variable {G : Type} {allows : G → Op → Prop} {safe : (op : Op) → Res op → Prop}
  {learn : G → (op : Op) → Res op → G} {Q : G → α → Prop} {g : G} {m m' : M}
  {p : Script Op Res α} (agree : G → M → Prop)

theorem Follows.finish (hp : Follows (.ofLearn allows safe learn) Q p g)
    (hexec : ∀ g m op x m' r es, agree g m → allows g op → exec m op x = some (m', r, es) →
      safe op r ∧ agree (learn g op r) m')
    (hm : agree g m) (hfin : Scripts.finish exec p m xs = some (m', a, es)) :
    ∃ g', Q g' a ∧ agree g' m' := by
  induction p generalizing g m xs es with
  | pure b =>
    cases finish_pure.symm.trans hfin
    exact ⟨g, hp, hm⟩
  | call op k ih =>
    obtain ⟨x, ys, m₁, r, es₁, es₂, -, hop, hrest, -⟩ := finish_call.mp hfin
    obtain ⟨hsafe, hagree⟩ := hexec g m op x m₁ r es₁ hm hp.1 hop
    exact ih r (hp.2 r _ ⟨hsafe, rfl⟩) hagree hrest

/-- A program comes to its end, if the operations that it may perform do with every good answer. -/
theorem Follows.finishes {good : I → Prop} {xs : Nat → I} (hgood : ∀ i, good (xs i))
    (hp : Follows (.ofLearn allows safe learn) Q p g)
    (hexec : ∀ g m op x, agree g m → allows g op → good x →
      ∃ m' r es, exec m op x = some (m', r, es) ∧ safe op r ∧ agree (learn g op r) m')
    (hm : agree g m) :
    ∃ n m' a es, Scripts.finish exec p m ((List.range n).map xs) = some (m', a, es) := by
  induction p generalizing g m xs with
  | pure a => exact ⟨0, m, a, [], finish_pure⟩
  | call op k ih =>
    obtain ⟨m₁, r, es₁, hop, hsafe, hagree⟩ := hexec g m op (xs 0) hm hp.1 (hgood 0)
    obtain ⟨n, m', a, es₂, hrest⟩ :=
      ih r (fun i => hgood (i + 1)) (hp.2 r _ ⟨hsafe, rfl⟩) hagree
    refine ⟨n + 1, m', a, es₁ ++ es₂, ?_⟩
    rw [List.range_succ_eq_map, List.map_cons, List.map_map]
    exact finish_call.mpr ⟨_, _, m₁, r, es₁, es₂, rfl, hop, hrest, rfl⟩

end Knowing

end Finish

section Termination

end Termination

end Scripts
