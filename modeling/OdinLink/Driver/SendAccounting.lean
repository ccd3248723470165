import OdinLink.Driver.MsgAccounts

/-!
# The accounting of sends

The accounts of every message balance in every run: its counters are what the threads that work on
it and the frames on the ring stand for.
-/

namespace OdinLink

open Threads History

inductive MsgAccount where
  | pend
  | refs
  | pre
  | zero

def TxMem.atMsg (m : TxMem) (k : Nat) (f : TxMsg → Int) : Int := ((m.msgs k).map f).getD 0

def MsgAccount.value (k : Nat) : MsgAccount → TxMem → List TxEvent → Int
  | .pend, m, _ => m.atMsg k TxMsg.framesPending - m.onRingMsg k
  | .refs, m, _ => m.atMsg k fun g => g.refs - g.completionRef
  | .pre, m, _ => m.atMsg k undone
  | .zero, m, h => m.atMsg k dead - occurs k (· == .zero) h

def MsgAccount.ofParts : MsgAccount → Parts → Int
  | .pend => Parts.pend
  | .refs => Parts.ref
  | .pre => Parts.pre
  | .zero => fun _ => 0

def MsgAccount.part (k : Nat) (a : MsgAccount) : TxPc → Int
  | .on j pos => if j = k then a.ofParts pos.parts else 0
  | _ => 0

theorem MsgAccount.ofParts_nonneg (a : MsgAccount) (pos : TxPos) : 0 ≤ a.ofParts pos.parts := by
  cases pos with
  | complete own stage | release own stage =>
    cases stage <;> cases own <;> cases a <;> simp [MsgAccount.ofParts]
  | batchDec b live | batchPut b live => cases live <;> cases a <;> simp [MsgAccount.ofParts]
  | _ => cases a <;> simp [MsgAccount.ofParts]

theorem MsgAccount.part_nonneg (k : Nat) (a : MsgAccount) (p : TxPc) : 0 ≤ a.part k p := by
  cases p with
  | on j pos =>
    rw [MsgAccount.part]
    split
    · exact a.ofParts_nonneg pos
    · exact Int.le_refl 0
  | waitTx st | returned => exact Int.le_refl 0

/-- The completion reference is taken only when the sender is done and no frame is pending. -/
def TxMsg.Token (g : TxMsg) : Prop :=
  g.completionRef = 1 ∨ g.completionRef = 0 ∧ g.done = true ∧ g.framesPending = 0

def TxMem.Tokens (m : TxMem) : Prop :=
  ∀ k, match m.msgs k with
    | some g => g.Token
    | none => m.onRingMsg k = 0

def TxPc.Informed (m : TxMem) : TxPc → Prop
  | .on k pos => ∃ g, m.msgs k = some g ∧ pos.MsgKnown g
  | _ => True

def MsgBalanced (s : Sys TxMem TxPc) (h : List TxEvent) : Prop :=
  ∀ x : Nat × MsgAccount, x.2.value x.1 s.mem h = tally (x.2.part x.1) s.pcs

section Balanced
variable {s : Sys TxMem TxPc} {h : List TxEvent} {i j k : Nat} {g g' : TxMsg} {pos : TxPos}
  {m' : TxMem} {p' q : TxPc} {es : List TxEvent}

theorem TxMem.atMsg_some {m : TxMem} (hg : m.msgs k = some g) (f : TxMsg → Int) :
    m.atMsg k f = f g := by
  rw [TxMem.atMsg, hg]
  rfl

theorem MsgBalanced.part_le (hb : MsgBalanced s h) (hp : .on k pos ∈ s.pcs) (a : MsgAccount) :
    a.ofParts pos.parts ≤ a.value k s.mem h := by
  have hle := le_tally (a.part_nonneg k) hp
  rw [MsgAccount.part, if_pos rfl] at hle
  exact hle.trans (hb (k, a)).ge

theorem MsgBalanced.value_nonneg (hb : MsgBalanced s h) (k : Nat) (a : MsgAccount) :
    0 ≤ a.value k s.mem h := by
  have hnonneg := tally_nonneg (a.part_nonneg k) s.pcs
  exact hnonneg.trans (hb (k, a)).ge

theorem TxMsg.Token.eq (ht : g.Token) : g.completionRef = 0 ∨ g.completionRef = 1 := by
  rcases ht with htoken | ⟨htoken, -⟩
  · exact .inr htoken
  · exact .inl htoken

theorem covered (hb : MsgBalanced s h) (hg : s.mem.msgs k = some g) (ht : g.Token)
    (hp : .on k pos ∈ s.pcs) : Covered g pos := by
  have hring : 0 ≤ s.mem.onRingMsg k := by
    rw [TxMem.onRingMsg]
    omega
  have hpend := hb.part_le hp .pend
  have hpre := hb.part_le hp .pre
  have hrefs := hb.part_le hp .refs
  simp only [MsgAccount.value, MsgAccount.ofParts, TxMem.atMsg_some hg] at hpend hpre hrefs
  refine ⟨by omega, fun hpos => ?_, fun hpos => ?_, ht.eq⟩
  · by_contra hdone
    rw [undone, if_pos (by simpa using hdone)] at hpre
    omega
  · rcases ht.eq with htoken | htoken <;> omega

theorem settled_quiet (hb : MsgBalanced s h) (hg : s.mem.msgs k = some g) (ht : g.Token)
    (hzero : occurs k (· == .zero) h ≠ 0) :
    g.refs = 0 ∧ g.completionRef = 0 ∧ g.done = true ∧ g.framesPending = 0 := by
  have hdead := hb.value_nonneg k .zero
  have hrefs := hb.value_nonneg k .refs
  simp only [MsgAccount.value, TxMem.atMsg_some hg] at hdead hrefs
  have hzero' : g.refs = 0 := by
    by_contra hne
    rw [dead, if_neg hne] at hdead
    omega
  rcases ht with htoken | ⟨htoken, hdone, hpend⟩
  · omega
  · exact ⟨hzero', htoken, hdone, hpend⟩

end Balanced

section Step
variable {m m' : TxMem} {h : List TxEvent} {k : Nat} {g g' : TxMsg} {pos : TxPos} {p' : TxPc}
  {es : List TxEvent} (hs : MsgStep m k g pos m' g' p' es) (hg : m.msgs k = some g)

theorem MsgAccount.part_eq (a : MsgAccount) {q : TxPc}
    (hnext : ∀ j pos', q = .on j pos' → j = k) : a.part k q = a.ofParts q.parts := by
  cases q with
  | on j pos' => rw [MsgAccount.part, if_pos (hnext j pos' rfl), TxPc.parts]
  | waitTx st | returned => cases a <;> rfl

theorem MsgAccount.part_other (a : MsgAccount) {j : Nat} {q : TxPc} (hj : j ≠ k)
    (hnext : ∀ l pos', q = .on l pos' → l = k) : a.part j q = 0 := by
  cases q with
  | on l pos' => rw [MsgAccount.part, if_neg (fun hl => hj (hl.symm.trans (hnext l pos' rfl)))]
  | waitTx st | returned => rfl

include hs in
theorem MsgStep.msgs_own : m'.msgs k = some g' := by
  rw [hs.msgs]
  exact if_pos rfl

include hs in
theorem MsgStep.msgs_other {j : Nat} (hj : j ≠ k) : m'.msgs j = m.msgs j := by
  rw [hs.msgs]
  exact if_neg hj

include hs in
theorem MsgStep.not_mem {j : Nat} (hj : j ≠ k) (e : MsgEvent) : .msg j e ∉ es := by
  intro hmem
  have hpos : 0 < occurs j (fun _ => true) es :=
    List.countP_pos_iff.mpr ⟨_, hmem, by simp⟩
  have hzero := hs.events j (fun _ => true) hj
  omega

include hs hg in
theorem MsgStep.balance (j : Nat) (a : MsgAccount) (h : List TxEvent) :
    a.value j m' (h ++ es) + a.part j (.on k pos) = a.value j m h + a.part j p' := by
  by_cases hj : j = k
  · subst hj
    have hpend := hs.pend
    have hrefs := hs.refs
    have hpre := hs.pre
    have hzero := hs.zero
    rw [a.part_eq hs.next, a.part_eq (q := .on j pos) (by rintro l pos' ⟨⟩; rfl)]
    cases a <;> simp only [MsgAccount.value, MsgAccount.ofParts, TxMem.atMsg_some hg,
      TxMem.atMsg_some hs.msgs_own, occurs_append, TxPc.parts_on] <;> omega
  · have hzero : ∀ c, occurs j c es = 0 := fun c => hs.events j c hj
    have hat : ∀ f, m'.atMsg j f = m.atMsg j f := fun f => by
      rw [TxMem.atMsg, hs.msgs_other hj, TxMem.atMsg]
    rw [a.part_other hj hs.next, a.part_other (q := .on k pos) hj (by rintro l pos' ⟨⟩; rfl)]
    cases a <;> simp only [MsgAccount.value, hat, hs.ring j hj, occurs_append, hzero]
    omega

include hs in
theorem MsgStep.pending_kept (hc : Covered g pos) (hdone : g.done = true)
    (hpend : g.framesPending = 0) : g'.framesPending = 0 := by
  rcases hs.same with hsame | hpre | hpos
  · exact hsame.trans hpend
  · exact absurd hdone (by simp [hc.pre hpre])
  · have hle := hc.pend
    omega

include hs in
theorem MsgStep.informed_own : p'.Informed m' := by
  cases p' with
  | on j pos' =>
    obtain rfl := hs.next j pos' rfl
    exact ⟨g', hs.msgs_own, hs.known⟩
  | waitTx st | returned => trivial

include hs hg in
theorem MsgStep.informed_other (hc : Covered g pos) {q : TxPc} (hq : q.Informed m) :
    q.Informed m' := by
  cases q with
  | waitTx st | returned => trivial
  | on j pos' =>
    obtain ⟨g₁, hg₁, hknown⟩ := hq
    by_cases hj : j = k
    · subst hj
      obtain rfl : g₁ = g := Option.some.inj (hg₁.symm.trans hg)
      refine ⟨g', hs.msgs_own, ?_⟩
      cases pos' with
      | complete own stage =>
        cases stage with
        | loadDone => trivial
        | readPending => exact hs.done hknown
        | xchg => exact ⟨hs.done hknown.1, hs.pending_kept hc hknown.1 hknown.2⟩
        | put =>
          rcases hs.token with htoken | ⟨htoken, -⟩
          · exact htoken.trans hknown
          · exact htoken
      | _ => trivial
    · exact ⟨g₁, (hs.msgs_other hj).trans hg₁, hknown⟩

include hs in
theorem MsgStep.kept_token (hc : Covered g pos) (hknown : pos.MsgKnown g) (ht : g.Token) :
    g'.Token := by
  rcases hs.token with htoken | ⟨htoken, own, rfl⟩
  · rw [TxMsg.Token, htoken]
    exact ht.imp_right fun ⟨hzero, hdone, hpend⟩ =>
      ⟨hzero, hs.done hdone, hs.pending_kept hc hdone hpend⟩
  · exact .inr ⟨htoken, hs.done hknown.1, hs.pending_kept hc hknown.1 hknown.2⟩

end Step

section Runs
variable {ok : Sys TxMem TxPc → List TxEvent → Move TxStart Bool → Prop} {s : Sys TxMem TxPc}
  {h : List TxEvent}

theorem TxMem.Tokens.of_some {m : TxMem} (ht : m.Tokens) {k : Nat} {g : TxMsg}
    (hg : m.msgs k = some g) : g.Token := by
  have hk := ht k
  rwa [hg] at hk

theorem TxMem.Tokens.of_none {m : TxMem} (ht : m.Tokens) {k : Nat} (hg : m.msgs k = none) :
    m.onRingMsg k = 0 := by
  have hk := ht k
  rwa [hg] at hk

theorem TxMem.Tokens.other {m : TxMem} (ht : m.Tokens) {k : Nat} (m' : TxMem)
    (hsame : m'.msgs k = m.msgs k) (hring : m'.onRingMsg k ≤ m.onRingMsg k) :
    match m'.msgs k with
    | some g => g.Token
    | none => m'.onRingMsg k = 0 := by
  rw [hsame]
  cases hg : m.msgs k with
  | none =>
    have hzero := ht.of_none hg
    have hnonneg : 0 ≤ m'.onRingMsg k := by
      rw [TxMem.onRingMsg]
      omega
    exact Int.le_antisymm (hzero ▸ hring) hnonneg
  | some g => exact ht.of_some hg

section Send
variable {m : TxMem} {k st : Nat} (hfree : m.msgs k = none)

theorem send_tokens (ht : m.Tokens) : (m.setMsg k (.fresh st)).Tokens := by
  intro j
  by_cases hj : j = k
  · subst hj
    simpa using .inl rfl
  · exact ht.other _ (if_neg hj) (Int.le_refl _)

include hfree in
theorem send_informed {q : TxPc} (hq : q.Informed m) : q.Informed (m.setMsg k (.fresh st)) := by
  cases q with
  | waitTx st | returned => trivial
  | on j pos =>
    obtain ⟨g, hg, hknown⟩ := hq
    have hj : j ≠ k := by
      rintro rfl
      rw [hfree] at hg
      contradiction
    exact ⟨g, (if_neg hj).trans hg, hknown⟩

include hfree in
theorem send_value (mode : TxMode) (frames j : Nat) (a : MsgAccount) :
    a.value j (m.setMsg k (.fresh st)) h =
      a.value j m h + a.part j (.on k (.hold mode frames)) := by
  by_cases hj : j = k
  · subst hj
    have hold : ∀ f, m.atMsg j f = 0 := fun f => by
      rw [TxMem.atMsg, hfree]
      rfl
    have hnew : ∀ f, (m.setMsg j (.fresh st)).atMsg j f = f (.fresh st) := fun f =>
      TxMem.atMsg_some (if_pos rfl) f
    cases a <;> simp only [MsgAccount.value, hold, hnew] <;>
      simp [MsgAccount.part, MsgAccount.ofParts, TxMsg.fresh]
  · have hat : ∀ f, (m.setMsg k (.fresh st)).atMsg j f = m.atMsg j f := fun f => by
      simp [TxMem.atMsg, hj]
    have hkj : ¬ k = j := Ne.symm hj
    cases a <;> simp [MsgAccount.value, MsgAccount.part, hat, hkj]

end Send

theorem txStart_msg {m m' : TxMem} {x : TxStart} {o : Option TxPc} {es : List TxEvent}
    (ht : m.Tokens) (hx : txStart m x = some (m', o, es)) :
    es = [] ∧ m'.Tokens ∧ (∀ p ∈ o, p.Informed m') ∧
      (∀ q : TxPc, q.Informed m → q.Informed m') ∧
      ∀ h k a, MsgAccount.value k a m' h = a.value k m h + (o.map (a.part k)).getD 0 := by
  cases x with
  | send k st mode frames =>
    rw [txStart] at hx
    split at hx <;> cases hx
    rename_i hfree
    refine ⟨rfl, send_tokens ht, ?_, fun q => send_informed hfree.1,
      fun h => send_value hfree.1 mode frames⟩
    rintro p ⟨⟩
    exact ⟨_, if_pos rfl, trivial⟩
  | complete i canceled =>
    simp only [txStart, Option.map_eq_some_iff, Prod.mk.injEq] at hx
    obtain ⟨f, hf, rfl, rfl, rfl⟩ := hx
    have hcount (k : Nat) := countP_eraseIdx hf (·.owner == k)
    have hle (k : Nat) : TxMem.onRingMsg {m with ring := m.ring.eraseIdx i} k ≤ m.onRingMsg k := by
      have hk := hcount k
      simp only [TxMem.onRingMsg]
      split at hk <;> omega
    refine ⟨rfl, fun k => ht.other _ rfl (hle k), ?_, fun q hq => hq, fun h k a => ?_⟩
    · rintro p ⟨⟩
      have hpos : m.onRingMsg f.owner ≠ 0 := by
        have hcount : 0 < m.ring.countP (·.owner == f.owner) :=
          List.countP_pos_iff.mpr ⟨f, List.mem_of_getElem? hf, by simp⟩
        rw [TxMem.onRingMsg]
        omega
      have hsome : ∃ g, m.msgs f.owner = some g := by
        cases hg : m.msgs f.owner with
        | none => exact absurd (ht.of_none hg) hpos
        | some g => exact ⟨g, rfl⟩
      obtain ⟨g, hg⟩ := hsome
      cases f <;> exact ⟨g, hg, trivial⟩
    · have hk := hcount k
      cases f <;> cases a <;>
        simp [MsgAccount.value, MsgAccount.part, MsgAccount.ofParts, RingFrame.callback,
          TxMem.onRingMsg, TxMem.atMsg] at hk ⊢ <;> omega
  | waitTx st =>
    cases hx
    refine ⟨rfl, ht, ?_, fun q hq => hq, fun h k a => ?_⟩
    · rintro p ⟨⟩
      trivial
    · simp [MsgAccount.part]

theorem msgBalanced (hr : Reaches txProg.step ok ⟨.init, []⟩ s h) :
    MsgBalanced s h ∧ (∀ p ∈ s.pcs, p.Informed s.mem) ∧ s.mem.Tokens := by
  refine accounted (fun x : Nat × MsgAccount => x.2.value x.1) (fun x => x.2.part x.1)
    (fun m p => p.Informed m) (fun m _ => m.Tokens) ?_ ?_ ?_ ?_ hr
  · rintro ⟨k, a⟩
    cases a <;> rfl
  · intro k
    simp [TxMem.init, TxMem.onRingMsg]
  · intro s h x m o es _ _ _ ht hx
    obtain ⟨rfl, ht', hnew, hold, hvalue⟩ := txStart_msg ht hx
    rw [List.append_nil]
    exact ⟨fun x => hvalue h x.1 x.2, hnew, fun q _ => hold q, ht'⟩
  · intro s h i x p m p' es hr _ hb hinf ht hp ho
    by_cases hon : ∃ k pos, p = .on k pos
    · obtain ⟨k, pos, rfl⟩ := hon
      obtain ⟨g, hg, ho⟩ := Option.bind_eq_some_iff.mp ho
      have hmem := List.mem_of_getElem? hp
      have ht' := ht.of_some hg
      have hc := covered hb hg ht' hmem
      obtain ⟨g₁, hg₁, hknown⟩ := hinf _ hmem
      obtain rfl : g₁ = g := Option.some.inj (hg₁.symm.trans hg)
      obtain ⟨g', hs⟩ := onOp_msg hg ((bufBalanced hr).2.1 _ hmem) hknown hc ho
      refine ⟨fun x => hs.balance hg x.1 x.2 h, hs.informed_own,
        fun j q _ hq => hs.informed_other hg hc (hinf q (List.mem_of_getElem? hq)), fun j => ?_⟩
      by_cases hj : j = k
      · subst hj
        rw [hs.msgs_own]
        exact hs.kept_token hc hknown ht'
      · exact ht.other _ (hs.msgs_other hj) (hs.ring j hj).le
    · obtain ⟨rfl, rfl, st, rfl, hes⟩ := txOp_waiter (fun k pos he => hon ⟨k, pos, he⟩) ho
      have hzero : ∀ k c, occurs k c es = 0 := fun k c => by
        rcases hes with rfl | ⟨rfl, -⟩ <;> rfl
      refine ⟨fun x => ?_, trivial, fun _ q _ hq => hinf q (List.mem_of_getElem? hq), ht⟩
      obtain ⟨k, a⟩ := x
      cases a <;> simp [MsgAccount.value, MsgAccount.part, occurs_append, hzero]

end Runs

end OdinLink
