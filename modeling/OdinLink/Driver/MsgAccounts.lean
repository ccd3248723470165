import OdinLink.Driver.BatchConservation

/-!
# What one operation does to a message

The sender and the callbacks of a message each stand for a part of its counters. One operation moves
a counter by as much as its thread's part, and touches no other message.
-/

namespace OdinLink

open Threads History

@[simp] def TxEvent.isMsg (k : Nat) (c : MsgEvent → Bool) : TxEvent → Bool
  | .msg j e => j == k && c e
  | _ => false

def occurs (k : Nat) (c : MsgEvent → Bool) (h : List TxEvent) : Nat := h.countP (·.isMsg k c)

theorem occurs_append (k : Nat) (c : MsgEvent → Bool) (h es : List TxEvent) :
    occurs k c (h ++ es) = occurs k c h + occurs k c es := List.countP_append

@[simp] theorem occurs_nil (k : Nat) (c : MsgEvent → Bool) : occurs k c [] = 0 := rfl

@[simp] theorem occurs_cons (k : Nat) (c : MsgEvent → Bool) (e : TxEvent) (es : List TxEvent) :
    occurs k c (e :: es) = occurs k c es + if e.isMsg k c then 1 else 0 := List.countP_cons

@[simp] def RingFrame.owner : RingFrame → Nat
  | .slot k => k
  | .batch _ k => k

def TxMem.onRingMsg (m : TxMem) (k : Nat) : Int := m.ring.countP (·.owner == k)

section Mem
variable (m : TxMem) (j k st : Nat) (g : TxMsg) (r : TxStream)

@[simp] theorem setMsg_msgs : (m.setMsg k g).msgs = fun j => if j = k then some g else m.msgs j := rfl
@[simp] theorem setMsg_onRingMsg : (m.setMsg k g).onRingMsg j = m.onRingMsg j := rfl
@[simp] theorem setStream_msgs : (m.setStream st r).msgs = m.msgs := rfl
@[simp] theorem setStream_onRingMsg : (m.setStream st r).onRingMsg j = m.onRingMsg j := rfl
@[simp] theorem push_msgs (f : RingFrame) : (m.push f).msgs = m.msgs := rfl

@[simp] theorem push_onRingMsg (f : RingFrame) :
    (m.push f).onRingMsg j = m.onRingMsg j + if f.owner = j then 1 else 0 := by
  simp only [TxMem.onRingMsg, TxMem.push, List.countP_append, List.countP_singleton, beq_iff_eq]
  split <;> simp

end Mem

/-- The parts of a message's counters a thread stands for: frames armed or in a callback that has
not counted them, references, and the mark that the sender is not done. -/
structure Parts where
  pend : Int := 0
  ref : Int := 0
  pre : Int := 0

@[simp] def ownRef (own : Bool) : Int := if own then 1 else 0

@[simp] def TxPos.parts : TxPos → Parts
  | .submit _ | .disarm => {pend := 1, ref := 1, pre := 1}
  | .submitBatch rest _ i => {pend := (nframes rest - i : Nat), ref := 1, pre := 1}
  | .subBatch _ unsub _ | .subMsg _ unsub _ => {pend := unsub, ref := 1, pre := 1}
  | .callback _ | .batchCallback _ _ | .batchFail _ | .dec => {pend := 1}
  | .batchDec _ live | .batchPut _ live => {pend := ownRef live}
  | .complete own .put => {ref := ownRef own + 1}
  | .complete own _ | .release own _ => {ref := ownRef own}
  | .ownPut => {ref := 1}
  | _ => {ref := 1, pre := 1}

@[simp] def TxPc.parts : TxPc → Parts
  | .on _ pos => pos.parts
  | _ => {}

theorem TxPc.parts_on (k : Nat) (pos : TxPos) : (TxPc.on k pos).parts = pos.parts := rfl

@[simp] def TxPos.completing : TxPos → Bool
  | .complete _ .put => false
  | .complete _ _ => true
  | _ => false

@[simp] def TxPos.puts : TxPos → Bool
  | .complete _ .put | .ownPut => true
  | _ => false

@[simp] def TxPc.completing (k : Nat) : TxPc → Bool
  | .on j pos => j == k && pos.completing
  | _ => false

@[simp] def TxPos.MsgKnown (g : TxMsg) : TxPos → Prop
  | .complete _ .readPending => g.done = true
  | .complete _ .xchg => g.done = true ∧ g.framesPending = 0
  | .complete _ .put => g.completionRef = 0
  | _ => True

@[simp] def TxPc.MsgKnown (g : TxMsg) : TxPc → Prop
  | .on _ pos => pos.MsgKnown g
  | _ => True

@[simp] def undone (g : TxMsg) : Int := if g.done then 0 else 1

@[simp] def dead (g : TxMsg) : Int := if g.refs = 0 then 1 else 0

structure MsgStep (m : TxMem) (k : Nat) (g : TxMsg) (pos : TxPos) (m' : TxMem) (g' : TxMsg)
    (p' : TxPc) (es : List TxEvent) : Prop where
  msgs : m'.msgs = fun j => if j = k then some g' else m.msgs j
  next : ∀ j pos', p' = .on j pos' → j = k
  ring : ∀ j, j ≠ k → m'.onRingMsg j = m.onRingMsg j
  events : ∀ j c, j ≠ k → occurs j c es = 0
  pend : g'.framesPending - m'.onRingMsg k + pos.parts.pend =
    g.framesPending - m.onRingMsg k + p'.parts.pend
  refs : g'.refs - g'.completionRef + pos.parts.ref = g.refs - g.completionRef + p'.parts.ref
  pre : undone g' + pos.parts.pre = undone g + p'.parts.pre
  zero : dead g' = dead g + occurs k (· == .zero) es
  done : g.done = true → g'.done = true
  same : g'.framesPending = g.framesPending ∨ 0 < pos.parts.pre ∨ 0 < pos.parts.pend
  token : g'.completionRef = g.completionRef ∨
    g'.completionRef = 0 ∧ ∃ own, pos = .complete own .xchg
  known : p'.MsgKnown g'
  touch : .msg k .touch ∈ es → 0 < pos.parts.ref ∨ 0 < pos.parts.pend ∨ pos.completing = true
  entering : p'.completing k = true →
    pos.completing = true ∨ 0 < pos.parts.pre ∨ 0 < pos.parts.pend
  last : .msg k .zero ∈ es →
    es = [.msg k .touch, .msg k .zero] ∧ g.refs = 1 ∧ pos.puts = true

/-- An event of the message that neither reads it nor releases it, or one of a batch buffer. -/
@[simp] def TxEvent.aside (k : Nat) : TxEvent → Bool
  | .msg j e => j == k && e != .touch && e != .zero
  | _ => true

structure IdleStep (m : TxMem) (k : Nat) (g : TxMsg) (pos : TxPos) (m' : TxMem) (p' : TxPc)
    (es : List TxEvent) : Prop where
  msgs : m'.msgs = m.msgs
  ring : m'.ring = m.ring
  next : ∀ j pos', p' = .on j pos' → j = k
  parts : p'.parts = pos.parts
  events : ∀ e ∈ es, e = .msg k .touch ∨ e.aside k = true
  known : p'.MsgKnown g
  touch : .msg k .touch ∈ es → 0 < pos.parts.ref ∨ 0 < pos.parts.pend ∨ pos.completing = true
  entering : p'.completing k = true → pos.completing = true

section Idle
variable {m m' : TxMem} {k : Nat} {g : TxMsg} {pos : TxPos} {p' : TxPc} {es : List TxEvent}

theorem occurs_eq_zero {j : Nat} {c : MsgEvent → Bool}
    (hes : ∀ e ∈ es, e.isMsg j c = false) : occurs j c es = 0 := by
  rw [occurs, List.countP_eq_zero]
  intro e he
  rw [hes e he]
  exact Bool.false_ne_true

theorem IdleStep.occurs_other (hi : IdleStep m k g pos m' p' es) {j : Nat} (c : MsgEvent → Bool)
    (hj : j ≠ k) : occurs j c es = 0 := by
  refine occurs_eq_zero fun e he => ?_
  rcases hi.events e he with rfl | haside
  · simp [Ne.symm hj]
  · cases e with
    | msg l x =>
      simp only [TxEvent.aside, Bool.and_eq_true, beq_iff_eq] at haside
      simp [haside.1.1, Ne.symm hj]
    | buf b x | waited st => rfl

theorem IdleStep.not_zero (hi : IdleStep m k g pos m' p' es) : .msg k .zero ∉ es := by
  intro hmem
  rcases hi.events _ hmem with heq | haside
  · cases heq
  · simp at haside

theorem IdleStep.occurs_zero (hi : IdleStep m k g pos m' p' es) :
    occurs k (· == .zero) es = 0 := by
  refine occurs_eq_zero fun e he => ?_
  cases e with
  | msg j x =>
    rw [TxEvent.isMsg, Bool.and_eq_false_iff, beq_eq_false_iff_ne, beq_eq_false_iff_ne,
      ← not_and_or]
    rintro ⟨rfl, rfl⟩
    exact hi.not_zero he
  | buf b x | waited st => rfl

theorem IdleStep.step (hi : IdleStep m k g pos m' p' es) (hg : m.msgs k = some g) :
    MsgStep m k g pos m' g p' es := by
  have hring : ∀ j, m'.onRingMsg j = m.onRingMsg j := fun j => by
    rw [TxMem.onRingMsg, hi.ring, TxMem.onRingMsg]
  constructor
  · rw [hi.msgs]
    funext j
    split
    · rename_i hj
      rw [hj, hg]
    · rfl
  · exact hi.next
  · exact fun j _ => hring j
  · exact fun j c hj => hi.occurs_other c hj
  · rw [hring, hi.parts]
  · rw [hi.parts]
  · rw [hi.parts]
  · rw [hi.occurs_zero]
    omega
  · exact id
  · exact .inl rfl
  · exact .inl rfl
  · exact hi.known
  · exact hi.touch
  · exact fun hp' => .inl (hi.entering hp')
  · exact fun hmem => (hi.not_zero hmem).elim

end Idle

section Steps
variable {m m' : TxMem} {k : Nat} {g : TxMsg} {ok : Bool} {pos : TxPos} {p' : TxPc}
  {es : List TxEvent}

structure Covered (g : TxMsg) (pos : TxPos) : Prop where
  pend : pos.parts.pend ≤ g.framesPending
  pre : 0 < pos.parts.pre → g.done = false
  refs : 0 < pos.parts.ref → 1 ≤ g.refs
  token : g.completionRef = 0 ∨ g.completionRef = 1

theorem if_self_msgs (hg : m.msgs k = some g) :
    m.msgs = fun j => if j = k then some g else m.msgs j := by
  funext j
  split
  · rename_i hj
    rw [hj, hg]
  · rfl

theorem arm_msg {rest : Nat} (hc : Covered g (.arm rest)) :
    MsgStep m k g (.arm rest) (m.setMsg k {g with framesPending := g.framesPending + 1})
      {g with framesPending := g.framesPending + 1} (.on k (.submit rest)) [.msg k .touch] := by
  have hdone := hc.pre (by simp)
  constructor <;> simp [hdone] <;> omega

theorem fail_msg (hc : Covered g .fail) :
    MsgStep m k g .fail (m.setMsg k {g with failed := true}) {g with failed := true} (.on k .drain)
      [.msg k .touch, .msg k .failed] := by
  have hdone := hc.pre (by simp)
  constructor <;> simp [hdone]
  omega

theorem submit_msg {rest : Nat} (hg : m.msgs k = some g) (hc : Covered g (.submit rest)) :
    MsgStep m k g (.submit rest) (m.push (.slot k)) g (.on k (.wait rest)) [.msg k .accepted] := by
  have hdone := hc.pre (by simp)
  have hsame := if_self_msgs hg
  constructor <;> simp [hdone, ← hsame] <;> omega

theorem dec_msg (hc : Covered g .dec) :
    MsgStep m k g .dec (m.setMsg k {g with framesPending := g.framesPending - 1})
      {g with framesPending := g.framesPending - 1}
      (if g.framesPending = 1 then .on k (.complete false .loadDone) else .returned)
      [.msg k .touch, .msg k .calledBack] := by
  have hpend := hc.pend
  by_cases hone : g.framesPending = 1
  · rw [if_pos hone]
    constructor <;> simp <;> omega
  · rw [if_neg hone]
    constructor <;> simp at * <;> omega

theorem disarm_msg (hc : Covered g .disarm) :
    MsgStep m k g .disarm (m.setMsg k {g with framesPending := g.framesPending - 1})
      {g with framesPending := g.framesPending - 1} (.on k .fail) [.msg k .touch] := by
  have hdone := hc.pre (by simp)
  constructor <;> simp [hdone] <;> omega

theorem addPending_msg {rest b : Nat} (hc : Covered g (.addPending rest b)) :
    MsgStep m k g (.addPending rest b)
      (m.setMsg k {g with framesPending := g.framesPending + nframes rest})
      {g with framesPending := g.framesPending + nframes rest} (.on k (.submitBatch rest b 0))
      [.msg k .touch] := by
  have hdone := hc.pre (by simp)
  constructor <;> simp [hdone] <;> omega

theorem submitBatch_msg {rest b i : Nat} (hg : m.msgs k = some g)
    (hc : Covered g (.submitBatch rest b i)) (hi : i < nframes rest) :
    MsgStep m k g (.submitBatch rest b i) (m.push (.batch b k)) g
      (.on k (.submitBatch rest b (i + 1))) [.msg k .accepted, .buf b .submitted] := by
  have hdone := hc.pre (by simp)
  have hsame := if_self_msgs hg
  constructor <;> simp [hdone, ← hsame] <;> omega

theorem subMsg_msg {b unsub i : Nat} {pos' : TxPos} (hc : Covered g (.subMsg b unsub i))
    (hpos : pos' = .putBack b ∨ pos' = .fail) :
    MsgStep m k g (.subMsg b unsub i)
      (m.setMsg k {g with framesPending := g.framesPending - unsub})
      {g with framesPending := g.framesPending - unsub} (.on k pos') [.msg k .touch] := by
  have hdone := hc.pre (by simp)
  rcases hpos with rfl | rfl <;> constructor <;> simp [hdone] <;> omega

theorem setDone_msg (hc : Covered g .setDone) :
    MsgStep m k g .setDone (m.setMsg k {g with done := true}) {g with done := true}
      (.on k (.complete true .loadDone)) [.msg k .touch, .msg k .done] := by
  have hdone := hc.pre (by simp)
  constructor <;> simp [hdone]
  omega

theorem callback_msg :
    MsgStep m k g (.callback true) (m.setMsg k {g with failed := true}) {g with failed := true}
      (.on k .dec) [.msg k .touch, .msg k .failed] := by
  constructor <;> simp
  omega

theorem batchFail_msg {b : Nat} :
    MsgStep m k g (.batchFail b) (m.setMsg k {g with failed := true}) {g with failed := true}
      (.on k (.batchDec b true)) [.msg k .touch, .msg k .failed] := by
  constructor <;> simp
  omega

theorem xchg_msg {own : Bool} (hc : Covered g (.complete own .xchg)) :
    MsgStep m k g (.complete own .xchg) (m.setMsg k {g with completionRef := 0})
      {g with completionRef := 0}
      (if g.completionRef = 1 then .on k (.complete own .put) else afterComplete k own)
      [.msg k .touch] := by
  rcases hc.token with htoken | htoken
  · rw [if_neg (by omega)]
    cases own <;> constructor <;> simp [afterComplete, htoken] <;> omega
  · rw [if_pos htoken]
    constructor <;> simp [htoken]
    omega

/-- `odl_tb5_tx_msg_put`, by the sender for its own reference or by whoever took the completion
reference. -/
theorem msgPut_msg {own : Bool} (hpos : pos = .complete own .put ∨ own = false ∧ pos = .ownPut)
    (hc : Covered g pos) (hknown : pos.MsgKnown g) (ho : msgPut m k g own = (m', p', es)) :
    MsgStep m k g pos m' {g with refs := g.refs - 1} p' es := by
  have hrefs : 1 ≤ g.refs := hc.refs (by
    rcases hpos with rfl | ⟨-, rfl⟩
    · cases own <;> simp
    · simp)
  rw [msgPut] at ho
  split at ho <;> cases ho
  · rename_i hone
    rcases hpos with rfl | ⟨rfl, rfl⟩
    · have htoken : g.completionRef = 0 := hknown
      cases own <;> constructor <;> simp [hone, htoken] <;> omega
    · constructor <;> simp [hone] <;> omega
  · rename_i hone
    rcases hpos with rfl | ⟨rfl, rfl⟩
    · have htoken : g.completionRef = 0 := hknown
      cases own <;> constructor <;> simp [afterComplete, htoken] <;> omega
    · constructor <;> simp [afterComplete] <;> omega

theorem move_msg {pos' : TxPos} (hg : m.msgs k = some g)
    (hes : es = [] ∨ es = [.msg k .touch] ∧ 0 < pos.parts.ref ∨
      ∃ e, es = [e] ∧ e.aside k = true := by exact .inl rfl)
    (hparts : pos'.parts = pos.parts := by rfl) (hpos' : pos'.completing = false := by rfl)
    (hknown : pos'.MsgKnown g := by exact trivial)
    (hmsgs : m'.msgs = m.msgs := by rfl) (hring : m'.ring = m.ring := by rfl) :
    MsgStep m k g pos m' g (.on k pos') es := by
  refine IdleStep.step ⟨hmsgs, hring, ?_, hparts, ?_, hknown, ?_, ?_⟩ hg
  · rintro j pos' ⟨⟩
    rfl
  · rcases hes with rfl | ⟨rfl, -⟩ | ⟨e, rfl, he⟩
    · simp
    · simp
    · simpa using .inr he
  · intro hmem
    rcases hes with rfl | ⟨-, href⟩ | ⟨e, rfl, he⟩
    · contradiction
    · exact .inl href
    · rw [← List.mem_singleton.mp hmem] at he
      simp at he
  · intro hp'
    rw [TxPc.completing, hpos', Bool.and_false] at hp'
    contradiction

theorem release_msg {own : Bool} {stage : ReleaseStage} (hg : m.msgs k = some g)
    (ho : releaseOp m k g own stage = (m', p', es)) :
    MsgStep m k g (.release own stage) m' g p' es := by
  cases stage with
  | readFailed =>
    cases ho
    split <;> exact move_msg hg (.inr (.inr ⟨_, rfl, by simp⟩))
  | decInFlight | putStream =>
    cases ho
    exact move_msg hg (.inr (.inr ⟨_, rfl, by simp⟩))
  | free =>
    cases ho
    refine IdleStep.step ?_ hg
    cases own <;> constructor <;> simp [afterComplete]

theorem check_msg {own : Bool} {stage : CompleteStage} (hg : m.msgs k = some g)
    (hstage : stage = .loadDone ∨ stage = .readPending)
    (hknown : (TxPos.complete own stage).MsgKnown g)
    (ho : completeOp m k g own stage = (m', p', es)) :
    MsgStep m k g (.complete own stage) m' g p' es := by
  refine IdleStep.step ?_ hg
  rcases hstage with rfl | rfl <;> cases ho
  · cases hdone : g.done <;> cases own <;> constructor <;> simp [afterComplete, hdone]
  · have hdone : g.done = true := hknown
    by_cases hzero : g.framesPending = 0
    · cases own <;> constructor <;> simp [hzero, hdone]
    · cases own <;> constructor <;> simp [hzero, afterComplete]

theorem batchCallback_msg {b : Nat} {canceled : Bool} (hg : m.msgs k = some g)
    (hbuf : (m.bufs b).txMsg = some k)
    (ho : onOp m k g ok (.batchCallback b canceled) = some (m', p', es)) :
    MsgStep m k g (.batchCallback b canceled) m' g p' es := by
  rw [onOp, hbuf] at ho
  cases ho
  cases canceled <;> exact move_msg hg

theorem onOp_msg (hg : m.msgs k = some g) (hbuf : pos.BufKnown m k) (hknown : pos.MsgKnown g)
    (hc : Covered g pos) (ho : onOp m k g ok pos = some (m', p', es)) :
    ∃ g', MsgStep m k g pos m' g' p' es := by
  cases pos with
  | hold mode left =>
    cases ho
    exact ⟨_, move_msg hg (.inr (.inr ⟨_, rfl, by simp⟩))⟩
  | count mode left =>
    cases ho
    cases mode <;> exact ⟨_, move_msg hg (.inr (.inr ⟨_, rfl, by simp⟩))⟩
  | wait left =>
    cases left with
    | zero =>
      cases ho
      exact ⟨_, move_msg hg (.inr (.inl ⟨rfl, by simp⟩))⟩
    | succ rest =>
      cases ho
      cases ok <;> exact ⟨_, move_msg hg (.inr (.inl ⟨rfl, by simp⟩))⟩
  | get rest =>
    cases ho
    cases ok <;> exact ⟨_, move_msg hg⟩
  | copy rest =>
    cases ho
    cases ok <;> exact ⟨_, move_msg hg (.inr (.inl ⟨rfl, by simp⟩))⟩
  | arm rest =>
    cases ho
    exact ⟨_, arm_msg hc⟩
  | submit rest =>
    cases ok <;> cases ho
    · exact ⟨_, move_msg hg⟩
    · exact ⟨_, submit_msg hg hc⟩
  | disarm =>
    cases ho
    exact ⟨_, disarm_msg hc⟩
  | batchWait left =>
    cases left with
    | zero =>
      cases ho
      exact ⟨_, move_msg hg⟩
    | succ rest =>
      rw [onOp] at ho
      split at ho
      · cases ho
        exact ⟨_, move_msg hg⟩
      · split at ho <;> cases ho
        exact ⟨_, move_msg hg⟩
  | batchGet rest =>
    rw [onOp] at ho
    split at ho <;> cases ho
    · exact ⟨_, move_msg hg⟩
    · exact ⟨_, move_msg hg (.inr (.inr ⟨_, rfl, rfl⟩))⟩
  | fill rest b i =>
    rw [onOp] at ho
    split at ho <;> cases ho
    · cases ok <;> exact ⟨_, move_msg hg⟩
    · exact ⟨_, move_msg hg⟩
  | stage rest b =>
    cases ho
    exact ⟨_, move_msg hg⟩
  | addPending rest b =>
    cases ho
    exact ⟨_, addPending_msg hc⟩
  | submitBatch rest b i =>
    rw [onOp] at ho
    split at ho
    · rename_i hi
      split at ho <;> cases ho
      · exact ⟨_, submitBatch_msg hg hc hi⟩
      · exact ⟨_, move_msg hg⟩
    · rename_i hi
      cases ho
      have hnone : nframes rest - i = 0 := by omega
      exact ⟨_, move_msg hg (.inl rfl) (by simp [hnone])⟩
  | subBatch b unsub i =>
    cases ho
    split
    · exact ⟨_, move_msg hg (.inr (.inr ⟨_, rfl, rfl⟩))⟩
    · exact ⟨_, move_msg hg⟩
  | subMsg b unsub i =>
    cases ho
    split
    · exact ⟨_, subMsg_msg hc (.inl rfl)⟩
    · exact ⟨_, subMsg_msg hc (.inr rfl)⟩
  | putBack b =>
    cases ho
    exact ⟨_, move_msg hg (.inr (.inr ⟨_, rfl, rfl⟩))⟩
  | fail =>
    cases ho
    exact ⟨_, fail_msg hc⟩
  | drain =>
    cases ho
    exact ⟨_, move_msg hg (.inr (.inl ⟨rfl, by simp⟩))⟩
  | setDone =>
    cases ho
    exact ⟨_, setDone_msg hc⟩
  | callback canceled =>
    cases canceled <;> cases ho
    · exact ⟨_, move_msg hg⟩
    · exact ⟨_, callback_msg⟩
  | batchCallback b canceled => exact ⟨_, batchCallback_msg hg hbuf ho⟩
  | batchFail b =>
    cases ho
    exact ⟨_, batchFail_msg⟩
  | batchDec b live =>
    cases ho
    refine ⟨_, IdleStep.step ?_ hg⟩
    split
    · cases live <;> constructor <;> simp [TxMem.setBuf]
    · cases live <;> constructor <;> simp [TxMem.setBuf, afterBatch]
  | batchPut b live =>
    cases ho
    refine ⟨_, IdleStep.step ?_ hg⟩
    cases live <;> constructor <;> simp [TxMem.batchPoolPut, TxMem.setBuf, afterBatch]
  | dec =>
    cases ho
    exact ⟨_, dec_msg hc⟩
  | complete own stage =>
    cases stage with
    | loadDone => exact ⟨_, check_msg hg (.inl rfl) hknown (Option.some.inj ho)⟩
    | readPending => exact ⟨_, check_msg hg (.inr rfl) hknown (Option.some.inj ho)⟩
    | xchg =>
      cases ho
      exact ⟨_, xchg_msg hc⟩
    | put => exact ⟨_, msgPut_msg (.inl rfl) hc hknown (Option.some.inj ho)⟩
  | ownPut => exact ⟨_, msgPut_msg (.inr ⟨rfl, rfl⟩) hc hknown (Option.some.inj ho)⟩
  | release own stage => exact ⟨_, release_msg hg (Option.some.inj ho)⟩

end Steps

end OdinLink
