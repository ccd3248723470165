import OdinLink.Driver.BatchBuffers

/-!
# No batch buffer is lost or put back twice

The accounts of a buffer balance in every run, so nobody puts it back while a frame of it is out.
It can be lost in one way: the sender that corrects the counter after a refused frame does not
look whether it reached zero.
-/

namespace OdinLink

open Threads History

section Runs

theorem bufShare_nonneg (b : Nat) (p : TxPc) : 0 ≤ p.lift (TxPos.bufShare b) := by
  cases p with
  | on k pos =>
    cases pos <;> simp only [TxPc.lift_on, TxPos.bufShare] <;> omega
  | waitTx st | returned => simp [TxPc.lift]

theorem bufKeeps_nonneg (b : Nat) (p : TxPc) : 0 ≤ p.lift (TxPos.bufKeeps b) := by
  cases p with
  | on k pos =>
    cases pos <;> simp only [TxPc.lift_on, TxPos.bufKeeps] <;> omega
  | waitTx st | returned => simp [TxPc.lift]

theorem bufCallback_le_share (b : Nat) (p : TxPc) :
    0 ≤ p.lift (TxPos.bufCallback b) ∧
      p.lift (TxPos.bufCallback b) ≤ p.lift (TxPos.bufShare b) := by
  cases p with
  | on k pos =>
    cases pos <;> simp only [TxPc.lift_on, TxPos.bufCallback, TxPos.bufShare] <;> omega
  | waitTx st | returned => simp [TxPc.lift]

/-- The accounts of a buffer: its counter, the place it is at, its frames on their way, its takes
and puts. -/
inductive BufAccount where
  | frames (b : Nat)
  | holder (b : Nat)
  | flying (b : Nat)
  | listed (b : Nat)
  | length

def BufAccount.value : BufAccount → TxMem → List TxEvent → Int
  | .frames b, m, _ => m.pendingBuf b - m.onRingBuf b
  | .holder b, m, h => (if b < batchBufCount then 1 else 0) - m.freeList.count b -
      busy (m.pendingBuf b) - h.count (.buf b .lost)
  | .flying b, m, h => (h.count (.buf b .submitted) : Int) - h.count (.buf b .called) -
      m.onRingBuf b
  | .listed b, m, h => (m.freeList.count b : Int) + h.count (.buf b .took) -
      h.count (.buf b .put) - if b < batchBufCount then 1 else 0
  | .length, m, _ => m.freeCount - m.freeList.length

def BufAccount.part : BufAccount → TxPc → Int
  | .frames b => TxPc.lift (TxPos.bufShare b)
  | .holder b => TxPc.lift (TxPos.bufKeeps b)
  | .flying b => TxPc.lift (TxPos.bufCallback b)
  | .listed _ | .length => fun _ => 0

def RingNamed (m : TxMem) : Prop := ∀ b k, .batch b k ∈ m.ring → (m.bufs b).txMsg = some k

def BufBalanced (s : Sys TxMem TxPc) (h : List TxEvent) : Prop :=
  ∀ a : BufAccount, a.value s.mem h = tally a.part s.pcs

section Balanced
variable {s : Sys TxMem TxPc} {h : List TxEvent} {b i j : Nat} {p q : TxPc}

theorem BufBalanced.share_le (hb : BufBalanced s h) (hp : p ∈ s.pcs) :
    p.lift (TxPos.bufShare b) ≤ s.mem.pendingBuf b := by
  have hsum := hb (.frames b)
  have hle := le_tally (bufShare_nonneg b) hp
  simp only [BufAccount.value, BufAccount.part, TxMem.onRingBuf] at hsum
  omega

theorem BufBalanced.share_add_le (hb : BufBalanced s h) (hij : i ≠ j) (hp : s.pcs[i]? = some p)
    (hq : s.pcs[j]? = some q) :
    p.lift (TxPos.bufShare b) + q.lift (TxPos.bufShare b) ≤ s.mem.pendingBuf b := by
  have hsum := hb (.frames b)
  have hle := add_le_tally (bufShare_nonneg b) hij hp hq
  simp only [BufAccount.value, BufAccount.part, TxMem.onRingBuf] at hsum
  omega

theorem BufBalanced.pending_nonneg (hb : BufBalanced s h) : 0 ≤ s.mem.pendingBuf b := by
  have hsum := hb (.frames b)
  have hle := tally_nonneg (bufShare_nonneg b) s.pcs
  simp only [BufAccount.value, BufAccount.part, TxMem.onRingBuf] at hsum
  omega

theorem BufBalanced.keeps (hb : BufBalanced s h) (hp : p ∈ s.pcs)
    (hkeeps : 0 < p.lift (TxPos.bufKeeps b)) :
    s.mem.pendingBuf b = 0 ∧ s.mem.freeList.count b = 0 ∧ b < batchBufCount := by
  have hsum := hb (.holder b)
  have hle := le_tally (bufKeeps_nonneg b) hp
  have hnonneg := hb.pending_nonneg (b := b)
  simp only [BufAccount.value, BufAccount.part, busy] at hsum
  split at hsum <;> split at hsum <;> refine ⟨?_, ?_, ?_⟩ <;> omega

/-- A thread that still has a share in a buffer finds it as it left it, whatever the others do:
who else would write the counter has a share in it, and who would make the buffer name another
message has it to itself. -/
theorem bufKnown_stable (hb : BufBalanced s h) {k : Nat} {pos : TxPos} {m' : TxMem} {p' : TxPc}
    {es : List TxEvent} (hij : j ≠ i) (hp : s.pcs[i]? = some (.on k pos))
    (hq : s.pcs[j]? = some q) (hstep : ∀ b, BufStep s.mem pos m' p' es b)
    (hknown : q.BufKnown s.mem) : q.BufKnown m' := by
  have hcount : ∀ c n : Nat, 0 < n → q.lift (TxPos.bufShare c) = n → s.mem.pendingBuf c = n →
      m'.pendingBuf c = n := by
    intro c n hn hshare hpend
    rcases (hstep c).same with hsame | hsome | hkeeps
    · exact hsame.trans hpend
    · have hle := hb.share_add_le (b := c) hij hq hp
      rw [TxPc.lift_on] at hle
      omega
    · have hzero := (hb.keeps (b := c) (List.mem_of_getElem? hp) hkeeps).1
      omega
  have hname : ∀ c l : Nat, 0 < q.lift (TxPos.bufShare c) → (s.mem.bufs c).txMsg = some l →
      (m'.bufs c).txMsg = some l := by
    intro c l hshare hnamed
    rcases (hstep c).named with hsame | hkeeps
    · exact hsame.trans hnamed
    · have hzero := (hb.keeps (b := c) (List.mem_of_getElem? hp) hkeeps).1
      have hle := hb.share_le (b := c) (List.mem_of_getElem? hq)
      omega
  cases q with
  | waitTx st | returned => trivial
  | on l pos' =>
    cases pos' with
    | addPending rest c =>
      have hpos := nframes_pos rest
      have hshare : (TxPc.on l (.addPending rest c)).lift (TxPos.bufShare c) = nframes rest := by
        simp [TxPos.bufShare]
      exact ⟨hcount c _ hpos hshare hknown.1, hname c l (by omega) hknown.2⟩
    | submitBatch rest c i =>
      have hshare : (TxPc.on l (.submitBatch rest c i)).lift (TxPos.bufShare c) =
          (nframes rest - i : Nat) := by
        simp [TxPos.bufShare]
      refine ⟨fun hi => ?_, fun hi => hname c l (by omega) (hknown.2 hi)⟩
      subst hi
      exact hcount c _ (nframes_pos rest) hshare (hknown.1 rfl)
    | subBatch c unsub i =>
      refine ⟨hknown.1, fun hi => ?_⟩
      exact hcount c unsub hknown.1 (by simp [TxPos.bufShare]) (hknown.2 hi)
    | batchCallback c canceled => exact hname c l (by simp [TxPos.bufShare]) hknown
    | _ => trivial

theorem ringNamed_stable (hb : BufBalanced s h) {k l : Nat} {pos : TxPos} {m' : TxMem} {p' : TxPc}
    {es : List TxEvent} (hp : .on k pos ∈ s.pcs) (hstep : BufStep s.mem pos m' p' es b)
    (hl : .batch b l ∈ s.mem.ring) (hnamed : (s.mem.bufs b).txMsg = some l) :
    (m'.bufs b).txMsg = some l := by
  rcases hstep.named with hsame | hkeeps
  · exact hsame.trans hnamed
  · have hzero := (hb.keeps hp hkeeps).1
    have hsum := hb (.frames b)
    have hnonneg := tally_nonneg (bufShare_nonneg b) s.pcs
    have hpos : 0 < s.mem.ring.countP (·.inBuf b) :=
      List.countP_pos_iff.mpr ⟨_, hl, by simp [RingFrame.inBuf]⟩
    simp only [BufAccount.value, BufAccount.part, TxMem.onRingBuf] at hsum
    omega

end Balanced

variable {ok : Sys TxMem TxPc → List TxEvent → Move TxStart Bool → Prop} {s : Sys TxMem TxPc}
  {h : List TxEvent}

theorem txStart_buffers {m m' : TxMem} {x : TxStart} {o : Option TxPc} {es : List TxEvent}
    (hx : txStart m x = some (m', o, es)) :
    es = [] ∧ m'.bufs = m.bufs ∧ m'.freeList = m.freeList ∧ m'.freeCount = m.freeCount ∧
      (RingNamed m → (∀ p ∈ o, p.BufKnown m') ∧ RingNamed m') ∧
      ∀ b, m'.onRingBuf b + (o.map (TxPc.lift (TxPos.bufShare b))).getD 0 = m.onRingBuf b ∧
        (o.map (TxPc.lift (TxPos.bufCallback b))).getD 0 =
          (o.map (TxPc.lift (TxPos.bufShare b))).getD 0 ∧
        (o.map (TxPc.lift (TxPos.bufKeeps b))).getD 0 = 0 := by
  cases x with
  | send k st mode frames =>
    rw [txStart] at hx
    split at hx <;> cases hx
    refine ⟨rfl, rfl, rfl, rfl, fun hring => ⟨?_, hring⟩, fun b => ⟨?_, rfl, rfl⟩⟩
    · rintro p ⟨⟩
      trivial
    · simp [TxMem.onRingBuf, TxMem.setMsg, TxPos.bufShare]
  | complete i canceled =>
    simp only [txStart, Option.map_eq_some_iff, Prod.mk.injEq] at hx
    obtain ⟨f, hf, rfl, rfl, rfl⟩ := hx
    refine ⟨rfl, rfl, rfl, rfl, fun hring => ⟨?_, ?_⟩, fun b => ?_⟩
    · rintro p ⟨⟩
      cases f with
      | slot k => trivial
      | batch c k => exact hring c k (List.mem_of_getElem? hf)
    · exact fun b k hmem => hring b k (List.mem_of_mem_eraseIdx hmem)
    · have hcount := countP_eraseIdx hf (·.inBuf b)
      cases f with
      | slot k | batch c k =>
        refine ⟨?_, rfl, rfl⟩
        simpa [TxMem.onRingBuf, RingFrame.callback, TxPos.bufShare, RingFrame.inBuf] using hcount
  | waitTx st =>
    cases hx
    refine ⟨rfl, rfl, rfl, rfl, fun hring => ⟨?_, hring⟩, fun b => ⟨?_, rfl, rfl⟩⟩
    · rintro p ⟨⟩
      trivial
    · simp [TxPc.lift]

theorem txOp_waiter {m m' : TxMem} {p p' : TxPc} {x : Bool} {es : List TxEvent}
    (hp : ∀ k pos, p ≠ .on k pos) (ho : txOp m p x = some (m', p', es)) :
    m' = m ∧ p' = .returned ∧ ∃ st, p = .waitTx st ∧
      (es = [] ∨ es = [.waited st] ∧ (m.streams st).txInFlight = 0) := by
  cases p with
  | on k pos => exact absurd rfl (hp k pos)
  | returned => cases ho
  | waitTx st =>
    rw [txOp] at ho
    split at ho
    · rename_i hzero
      cases ho
      exact ⟨rfl, rfl, st, rfl, .inr ⟨rfl, hzero⟩⟩
    · split at ho <;> cases ho
      exact ⟨rfl, rfl, st, rfl, .inl rfl⟩

theorem bufBalanced (hr : Reaches txProg.step ok ⟨.init, []⟩ s h) :
    BufBalanced s h ∧ (∀ p ∈ s.pcs, p.BufKnown s.mem) ∧ RingNamed s.mem := by
  refine accounted BufAccount.value BufAccount.part (fun m p => p.BufKnown m)
    (fun m _ => RingNamed m) ?_ ?_ ?_ ?_ hr
  · have hcount (b : Nat) := List.nodup_range.count (a := b) (l := List.range batchBufCount)
    intro a
    cases a with
    | frames b | flying b => rfl
    | length => simp [BufAccount.value, TxMem.init]
    | holder b | listed b =>
      simp only [BufAccount.value, TxMem.init, hcount, List.mem_range, TxMem.pendingBuf, busy]
      split <;> simp
  · intro b k hmem
    simp [TxMem.init] at hmem
  · intro s h x m o es _ _ _ hring hx
    obtain ⟨rfl, hbufs, hfree, hlen, hknown, hparts⟩ := txStart_buffers hx
    have hpend : ∀ b, m.pendingBuf b = s.mem.pendingBuf b := fun b => by
      rw [TxMem.pendingBuf, hbufs, TxMem.pendingBuf]
    refine ⟨fun a => ?_, (hknown hring).1, fun q _ hq => ?_, (hknown hring).2⟩
    · cases a with
      | frames b | holder b | flying b =>
        obtain ⟨hring, hcallback, hkeeps⟩ := hparts b
        simp only [BufAccount.value, BufAccount.part, hpend, hfree, List.append_nil]
        omega
      | listed b | length =>
        simp only [BufAccount.value, BufAccount.part, hfree, hlen, List.append_nil]
        cases o <;> simp
    · unfold TxPc.BufKnown TxPos.BufKnown at hq ⊢
      simpa only [hpend, hbufs] using hq
  · intro s h i x p m p' es _ _ hb hknown hring hp ho
    by_cases hon : ∃ k pos, p = .on k pos
    · obtain ⟨k, pos, rfl⟩ := hon
      obtain ⟨g, hg, ho⟩ := Option.bind_eq_some_iff.mp ho
      have hmem := List.mem_of_getElem? hp
      have hstep : ∀ b, BufStep s.mem pos m p' es b := fun b =>
        onOp_buffers (hknown _ hmem) (BufBalanced.share_le hb hmem)
          (fun hkeeps => (BufBalanced.keeps hb hmem hkeeps).1) ho
      refine ⟨fun a => ?_, (hstep 0).known,
        fun j q hij hq => bufKnown_stable hb hij hp hq hstep (hknown q (List.mem_of_getElem? hq)),
        fun b l hl => ?_⟩
      · cases a with
        | length => simp only [BufAccount.value, BufAccount.part, (hstep 0).length]
        | frames b | holder b | flying b | listed b =>
          obtain ⟨hframes, hholder, -, -, -, -, hflying, hlisted, -, -, -⟩ := hstep b
          simp only [BufAccount.value, BufAccount.part, TxPc.lift_on, List.count_append]
          omega
      · rcases (hstep b).ring l hl with hold | hnew
        · exact ringNamed_stable hb hmem (hstep b) hold (hring b l hold)
        · exact hnew
    · obtain ⟨rfl, rfl, st, rfl, hes⟩ := txOp_waiter (fun k pos he => hon ⟨k, pos, he⟩) ho
      refine ⟨fun a => ?_, trivial, fun _ q _ hq => hknown q (List.mem_of_getElem? hq), hring⟩
      have hnone : ∀ b e, es.count (.buf b e) = 0 := fun b e => by
        rcases hes with rfl | ⟨rfl, -⟩ <;> rfl
      cases a with
      | frames b | length => rfl
      | holder b | flying b | listed b =>
        simp only [BufAccount.value, BufAccount.part, TxPc.lift, List.count_append, hnone b]
        simp

theorem step_buffers (hr : Reaches txProg.step ok ⟨.init, []⟩ s h) {i : Nat} {x : Bool} {p p' : TxPc}
    {m : TxMem} {es : List TxEvent} (hp : s.pcs[i]? = some p)
    (ho : txOp s.mem p x = some (m, p', es)) :
    (∃ k pos, p = .on k pos ∧ ∀ b, BufStep s.mem pos m p' es b) ∨
      (∀ b e, .buf b e ∉ es) ∧ p' = .returned ∧ m = s.mem := by
  by_cases hon : ∃ k pos, p = .on k pos
  · obtain ⟨k, pos, rfl⟩ := hon
    obtain ⟨g, -, ho⟩ := Option.bind_eq_some_iff.mp ho
    obtain ⟨hb, hknown, -⟩ := bufBalanced hr
    have hmem := List.mem_of_getElem? hp
    exact .inl ⟨k, pos, rfl, fun b => onOp_buffers (hknown _ hmem) (hb.share_le hmem)
      (fun hkeeps => (hb.keeps hmem hkeeps).1) ho⟩
  · obtain ⟨hm, hp', st, -, hes⟩ := txOp_waiter (fun k pos he => hon ⟨k, pos, he⟩) ho
    refine .inr ⟨fun b e => ?_, hp', hm⟩
    rcases hes with rfl | ⟨rfl, -⟩ <;> simp

theorem called_of_keeps (hb : BufBalanced s h) {p : TxPc} (hp : p ∈ s.pcs) {b : Nat}
    (hkeeps : 0 < p.lift (TxPos.bufKeeps b)) :
    h.count (.buf b .submitted) = h.count (.buf b .called) := by
  have hzero := (hb.keeps hp hkeeps).1
  have hframes := hb (.frames b)
  have hflying := hb (.flying b)
  have hnonneg := tally_nonneg (w := TxPc.lift (TxPos.bufCallback b))
    (fun q => (bufCallback_le_share b q).1) s.pcs
  have hle := tally_le_tally (fun q => (bufCallback_le_share b q).2) s.pcs
  simp only [BufAccount.value, BufAccount.part, TxMem.onRingBuf] at hframes hflying
  omega

/-- The sender's correction after a refused frame leaves some accepted frame of the batch to call
back. -/
def correctsInTime (s : Sys TxMem TxPc) : Move TxStart Bool → Bool
  | .run i _ =>
    match s.pcs[i]? with
    | some (.on _ (.subBatch b unsub j)) => j == 0 || decide ((unsub : Int) < s.mem.pendingBuf b)
    | _ => true
  | .start _ => true

def TxQuiet (s : Sys TxMem TxPc) : Prop := s.mem.ring = [] ∧ ∀ p ∈ s.pcs, ∀ k pos, p ≠ .on k pos

theorem tally_lift_quiet (hq : TxQuiet s) (w : TxPos → Int) : tally (TxPc.lift w) s.pcs = 0 := by
  refine tally_eq_zero _ fun p hp => ?_
  cases p with
  | on k pos => exact absurd rfl (hq.2 _ hp k pos)
  | waitTx st | returned => rfl

theorem put_after_callbacks (hr : Reaches txProg.step ok ⟨.init, []⟩ s h) {b : Nat}
    {u v : List TxEvent} (hsplit : h = u ++ .buf b .put :: v) :
    u.count (.buf b .submitted) = u.count (.buf b .called) := by
  refine hr.before (.buf b .put)
    (fun u => u.count (.buf b .submitted) = u.count (.buf b .called)) ?_ u v hsplit
  intro s h a s' es hr _ hs u v hes
  have hmem : .buf b .put ∈ es := by simp [hes]
  cases a with
  | start x =>
    obtain ⟨m, o, hx, -⟩ := step_start.mp hs
    rw [(txStart_buffers hx).1] at hmem
    contradiction
  | run i x =>
    obtain ⟨p, m, p', hp, ho, -⟩ := step_run.mp hs
    rcases step_buffers hr hp ho with ⟨k, pos, rfl, hstep⟩ | ⟨hnone, -⟩
    · obtain ⟨hkeeps, hone⟩ := (hstep b).back hmem
      obtain rfl := eq_nil_of_only hone hes
      rw [List.append_nil]
      exact called_of_keeps (bufBalanced hr).1 (List.mem_of_getElem? hp)
        (by rw [TxPc.lift_on, hkeeps]; omega)
    · exact absurd hmem (hnone b .put)

section InTime
variable (hr : Reaches txProg.step (fun s _ a => correctsInTime s a = true) ⟨.init, []⟩ s h)
include hr

theorem lost_count (b : Nat) : h.count (.buf b .lost) = 0 := by
  refine hr.invariant (fun _ h => h.count (.buf b .lost) = 0) rfl ?_
  intro s h a s' es hr hI hok hs
  rw [List.count_append, hI, Nat.zero_add, List.count_eq_zero]
  cases a with
  | start x =>
    obtain ⟨m, o, hx, -⟩ := step_start.mp hs
    simp [(txStart_buffers hx).1]
  | run i x =>
    obtain ⟨p, m, p', hp, ho, -⟩ := step_run.mp hs
    rcases step_buffers hr hp ho with ⟨k, pos, rfl, hstep⟩ | ⟨hnone, -⟩
    · intro hlost
      obtain ⟨unsub, j, rfl, hj, hpend⟩ := (hstep b).lost hlost
      simp [correctsInTime, hp, hj, hpend] at hok
    · exact hnone b .lost

/-- In every run in which no correction comes too late, buffers are neither lost nor duplicated. -/
theorem batch_buffers_conserved :
    (∀ b, s.mem.freeList.count b ≤ 1) ∧
    (∀ b < batchBufCount, h.count (.buf b .took) =
      h.count (.buf b .put) + if b ∈ s.mem.freeList then 0 else 1) ∧
    (∀ b u v, h = u ++ .buf b .put :: v →
      u.count (.buf b .submitted) = u.count (.buf b .called)) ∧
    (TxQuiet s → s.mem.freeList.Perm (List.range 32) ∧ s.mem.freeCount = 32) := by
  obtain ⟨hb, -⟩ := bufBalanced hr
  have hplace : ∀ b, s.mem.freeList.count b + busy (s.mem.pendingBuf b) +
      tally (TxPc.lift (TxPos.bufKeeps b)) s.pcs = if b < batchBufCount then 1 else 0 := by
    intro b
    have hholder := hb (.holder b)
    rw [BufAccount.value, BufAccount.part, lost_count hr b] at hholder
    omega
  have hnonneg (b : Nat) := tally_nonneg (bufKeeps_nonneg b) s.pcs
  have hone : ∀ b, s.mem.freeList.count b ≤ 1 := by
    intro b
    have hb := hplace b
    have hn := hnonneg b
    unfold busy at hb
    split at hb <;> split at hb <;> omega
  refine ⟨hone, fun b hlt => ?_, fun b u v hsplit => ?_, fun hq => ?_⟩
  · have hlisted := hb (.listed b)
    have hle := hone b
    have hzero : tally (BufAccount.listed b).part s.pcs = 0 := tally_eq_zero _ fun _ _ => rfl
    rw [hzero, BufAccount.value, if_pos hlt] at hlisted
    split
    · have hpos := List.count_pos_iff.mpr ‹b ∈ s.mem.freeList›
      omega
    · have hnone := List.count_eq_zero.mpr ‹b ∉ s.mem.freeList›
      omega
  · exact put_after_callbacks hr hsplit
  · have hcount : ∀ b, s.mem.freeList.count b = (List.range 32).count b := by
      intro b
      have hplace := hplace b
      have hframes := hb (.frames b)
      rw [BufAccount.value, BufAccount.part, tally_lift_quiet hq, TxMem.onRingBuf, hq.1] at hframes
      rw [tally_lift_quiet hq, busy_of_nonpos (by simp at hframes; omega)] at hplace
      rw [List.nodup_range.count]
      simp only [List.mem_range]
      unfold batchBufCount at hplace
      split at hplace <;> simp_all
    have hperm := List.perm_iff_count.mpr hcount
    have hlength := hb .length
    have hzero : tally BufAccount.length.part s.pcs = 0 := tally_eq_zero _ fun _ _ => rfl
    rw [hzero, BufAccount.value, hperm.length_eq, List.length_range] at hlength
    exact ⟨hperm, by omega⟩

end InTime

def twoFrames : List (Move TxStart Bool) :=
  .start (.send 0 0 .throughput 2) :: List.replicate 10 (.run 0 true)

def firstFrame : List (Move TxStart Bool) :=
  .start (.complete 0 false) :: List.replicate 3 (.run 1 true)

def refusedFrame : List (Move TxStart Bool) := .run 0 false :: List.replicate 14 (.run 0 true)

/-- The first frame has called back when the second is refused: the counter reaches zero by the
sender's correction and the buffer is never put back. -/
theorem late_correction_loses_buffer : ∃ s h,
    Reaches txProg.step (fun _ _ _ => True) ⟨.init, []⟩ s h ∧ s.mem.ring = [] ∧
      (∀ p ∈ s.pcs, p = .returned) ∧ h.count (.buf 0 .took) = 1 ∧ h.count (.buf 0 .put) = 0 ∧
      s.mem.freeCount = 31 :=
  ⟨_, _, .of_free (twoFrames ++ firstFrame ++ refusedFrame) (by decide +kernel), by decide +kernel⟩

def earlyCorrection : List (Move TxStart Bool) :=
  twoFrames ++ .run 0 false :: List.replicate 8 (.run 0 true) ++
    .start (.complete 0 false) :: List.replicate 12 (.run 1 true)

theorem earlyCorrection_runs : (run txProg.step (fun s _ a => correctsInTime s a) ⟨.init, []⟩ []
    earlyCorrection).isSome = true := by
  decide +kernel

theorem batch_buffers_conserved_earlyCorrection : ∃ s h,
    Reaches txProg.step (fun s _ a => correctsInTime s a = true) ⟨.init, []⟩ s h ∧
      h.count (.buf 0 .took) = 1 ∧ s.mem.freeList.Perm (List.range 32) ∧ s.mem.freeCount = 32 := by
  have hr : Reaches txProg.step (fun s _ a => correctsInTime s a = true) ⟨.init, []⟩ _ _ :=
    .of_final _ (fun _ _ _ hc => hc) earlyCorrection_runs
  have hquiet : TxQuiet (final txProg.step (fun s _ a => correctsInTime s a) ⟨.init, []⟩
      earlyCorrection earlyCorrection_runs).1 := by
    refine ⟨by decide +kernel, fun p hp k pos he => ?_⟩
    have hall : ∀ p ∈ (final txProg.step (fun s _ a => correctsInTime s a) ⟨.init, []⟩
      earlyCorrection earlyCorrection_runs).1.pcs, p = .returned := by decide +kernel
    cases (hall p hp).symm.trans he
  exact ⟨_, _, hr, by decide +kernel, (batch_buffers_conserved hr).2.2.2 hquiet⟩

end Runs

end OdinLink
