import OdinLink.Driver.SlotUsers

/-!
# No slot is lost, none is held twice

Taking a slot and putting it back change the pool; everything else only moves a slot from a user to
a ring or back. So what was taken and not put back is what the users and the rings hold.
-/

namespace OdinLink

open Threads History

section Pool

inductive PoolChange (p : FramePool) : List SlotEvent → FramePool → Prop where
  | same : PoolChange p [] p
  | took {slot : Nat} {p' : FramePool} : framePoolGet p = some (slot, p') →
      PoolChange p [.took slot] p'
  | put (slot : Nat) : PoolChange p [.put slot] (framePoolPut p slot)

theorem findFirstZeroBit_some {bitmap : Nat → Bool} {i n idx : Nat}
    (hf : findFirstZeroBit bitmap i n = some idx) : bitmap idx = false ∧ idx < i + n := by
  induction n generalizing i with
  | zero => simp [findFirstZeroBit] at hf
  | succ n ih =>
    rw [findFirstZeroBit] at hf
    split at hf
    · obtain ⟨hbit, hlt⟩ := ih hf
      exact ⟨hbit, by omega⟩
    · rename_i hbit
      cases hf
      exact ⟨by simpa using hbit, by omega⟩

theorem framePoolGet_some {p p' : FramePool} {slot : Nat}
    (hg : framePoolGet p = some (slot, p')) :
    p.bitmap slot = false ∧ slot < p.size ∧
      p' = {p with bitmap := fun i => i == slot || p.bitmap i, freeCount := p.freeCount - 1} := by
  simp only [framePoolGet, Option.map_eq_some_iff, Prod.mk.injEq] at hg
  obtain ⟨idx, hf, rfl, rfl⟩ := hg
  obtain ⟨hbit, hlt⟩ := findFirstZeroBit_some hf
  exact ⟨hbit, by omega, rfl⟩

def zeroBits (p : FramePool) : Nat := (List.range p.size).countP fun i => !p.bitmap i

theorem countP_set_bit {bitmap : Nat → Bool} {slot n : Nat} (hbit : bitmap slot = false) :
    ((List.range n).countP fun i => !(i == slot || bitmap i)) + (if slot < n then 1 else 0) =
      (List.range n).countP fun i => !bitmap i := by
  induction n with
  | zero => simp
  | succ n ih =>
    simp only [List.range_succ, List.countP_append, List.countP_singleton]
    by_cases hn : n = slot
    · subst hn
      simp [hbit] at ih ⊢
      omega
    · have hne : (n == slot) = false := by simpa using hn
      have hlt : slot < n + 1 ↔ slot < n := by omega
      simp only [hne, Bool.false_or, hlt]
      omega

theorem zeroBits_get {p p' : FramePool} {slot : Nat} (hg : framePoolGet p = some (slot, p')) :
    zeroBits p' + 1 = zeroBits p := by
  obtain ⟨hbit, hlt, rfl⟩ := framePoolGet_some hg
  have hset := countP_set_bit (n := p.size) hbit
  rw [if_pos hlt] at hset
  exact hset

theorem zeroBits_put {p : FramePool} {slot : Nat} (hbit : p.bitmap slot = true)
    (hlt : slot < p.size) : zeroBits (framePoolPut p slot) = zeroBits p + 1 := by
  have hset := countP_set_bit (n := p.size)
    (by simp [framePoolPut] : (framePoolPut p slot).bitmap slot = false)
  have hback : (fun i => !(i == slot || (framePoolPut p slot).bitmap i)) =
      fun i => !p.bitmap i := by
    funext i
    by_cases hi : i = slot
    · simp [hi, hbit]
    · have hne : (i == slot) = false := by simpa using hi
      simp [framePoolPut, bne, hne]
  rw [if_pos hlt, hback] at hset
  exact hset.symm

end Pool

section Custody

def RepostPc.slot : RepostPc → Option Nat
  | .submit _ _ slot | .putBack slot => some slot
  | _ => none

def SlotUser.slot : SlotUser → Option Nat
  | .latency (.copy _ slot) | .latency (.submit _ slot) | .latency (.putBack slot)
  | .dmaMsg (.submit slot) | .dmaMsg (.putBack slot)
  | .txCallback slot | .rxCallback slot _ | .rxPut slot _ => some slot
  | .repost pc | .rxRepost pc => pc.slot
  | _ => none

def SlotUser.holds (i : Nat) (u : SlotUser) : Int := if u.slot = some i then 1 else 0

def PoolMem.onRings (m : PoolMem) (i : Nat) : Int := m.tx.frames.count i + m.rx.frames.count i

def outstanding (h : List SlotEvent) (i : Nat) : Int :=
  (h.count (.took i) : Int) - h.count (.put i)

theorem outstanding_append (h es : List SlotEvent) (i : Nat) :
    outstanding (h ++ es) i = outstanding h i + outstanding es i := by
  simp only [outstanding, List.count_append]
  omega

variable {m m' : PoolMem} {slot : Nat}

theorem get_change (hg : m.get = some (slot, m')) :
    PoolChange m.pool [.took slot] m'.pool ∧ ∀ i, m'.onRings i = m.onRings i := by
  simp only [PoolMem.get, Option.map_eq_some_iff, Prod.mk.injEq, Prod.exists] at hg
  obtain ⟨idx, p', hg, rfl, rfl⟩ := hg
  exact ⟨.took hg, fun i => rfl⟩

theorem put_change (m : PoolMem) (slot : Nat) :
    PoolChange m.pool [.put slot] (m.put slot).pool ∧ ∀ i, (m.put slot).onRings i = m.onRings i :=
  ⟨.put slot, fun _ => rfl⟩

theorem enqueue_change {side : RingSide} {ok : Bool} (he : m.enqueue side slot ok = some m') :
    m'.pool = m.pool ∧ ∀ i, m'.onRings i = m.onRings i + if some slot = some i then 1 else 0 := by
  rw [PoolMem.enqueue] at he
  split at he
  · cases he
    refine ⟨by cases side <;> rfl, fun i => ?_⟩
    cases side <;>
      simp only [PoolMem.onRings, PoolMem.setRing, PoolMem.ring, List.count_append,
        List.count_singleton, Option.some.injEq, beq_iff_eq] <;>
      split <;> omega
  · contradiction

structure Handover (m : PoolMem) (u : SlotUser) (m' : PoolMem) (u' : SlotUser)
    (es : List SlotEvent) : Prop where
  pool : PoolChange m.pool es m'.pool
  custody : ∀ i, m'.onRings i + u'.holds i = m.onRings i + u.holds i + outstanding es i
  own : ∀ slot, .put slot ∈ es → u.slot = some slot

section Ops
variable {u u' : SlotUser} {ok : Bool} {es : List SlotEvent}

theorem Handover.idle (hslot : u'.slot = u.slot := by rfl) (hpool : m'.pool = m.pool := by rfl)
    (htx : m'.tx = m.tx := by rfl) (hrx : m'.rx = m.rx := by rfl) : Handover m u m' u' [] where
  pool := hpool ▸ .same
  custody i := by simp [PoolMem.onRings, SlotUser.holds, htx, hrx, hslot, outstanding]
  own slot hmem := by simp at hmem

theorem Handover.get (hg : m.get = some (slot, m')) (hu : u.slot = none)
    (hu' : u'.slot = some slot) : Handover m u m' u' [.took slot] where
  pool := (get_change hg).1
  custody i := by
    simp only [(get_change hg).2 i, SlotUser.holds, hu, hu', outstanding,
      List.count_cons, List.count_nil, Option.some.injEq, beq_iff_eq, SlotEvent.took.injEq,
      reduceCtorEq, if_false]
    split <;> simp
  own slot hmem := by simp at hmem

theorem Handover.put (hu : u.slot = some slot) (hu' : u'.slot = none) :
    Handover m u (m.put slot) u' [.put slot] where
  pool := (put_change m slot).1
  custody i := by
    simp only [(put_change m slot).2 i, SlotUser.holds, hu, hu', outstanding,
      List.count_cons, List.count_nil, Option.some.injEq, beq_iff_eq, SlotEvent.put.injEq,
      reduceCtorEq, if_false]
    split <;> simp
  own slot' hmem := by simpa [hu, eq_comm] using hmem

theorem Handover.enqueue {side : RingSide} (he : m.enqueue side slot ok = some m')
    (hu : u.slot = some slot) (hu' : u'.slot = none) : Handover m u m' u' [] where
  pool := (enqueue_change he).1 ▸ .same
  custody i := by
    simp only [(enqueue_change he).2 i, SlotUser.holds, hu, hu', outstanding, List.count_nil,
      reduceCtorEq, if_false]
    omega
  own slot hmem := by simp at hmem

theorem latencyOp_handover {pc : LatencyPc} (ho : latencyOp m ok pc = some (m', u', es)) :
    Handover m (.latency pc) m' u' es := by
  cases pc with
  | wait left =>
    cases left with
    | zero =>
      cases ho
      exact .idle
    | succ left =>
      rw [latencyOp] at ho
      split at ho
      · cases ho
        exact .idle
      · split at ho <;> cases ho
        exact .idle
  | get left =>
    rw [latencyOp] at ho
    split at ho
    · cases ho
      exact .idle
    · rename_i slot m₁ hg
      cases ho
      exact .get hg rfl rfl
  | copy left slot =>
    rw [latencyOp] at ho
    split at ho <;> cases ho <;> exact .idle
  | submit left slot =>
    rw [latencyOp] at ho
    split at ho
    · cases ho
      exact .idle
    · rename_i m₁ he
      cases ho
      exact .enqueue he rfl rfl
  | putBack slot =>
    cases ho
    exact .put rfl rfl

theorem dmaMsgOp_handover {pc : DmaMsgPc} (ho : dmaMsgOp m ok pc = some (m', u', es)) :
    Handover m (.dmaMsg pc) m' u' es := by
  cases pc with
  | get =>
    rw [dmaMsgOp] at ho
    split at ho
    · cases ho
      exact .idle
    · rename_i slot m₁ hg
      cases ho
      exact .get hg rfl rfl
  | submit slot =>
    rw [dmaMsgOp] at ho
    split at ho
    · cases ho
      exact .idle
    · rename_i m₁ he
      cases ho
      exact .enqueue he rfl rfl
  | putBack slot =>
    cases ho
    exact .put rfl rfl

theorem repostOp_handover (wrap : RepostPc → SlotUser) (hwrap : ∀ pc, (wrap pc).slot = pc.slot)
    (pc : RepostPc) {o : Option RepostPc} (ho : repostOp m ok pc = (m', o, es)) :
    Handover m (wrap pc) m' ((o.map wrap).getD .returned) es := by
  have hkeep (pc' : RepostPc) (he : pc'.slot = pc.slot) : (wrap pc').slot = (wrap pc).slot := by
    rw [hwrap, hwrap, he]
  cases pc with
  | begin =>
    cases ho
    exact .idle (hkeep _ rfl)
  | get posted target =>
    rw [repostOp] at ho
    split at ho
    · split at ho
      · cases ho
        exact .idle (hwrap (.get posted target)).symm
      · rename_i slot m₁ hg
        cases ho
        exact .get hg (hwrap _) (hwrap _)
    · cases ho
      exact .idle (hwrap (.get posted target)).symm
  | submit posted target slot =>
    rw [repostOp] at ho
    split at ho
    · cases ho
      exact .idle (hkeep _ rfl)
    · rename_i m₁ he
      cases ho
      exact .enqueue he (hwrap _) (hwrap _)
  | count posted target =>
    cases ho
    exact .idle (hkeep _ rfl)
  | putBack slot =>
    cases ho
    exact .put (hwrap _) rfl

theorem slotOp_handover (ho : slotOp m u ok = some (m', u', es)) : Handover m u m' u' es := by
  cases u with
  | latency pc => exact latencyOp_handover ho
  | dmaMsg pc => exact dmaMsgOp_handover ho
  | repost pc =>
    cases ho
    exact repostOp_handover .repost (fun _ => rfl) pc rfl
  | txCallback slot =>
    cases ho
    exact .put rfl rfl
  | rxCallback slot kind =>
    cases ho
    exact .idle
  | rxPut slot kind =>
    cases ho
    exact .put rfl (by split <;> rfl)
  | rxRepost pc =>
    cases ho
    exact repostOp_handover .rxRepost (fun _ => rfl) pc rfl
  | returned => cases ho

theorem count_eraseIdx {l : List Nat} {k slot : Nat} (hk : l[k]? = some slot) (i : Nat) :
    ((l.eraseIdx k).count i : Int) + (if some slot = some i then 1 else 0) = l.count i := by
  have hcount := countP_eraseIdx hk (· == i)
  simp only [beq_iff_eq, ← List.count_eq_countP] at hcount
  simpa only [Option.some.injEq] using hcount

theorem slotStart_handover {x : PoolStart} {o : Option SlotUser}
    (hx : slotStart m x = some (m', o, es)) :
    es = [] ∧ m'.pool = m.pool ∧
      ∀ i, m'.onRings i + (o.map (SlotUser.holds i)).getD 0 = m.onRings i := by
  cases x with
  | send nframes | dmaMsg | repost | setTarget target | clearPosted =>
    cases hx
    exact ⟨rfl, rfl, fun i => by simp [SlotUser.holds, SlotUser.slot,
      RepostPc.slot, PoolMem.onRings]⟩
  | txComplete k =>
    simp only [slotStart, Option.map_eq_some_iff, Prod.mk.injEq] at hx
    obtain ⟨slot, hk, rfl, rfl, rfl⟩ := hx
    refine ⟨rfl, rfl, fun i => ?_⟩
    have hcount := count_eraseIdx hk i
    have hholds : SlotUser.holds i (.txCallback slot) = if some slot = some i then 1 else 0 := rfl
    simp only [PoolMem.onRings, Option.map_some, Option.getD_some, hholds]
    omega
  | rxComplete k kind =>
    simp only [slotStart, Option.map_eq_some_iff, Prod.mk.injEq] at hx
    obtain ⟨slot, hk, rfl, rfl, rfl⟩ := hx
    refine ⟨rfl, rfl, fun i => ?_⟩
    have hcount := count_eraseIdx hk i
    have hholds : SlotUser.holds i (.rxCallback slot kind) = if some slot = some i then 1 else 0 := rfl
    simp only [PoolMem.onRings, Option.map_some, Option.getD_some, hholds]
    omega
  | setRunning side running =>
    cases hx
    exact ⟨rfl, by cases side <;> rfl, fun i => by cases side <;> simp [PoolMem.onRings,
      PoolMem.setRing, PoolMem.ring]⟩

end Ops

end Custody

section Runs
variable {s : Sys PoolMem SlotUser} {h : List SlotEvent}

def PoolReaches (s : Sys PoolMem SlotUser) (h : List SlotEvent) : Prop :=
  Reaches slotProg.step (fun _ _ _ => True) ⟨.init, []⟩ s h

theorem outstanding_eq (hr : PoolReaches s h) (i : Nat) :
    outstanding h i = s.mem.onRings i + tally (SlotUser.holds i) s.pcs := by
  have hc := conserved (fun m h => outstanding h i - m.onRings i) (SlotUser.holds i) rfl ?_ ?_ hr
  · omega
  · intro s h x m o es _ _ hx
    obtain ⟨rfl, -, hrings⟩ := slotStart_handover hx
    have hi := hrings i
    rw [List.append_nil]
    omega
  · intro s h k x u m u' es _ _ _ _ ho
    have hi := (slotOp_handover ho).custody i
    rw [outstanding_append]
    omega

theorem holds_nonneg (i : Nat) (u : SlotUser) : 0 ≤ u.holds i := by
  rw [SlotUser.holds]
  split <;> omega

theorem onRings_nonneg (m : PoolMem) (i : Nat) : 0 ≤ m.onRings i := by
  rw [PoolMem.onRings]
  omega

structure PoolRecord (p : FramePool) (h : List SlotEvent) : Prop where
  size : p.size = framePoolSize
  bit : ∀ i, outstanding h i = if p.bitmap i then 1 else 0
  inside : ∀ i, p.bitmap i = true → i < p.size
  free : p.freeCount = zeroBits p

theorem PoolRecord.change {p p' : FramePool} {es : List SlotEvent} (hp : PoolRecord p h)
    (hc : PoolChange p es p') (hput : ∀ slot, .put slot ∈ es → 1 ≤ outstanding h slot) :
    PoolRecord p' (h ++ es) := by
  cases hc with
  | same => simpa using hp
  | @took slot _ hg =>
    have hzero := zeroBits_get hg
    obtain ⟨hbit, hlt, rfl⟩ := framePoolGet_some hg
    refine ⟨hp.size, fun i => ?_, fun i hi => ?_, ?_⟩
    · rw [outstanding_append, hp.bit i]
      by_cases hi : slot = i
      · subst hi
        simp [outstanding, hbit]
      · have hne : (i == slot) = false := by simpa using Ne.symm hi
        simp [outstanding, hne, hi]
    · by_cases he : i = slot
      · exact he ▸ hlt
      · exact hp.inside i (by simpa [he] using hi)
    · have hfree := hp.free
      simp only
      omega
  | put slot =>
    have hset : p.bitmap slot = true := by
      have hout := hput slot (by simp)
      rw [hp.bit slot] at hout
      by_contra hclear
      rw [if_neg hclear] at hout
      omega
    refine ⟨hp.size, fun i => ?_, fun i hi => ?_, ?_⟩
    · rw [outstanding_append, hp.bit i]
      by_cases hi : slot = i
      · subst hi
        simp [outstanding, hset, framePoolPut]
      · have hne : (i == slot) = false := by simpa using Ne.symm hi
        simp [outstanding, framePoolPut, bne, hne, hi]
    · rw [framePoolPut, Bool.and_eq_true] at hi
      exact hp.inside i hi.2
    · rw [zeroBits_put hset (hp.inside slot hset)]
      simp [framePoolPut, hp.free]

theorem poolRecord (hr : PoolReaches s h) : PoolRecord s.mem.pool h := by
  refine hr.invariant (fun s h => PoolRecord s.mem.pool h) ?_ ?_
  · exact ⟨rfl, fun i => rfl, fun i hi => by simp [PoolMem.init] at hi,
      by simp [PoolMem.init, zeroBits]⟩
  · intro s h a s' es hr hI _ hs
    cases a with
    | start x =>
      obtain ⟨m, o, hx, rfl⟩ := step_start.mp hs
      obtain ⟨rfl, hpool, -⟩ := slotStart_handover hx
      simpa [hpool] using hI
    | run k x =>
      obtain ⟨u, m, u', hu, ho, rfl⟩ := step_run.mp hs
      have hh := slotOp_handover ho
      refine hI.change hh.pool fun slot hmem => ?_
      -- the user that puts a slot back had it in hand, so it was taken
      have hown : u.holds slot = 1 := if_pos (hh.own slot hmem)
      have hle := le_tally (holds_nonneg slot) (List.mem_of_getElem? hu)
      have hnonneg := onRings_nonneg s.mem slot
      rw [outstanding_eq hr]
      omega

def SlotUser.inCallback : SlotUser → RingSide → Bool
  | .txCallback _, .tx | .rxCallback _ _, .rx | .rxPut _ _, .rx | .rxRepost _, .rx => true
  | _, _ => false

/-- `tb_ring_stop` was called and has returned: no frame is left on the ring and no callback of
the ring runs. -/
def ringStopped (s : Sys PoolMem SlotUser) (side : RingSide) : Bool :=
  !(s.mem.ring side).running && (s.mem.ring side).frames.isEmpty &&
    s.pcs.all fun u => !u.inCallback side

def SlotUser.sending : SlotUser → Bool
  | .latency _ | .dmaMsg _ => true
  | _ => false

def SlotUser.reposting : SlotUser → Bool
  | .repost _ => true
  | _ => false

def holders (s : Sys PoolMem SlotUser) (i : Nat) : Nat :=
  s.mem.tx.frames.count i + s.mem.rx.frames.count i + s.pcs.countP fun u => u.slot == some i

theorem tally_holds (ps : List SlotUser) (i : Nat) :
    tally (SlotUser.holds i) ps = ps.countP fun u => u.slot == some i := by
  induction ps with
  | nil => rfl
  | cons u ps ih =>
    rw [tally_cons, ih, List.countP_cons, SlotUser.holds]
    by_cases hu : u.slot = some i
    · simp [hu]
      omega
    · simp [hu]

theorem holders_eq (hr : PoolReaches s h) (i : Nat) :
    holders s i = if s.mem.pool.bitmap i then 1 else 0 := by
  have hout := (outstanding_eq hr i).symm.trans ((poolRecord hr).bit i)
  rw [tally_holds, PoolMem.onRings] at hout
  rw [holders]
  cases hb : s.mem.pool.bitmap i <;>
    simp only [hb, Bool.false_eq_true, if_true, if_false] at hout ⊢ <;> omega

theorem slot_eq_none {u : SlotUser} (htx : u.inCallback .tx = false)
    (hrx : u.inCallback .rx = false) (hsend : u.sending = false) (hrepost : u.reposting = false) :
    u.slot = none := by
  cases u <;> first | rfl | contradiction

theorem holders_eq_zero (htx : ringStopped s .tx = true) (hrx : ringStopped s .rx = true)
    (hidle : ∀ u ∈ s.pcs, u.sending = false ∧ u.reposting = false) (i : Nat) :
    holders s i = 0 := by
  simp only [ringStopped, PoolMem.ring, Bool.and_eq_true, List.isEmpty_iff, List.all_eq_true,
    Bool.not_eq_true'] at htx hrx
  have husers : s.pcs.countP (fun u => u.slot == some i) = 0 := by
    rw [List.countP_eq_zero]
    intro u hu
    obtain ⟨hsend, hrepost⟩ := hidle u hu
    simp [slot_eq_none (htx.2 u hu) (hrx.2 u hu) hsend hrepost]
  rw [holders, htx.1.2, hrx.1.2, husers]
  rfl

/-- No slot is lost and none is held twice, whatever the users of the pool do. -/
theorem frame_pool_conserved (hr : PoolReaches s h) :
    s.mem.pool.freeCount = zeroBits s.mem.pool ∧
    (∀ i, holders s i ≤ 1) ∧
    (∀ i, s.mem.pool.bitmap i = false ↔ holders s i = 0) ∧
    (∀ i, h.count (.took i) = h.count (.put i) + holders s i) ∧
    (ringStopped s .tx = true → ringStopped s .rx = true →
      (∀ u ∈ s.pcs, u.sending = false ∧ u.reposting = false) →
      s.mem.pool.freeCount = 4096 ∧ ∀ i, s.mem.pool.bitmap i = false) := by
  have hp := poolRecord hr
  have hholders := holders_eq hr
  have hfree : ∀ i, s.mem.pool.bitmap i = false ↔ holders s i = 0 := by
    intro i
    rw [hholders i]
    cases s.mem.pool.bitmap i <;> simp
  refine ⟨hp.free, fun i => ?_, hfree, fun i => ?_, fun htx hrx hidle => ?_⟩
  · rw [hholders i]
    split <;> omega
  · have hbit := hp.bit i
    rw [outstanding] at hbit
    rw [hholders i]
    cases hb : s.mem.pool.bitmap i <;>
      simp only [hb, Bool.false_eq_true, if_true, if_false] at hbit ⊢ <;> omega
  · have hall : ∀ i, s.mem.pool.bitmap i = false :=
      fun i => (hfree i).mpr (holders_eq_zero htx hrx hidle i)
    refine ⟨?_, hall⟩
    rw [hp.free, zeroBits, hp.size]
    simp [hall, framePoolSize]

/-- The opening of a stream reposts with half of the pool as its target, and the ring is stopped
while it has taken its first slot. -/
def repostAtStop : List (Move PoolStart Bool) :=
  [.start (.setRunning .rx true), .start (.setTarget 2048), .start .repost, .run 0 true, .run 0 true,
    .start (.setRunning .rx false)]

theorem repost_keeps_slot : ∃ s h, PoolReaches s h ∧ ringStopped s .tx = true ∧
    ringStopped s .rx = true ∧ (∀ u ∈ s.pcs, u.sending = false) ∧
    s.mem.pool.bitmap 0 = true ∧ s.mem.pool.freeCount = 4095 :=
  ⟨_, _, .of_free repostAtStop (by decide +kernel), by decide +kernel⟩

def refusedSend : List (Move PoolStart Bool) :=
  [.start (.setRunning .tx true), .start (.send 2), .run 0 true, .run 0 true, .run 0 true, .run 0 true,
    .run 0 true, .run 0 true, .run 0 true, .run 0 false, .run 0 true, .start (.setRunning .tx false),
    .start (.txComplete 0), .run 1 true]

theorem frame_pool_conserved_refusedSend : ∃ s h, PoolReaches s h ∧
    h = [.took 0, .took 1, .put 1, .put 0] ∧ s.mem.pool.freeCount = 4096 ∧
    ∀ i, s.mem.pool.bitmap i = false := by
  have hr : PoolReaches _ _ := .of_free refusedSend (by decide +kernel)
  have hfree := (frame_pool_conserved hr).2.2.2.2 (by decide +kernel) (by decide +kernel)
    (by decide +kernel)
  exact ⟨_, _, hr, by decide +kernel, hfree⟩

end Runs

end OdinLink
