import OdinLink.Driver.SlotConservation

/-!
# The receive share of the frame pool

The repost loop works from a copy of the posted counter, and the verify work sets the counter to 0
at its end.
-/

namespace OdinLink

open Threads History

def rxShare : Nat := framePoolSize / 2

def SlotUser.refill : SlotUser → Option RepostPc
  | .repost pc | .rxRepost pc => some pc
  | _ => none

def RepostPc.uncounted : RepostPc → Int
  | .count _ _ => 1
  | _ => 0

/-- The frames on the ring that are not counted yet, less those called back that still are. -/
def SlotUser.uncounted : SlotUser → Int
  | .repost pc | .rxRepost pc => pc.uncounted
  | .rxCallback _ _ => -1
  | _ => 0

def PoolMem.surplus (m : PoolMem) : Int := m.rx.frames.length - m.rxPosted

def PoolMem.rxSide (m : PoolMem) : SlotRing × Int × Int := (m.rx, m.rxPosted, m.rxTarget)

def repostsAlone (s : Sys PoolMem SlotUser) : Move PoolStart Bool → Bool
  | .start .repost => s.pcs.all fun u => u.refill.isNone
  | .start .clearPosted => s.mem.rx.frames.isEmpty && s.pcs.all fun u => u.uncounted == 0
  | .start (.setTarget target) => target == 0 || target == rxShare
  | .start _ => true
  | .run i _ =>
    match s.pcs[i]? with
    | some (.rxPut _ kind) => !kind.reposts || s.pcs.all fun u => u.refill.isNone
    | _ => true

def RepostPc.InShare (m : PoolMem) : RepostPc → Prop
  | .get posted target => m.rx.frames.length ≤ posted ∧ target ≤ rxShare
  | .submit posted target _ => m.rx.frames.length ≤ posted ∧ posted < target ∧ target ≤ rxShare
  | .count posted target => m.rx.frames.length ≤ posted + 1 ∧ target ≤ rxShare
  | .begin | .putBack _ => True

def SlotUser.InShare (m : PoolMem) (u : SlotUser) : Prop := ∀ pc ∈ u.refill, pc.InShare m

structure ShareStep (m : PoolMem) (u : SlotUser) (m' : PoolMem) (u' : SlotUser) : Prop where
  counted : m'.surplus + u.uncounted = m.surplus + u'.uncounted
  target : m'.rxTarget = m.rxTarget
  own : u'.InShare m'
  ring : m'.rx.frames.length ≤ m.rx.frames.length ∨
    u.refill.isSome = true ∧ m'.rx.frames.length ≤ rxShare

section Ops
variable {m m' : PoolMem} {u u' : SlotUser} {ok : Bool} {es : List SlotEvent} {slot : Nat}

theorem SlotUser.InShare.mono (hu : u.InShare m)
    (hle : m'.rx.frames.length ≤ m.rx.frames.length) : u.InShare m' := by
  intro pc hpc
  have hold := hu pc hpc
  cases pc with
  | begin | putBack slot => trivial
  | get posted target | submit posted target slot | count posted target =>
    exact ⟨by have := hold.1; omega, hold.2⟩

theorem inShare_of_none (hu : u.refill = none) : u.InShare m := by
  simp [SlotUser.InShare, hu]

theorem uncounted_nonpos (hu : u.refill = none ∨ u.refill = some .begin) : u.uncounted ≤ 0 := by
  cases u with
  | repost pc | rxRepost pc =>
    obtain rfl : pc = .begin := by simpa [SlotUser.refill] using hu
    exact Int.le_refl 0
  | _ => simp [SlotUser.uncounted]

theorem ShareStep.aside (hrx : m'.rxSide = m.rxSide) (hun : u.uncounted = u'.uncounted)
    (hown : u'.InShare m') : ShareStep m u m' u' := by
  simp only [PoolMem.rxSide, Prod.mk.injEq] at hrx
  obtain ⟨hring, hposted, htarget⟩ := hrx
  exact ⟨by rw [PoolMem.surplus, PoolMem.surplus, hring, hposted, hun], htarget, hown,
    .inl (by rw [hring])⟩

theorem get_rx (hg : m.get = some (slot, m')) : m'.rxSide = m.rxSide := by
  obtain ⟨r, -, heq⟩ := Option.map_eq_some_iff.mp hg
  cases heq
  rfl

theorem enqueue_tx (he : m.enqueue .tx slot ok = some m') : m'.rxSide = m.rxSide := by
  rw [PoolMem.enqueue] at he
  split at he <;> cases he
  rfl

theorem repostOp_share (wrap : RepostPc → SlotUser) (hrefill : ∀ pc, (wrap pc).refill = some pc)
    (hun : ∀ pc, (wrap pc).uncounted = pc.uncounted) {pc : RepostPc} {o : Option RepostPc}
    (hk : pc.InShare m) (hbegin : pc = .begin → m.surplus ≤ 0) (ht : m.rxTarget ≤ rxShare)
    (ho : repostOp m ok pc = (m', o, es)) :
    ShareStep m (wrap pc) m' ((o.map wrap).getD .returned) := by
  have hown {pc' : RepostPc} (hpc' : pc'.InShare m') : (wrap pc').InShare m' := by
    simpa [SlotUser.InShare, hrefill] using hpc'
  cases pc with
  | begin =>
    cases ho
    have hle := hbegin rfl
    rw [PoolMem.surplus] at hle
    exact .aside rfl (by simp [hun]; rfl) (hown ⟨by omega, ht⟩)
  | get posted target =>
    rw [repostOp] at ho
    split at ho
    · rename_i hlt
      split at ho <;> cases ho
      · exact .aside rfl (hun _) (inShare_of_none rfl)
      · rename_i hg
        have hring : m'.rx = m.rx := congrArg Prod.fst (get_rx hg)
        exact .aside (get_rx hg) (by simp [hun]; rfl) (hown ⟨hring ▸ hk.1, hlt, hk.2⟩)
    · cases ho
      exact .aside rfl (hun _) (inShare_of_none rfl)
  | submit posted target slot =>
    obtain ⟨hlen, hlt, hhalf⟩ := hk
    rw [repostOp] at ho
    split at ho
    · cases ho
      exact .aside rfl (by simp [hun]; rfl) (hown trivial)
    · rename_i he
      cases ho
      rw [PoolMem.enqueue] at he
      split at he <;> cases he
      have hgrown : (m.rx.frames ++ [slot]).length = m.rx.frames.length + 1 := by simp
      refine ⟨?_, rfl, hown ⟨?_, hhalf⟩, .inr ⟨by simp [hrefill], ?_⟩⟩
      · simp [hun, PoolMem.surplus, RepostPc.uncounted, PoolMem.setRing, PoolMem.ring]
        omega
      · change ((m.rx.frames ++ [slot]).length : Int) ≤ posted + 1
        omega
      · change (m.rx.frames ++ [slot]).length ≤ rxShare
        omega
  | count posted target =>
    cases ho
    refine ⟨?_, rfl, hown hk, .inl le_rfl⟩
    simp [hun, PoolMem.surplus, RepostPc.uncounted]
    omega
  | putBack slot =>
    cases ho
    exact .aside rfl (hun _) (inShare_of_none rfl)

theorem slotOp_share (hk : u.InShare m) (hbegin : u.refill = some .begin → m.surplus ≤ 0)
    (ht : m.rxTarget ≤ rxShare) (ho : slotOp m u ok = some (m', u', es)) : ShareStep m u m' u' := by
  cases u with
  | returned => cases ho
  | txCallback slot =>
    cases ho
    exact .aside rfl rfl (inShare_of_none rfl)
  | rxCallback slot kind =>
    cases ho
    refine ⟨?_, rfl, inShare_of_none rfl, .inl le_rfl⟩
    simp only [PoolMem.surplus, SlotUser.uncounted]
    omega
  | rxPut slot kind =>
    cases ho
    split
    · exact .aside rfl rfl (by simp [SlotUser.InShare, SlotUser.refill, RepostPc.InShare])
    · exact .aside rfl rfl (inShare_of_none rfl)
  | repost pc =>
    cases ho
    exact repostOp_share .repost (fun _ => rfl) (fun _ => rfl) (hk pc rfl)
      (fun h => hbegin (congrArg some h)) ht rfl
  | rxRepost pc =>
    cases ho
    exact repostOp_share .rxRepost (fun _ => rfl) (fun _ => rfl) (hk pc rfl)
      (fun h => hbegin (congrArg some h)) ht rfl
  | latency pc | dmaMsg pc =>
    simp only [slotOp, latencyOp.eq_def, dmaMsgOp.eq_def] at ho
    repeat' split at ho
    all_goals cases ho
    all_goals first
      | exact .aside rfl rfl (inShare_of_none rfl)
      | exact .aside (get_rx ‹_›) rfl (inShare_of_none rfl)
      | exact .aside (enqueue_tx ‹_›) rfl (inShare_of_none rfl)

theorem slotOp_refill (ho : slotOp m u ok = some (m', u', es)) (hu' : u'.refill.isSome = true) :
    u.refill.isSome = true ∨ ∃ slot kind, u = .rxPut slot kind ∧ kind.reposts = true := by
  cases u with
  | repost pc | rxRepost pc => exact .inl rfl
  | rxPut slot kind =>
    cases ho
    refine .inr ⟨slot, kind, rfl, ?_⟩
    by_contra hk
    rw [if_neg hk] at hu'
    cases hu'
  | txCallback slot | rxCallback slot kind | returned =>
    cases ho
    all_goals cases hu'
  | latency pc | dmaMsg pc =>
    simp only [slotOp, latencyOp.eq_def, dmaMsgOp.eq_def] at ho
    repeat' split at ho
    all_goals cases ho
    all_goals cases hu'

end Ops

section Runs
variable {s : Sys PoolMem SlotUser} {h : List SlotEvent}
  (hr : Reaches slotProg.step (fun s _ a => repostsAlone s a = true) ⟨.init, []⟩ s h)
include hr

theorem one_refill : s.pcs.countP (fun u => u.refill.isSome) ≤ 1 := by
  refine at_most_one _ ?_ ?_ hr
  · intro s h x m u es _ hok hx hu
    cases x with
    | repost => simpa [repostsAlone, List.countP_eq_zero] using hok
    | send | dmaMsg =>
      cases hx
      cases hu
    | setRunning | setTarget | clearPosted => cases hx
    | txComplete k | rxComplete k kind =>
      obtain ⟨slot, -, heq⟩ := Option.map_eq_some_iff.mp hx
      cases heq
      cases hu
  · intro s h i x u m u' es _ hok hu ho hu'
    refine (slotOp_refill ho hu').imp_right ?_
    rintro ⟨slot, kind, rfl, hk⟩
    simpa [repostsAlone, hu, hk, List.countP_eq_zero] using hok

theorem share_accounts : (∀ _ : Unit, s.mem.surplus = tally SlotUser.uncounted s.pcs) ∧
    (∀ u ∈ s.pcs, u.InShare s.mem) ∧
    s.mem.rxTarget ≤ rxShare ∧ s.mem.rx.frames.length ≤ rxShare := by
  refine accounted (fun _ m _ => m.surplus) (fun _ => SlotUser.uncounted)
    (fun m u => u.InShare m) (fun m _ => m.rxTarget ≤ rxShare ∧ m.rx.frames.length ≤ rxShare)
    (fun _ => rfl) ⟨by decide, by decide⟩ ?_ ?_ hr
  · intro s h x m o es _ hok hsum ⟨ht, hle⟩ hx
    cases x with
    | send | dmaMsg | repost =>
      cases hx
      exact ⟨fun _ => (add_zero _).symm, by simp [SlotUser.InShare, SlotUser.refill,
        RepostPc.InShare], fun _ _ hq => hq, ht, hle⟩
    | setRunning side running =>
      cases hx
      cases side <;> exact ⟨fun _ => (add_zero _).symm, by simp, fun _ _ hq => hq, ht, hle⟩
    | setTarget target =>
      cases hx
      refine ⟨fun _ => (add_zero _).symm, by simp, fun _ _ hq => hq, ?_, hle⟩
      have htarget : target = 0 ∨ target = rxShare := by simpa [repostsAlone] using hok
      simp only
      omega
    | clearPosted =>
      cases hx
      simp only [repostsAlone, Bool.and_eq_true, List.isEmpty_iff, List.all_eq_true,
        beq_iff_eq] at hok
      -- nothing is posted, so the counter was 0 before
      have hzero := (hsum ()).trans (tally_eq_zero _ hok.2)
      refine ⟨fun _ => ?_, by simp, fun _ _ hq => hq, ht, hle⟩
      simp [PoolMem.surplus, hok.1] at hzero ⊢
      omega
    | txComplete k =>
      obtain ⟨slot, -, heq⟩ := Option.map_eq_some_iff.mp hx
      cases heq
      exact ⟨fun _ => (add_zero _).symm, by simp [SlotUser.InShare, SlotUser.refill],
        fun _ _ hq => hq, ht, hle⟩
    | rxComplete k kind =>
      obtain ⟨slot, hk, heq⟩ := Option.map_eq_some_iff.mp hx
      cases heq
      obtain ⟨hlt, -⟩ := List.getElem?_eq_some_iff.mp hk
      have hlen := List.length_eraseIdx_of_lt hlt
      refine ⟨fun _ => ?_, by simp [SlotUser.InShare, SlotUser.refill], fun q _ hq => hq.mono ?_,
        ht, ?_⟩ <;> simp only [PoolMem.surplus, SlotUser.uncounted, Option.map_some,
          Option.getD_some, hlen] <;> omega
  · intro s h i x u m u' es hr _ hsum hQ ⟨ht, hle⟩ hu ho
    have hmem := List.mem_of_getElem? hu
    have hother (hrefill : u.refill.isSome = true) {k : Nat} {q : SlotUser} (hk : k ≠ i)
        (hq : s.pcs[k]? = some q) : q.refill = none := by
      by_contra hsome
      exact hk (eq_of_countP_le_one (one_refill hr) hq hu (Option.isSome_iff_ne_none.mpr hsome)
        hrefill)
    have hs := slotOp_share (hQ u hmem) (fun hbegin => ?_) ht ho
    · refine ⟨fun _ => hs.counted, hs.own, fun k q hk hq => ?_, hs.target ▸ ht, ?_⟩
      · rcases hs.ring with hless | ⟨hrefill, -⟩
        · exact (hQ q (List.mem_of_getElem? hq)).mono hless
        · exact inShare_of_none (hother hrefill hk hq)
      · exact hs.ring.elim (fun hless => hless.trans hle) And.right
    · -- the loop is the only one, so no posted slot waits to be counted
      rw [hsum ()]
      refine tally_nonpos _ fun q hq => ?_
      obtain ⟨k, hk⟩ := List.mem_iff_getElem?.mp hq
      refine uncounted_nonpos ?_
      by_cases hki : k = i
      · subst hki
        cases hu.symm.trans hk
        exact .inr hbegin
      · exact .inl (hother (by rw [hbegin]; rfl) hki hk)

/-- While one repost runs at a time and the counter is cleared only when nothing is posted, the
receive ring never holds more than half of the pool, and when no repost and no receive callback is
under way the counter says how many slots it holds. -/
theorem rx_keeps_share : s.mem.rx.frames.length ≤ framePoolSize / 2 ∧
    ((∀ u ∈ s.pcs, u.reposting = false ∧ u.inCallback .rx = false) →
      s.mem.rxPosted = s.mem.rx.frames.length) := by
  obtain ⟨hsum, -, -, hle⟩ := share_accounts hr
  refine ⟨hle, fun hquiet => ?_⟩
  have hzero : s.mem.surplus = 0 := by
    refine (hsum ()).trans (tally_eq_zero _ fun u hu => ?_)
    obtain ⟨hrepost, hrx⟩ := hquiet u hu
    cases u <;> first | exact Bool.noConfusion hrepost | exact Bool.noConfusion hrx | rfl
  rw [PoolMem.surplus] at hzero
  omega

end Runs

def refilledOnce : List (Move PoolStart Bool) :=
  [.start (.setRunning .rx true), .start (.setTarget 2048), .start .repost, .run 0 true, .run 0 true,
    .run 0 true, .run 0 true, .run 0 true, .run 0 false, .run 0 true]

theorem rx_keeps_share_refilledOnce : ∃ s h,
    Reaches slotProg.step (fun s _ a => repostsAlone s a = true) ⟨.init, []⟩ s h ∧
      s.mem.rx.frames = [0] ∧ s.mem.rxPosted = s.mem.rx.frames.length := by
  have hr : Reaches slotProg.step (fun s _ a => repostsAlone s a = true) ⟨.init, []⟩ _ _ :=
    .of_acts refilledOnce (by decide +kernel)
  exact ⟨_, _, hr, by decide +kernel, (rx_keeps_share hr).2 (by decide +kernel)⟩

/-- The verify work has set the target to 0 and a stream is opened before it clears the counter. The
ring is stopped, so the loop ends and its slot is called back. -/
def clearedLate : List (Move PoolStart Bool) :=
  [.start (.setRunning .rx true), .start (.setTarget 0), .start (.setTarget 2048), .start .repost,
    .run 0 true, .run 0 true, .run 0 true, .run 0 true, .start .clearPosted,
    .start (.setRunning .rx false), .run 0 true, .run 0 true, .run 0 true,
    .start (.rxComplete 0 .canceled), .run 1 true, .run 1 true]

/-- Nothing is posted and nothing is under way, and the counter is -1: the next repost goes for 2049
slots. -/
theorem cleared_late_miscounts : ∃ s h, PoolReaches s h ∧ (∀ u ∈ s.pcs, u = .returned) ∧
    s.mem.rx.frames = [] ∧ s.mem.rxPosted = -1 :=
  ⟨_, _, .of_free clearedLate (by decide +kernel), by decide +kernel⟩

end OdinLink
