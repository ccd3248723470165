import OdinLink.Proto.Hardware

/-!
# Rings and buffers at the start of a connection

The connect work shrinks the rings and their DMA buffers to the depth of the peer, and puts the old
ones back if it cannot. If that fails too the device is without rings or without buffers, in state
ERROR.
-/

namespace OdinLink.Proto

open Node History

/-- A device with the size of its DMA buffers, `none` for NULL: the two for sending and the two for
receiving are allocated and freed together. -/
structure Buffered where
  node : Node
  bufs : Option Nat
  deriving DecidableEq, Repr

namespace Node

/-- What a failed allocation leaves of the four buffers is freed. -/
def dmaBufsAlloc (s : Node) (ok : Bool) : Option Nat :=
  if ok then some (frameSize * s.ringSize) else none

/-- Without a ring the DMA device is not known, and the buffers stay. -/
def dmaBufsFree (s : Node) (bufs : Option Nat) : Option Nat :=
  if s.ringsPresent then none else bufs

/-- `odl_tb5_rings_resize`, as far as the buffers are concerned. -/
def resizeBufs (s : Node) (bufs : Option Nat) (newSize : Nat) (env : ConnectEnv) : Option Nat :=
  if s.txStarted || s.rxStarted then bufs
  else if s.ringSize ≤ newSize then bufs
  else
    let bufs := s.dmaBufsFree bufs
    let r := s.ringsFree.ringsAlloc newSize env.shrink
    let bufs := if r.1 then r.2.dmaBufsAlloc env.shrink.dmaBufs else bufs
    if r.1 && env.shrink.dmaBufs then bufs
    else
      let bufs := r.2.dmaBufsFree bufs
      let q := r.2.ringsFree.ringsAlloc s.ringSize env.restore
      if q.1 then q.2.dmaBufsAlloc env.restore.dmaBufs else bufs

def resizes (cfg : Config) (s : Node) : Prop :=
  s.mayConnect ∧ cfg.protocolMode = 0 ∧ ringDepthOk s.peerRingSize = true ∧
    s.peerRingSize < s.ringSize

instance (cfg : Config) (s : Node) : Decidable (s.resizes cfg) :=
  inferInstanceAs (Decidable ((_ ∧ _ ∧ _ ∧ _) ∧ _ ∧ _ ∧ _))

/-- The two steps that end the state ERROR, whatever the device is left with: the restart work
begins a handshake and the verify work announces READY. -/
def leavesError (s : Node) : Act → Bool
  | .restart => s.state = .error && s.restartWork.running = some .reset
  | .verify _ => s.state = .error && s.verifyWork.running = some .setReady
  | _ => false

def settingUp (s : Node) : Bool :=
  match s.connectWork.running with
  | some (.setup _ _ _) => true
  | _ => false

end Node

namespace Buffered

def probed (ring : Nat) (hop : Int32) : Buffered := ⟨protoInit ring hop, some (frameSize * ring)⟩

def bufsAfter (cfg : Config) (p : Buffered) : Act → Option Nat
  | .connect env =>
    if p.node.connectWork.running = some .begin ∧ p.node.resizes cfg then
      p.node.resizeBufs p.bufs p.node.peerRingSize env
    else p.bufs
  | _ => p.bufs

def step (cfg : Config) (p : Buffered) (a : Act) : Option (Buffered × List Event) :=
  (p.node.step cfg a).map fun r => (⟨r.1, p.bufsAfter cfg a⟩, r.2)

def Complete (p : Buffered) : Prop :=
  p.node.ringsPresent = true ∧ p.bufs = some (frameSize * p.node.ringSize)

instance (p : Buffered) : Decidable p.Complete := inferInstanceAs (Decidable (_ ∧ _))

def Repaired (p : Buffered) (a : Act) : Prop := p.node.leavesError a = true → p.Complete

instance (p : Buffered) (a : Act) : Decidable (p.Repaired a) :=
  inferInstanceAs (Decidable (_ → _))

theorem step_eq_some {cfg : Config} {p p' : Buffered} {a : Act} {es : List Event} :
    p.step cfg a = some (p', es) ↔
      p.node.step cfg a = some (p'.node, es) ∧ p'.bufs = p.bufsAfter cfg a := by
  simp only [step, Option.map_eq_some_iff, Prod.mk.injEq, Prod.exists]
  constructor
  · rintro ⟨s, fs, hs, rfl, rfl⟩
    exact ⟨hs, rfl⟩
  · rintro ⟨hs, hbufs⟩
    exact ⟨p'.node, es, hs, by rw [← hbufs], rfl⟩

end Buffered

section Rings
variable {cfg : Config} {s s' : Node} {a : Act} {es : List Event}

theorem connectStep_rings {env : ConnectEnv} {pc : ConnectPc} (hpc : pc ≠ .begin)
    (hs : s.connectStep cfg env pc = some (s', es)) :
    s'.ringsPresent = s.ringsPresent ∧ s'.ringSize = s.ringSize := by
  have hsched (t : Node) (w : Worker) := t.schedule_toDevice w
  cases pc with
  | begin => contradiction
  | setup path gen pc => cases pc <;> grind [connectStep, setupStep, connectTo, ringsStart]
  | _ => constructor <;> grind [connectStep, connectTo, ringsStop]

theorem step_rings (hs : s.step cfg a = some (s', es))
    (hn : ∀ env, a = .connect env → s.connectWork.running = some .begin → ¬ s.resizes cfg) :
    s'.ringsPresent = s.ringsPresent ∧ s'.ringSize = s.ringSize := by
  by_cases hc : a.moves = some .connect
  · cases a with
    | start w =>
      have hdev := startWork_toDevice (step_start.mp hs).1
      rw [hdev]
      exact ⟨rfl, rfl⟩
    | connect env =>
      obtain ⟨pc, hpc, hs⟩ := step_connect.mp hs
      by_cases hb : pc = .begin
      · subst hb
        have hno := hn env rfl hpc
        simp only [connectStep, Option.some.injEq] at hs
        unfold connectBegin at hs
        split at hs
        · cases hs
          exact ⟨rfl, rfl⟩
        · rename_i hmay
          have hmay' : s.mayConnect := by
            simpa only [mayConnect, not_or, ne_eq, not_not, Bool.not_eq_true,
              Bool.not_eq_false] using hmay
          dsimp only at hs
          rw [if_neg (fun hlt => hno ⟨hmay', hlt.1.1, hlt.1.2, hlt.2⟩)] at hs
          split at hs <;> cases hs <;> exact ⟨rfl, rfl⟩
      · exact connectStep_rings hb hs
    | _ => simp [Act.moves] at hc
  · have hchange := step_change hs
    generalize s'.toDevice = d at hchange ⊢
    cases hchange <;> first | exact ⟨rfl, rfl⟩ | contradiction

theorem step_error (hs : s.step cfg a = some (s', es)) (he : s.state = .error)
    (hl : s.leavesError a = false) : s'.state = .error := by
  cases a with
  | start w => rw [startWork_toDevice (step_start.mp hs).1, he]
  | restart =>
    obtain ⟨pc, hpc, hs⟩ := step_restart.mp hs
    have hne : pc ≠ .reset := by
      rintro rfl
      simp [leavesError, he, hpc] at hl
    have hsched (t : Node) (w : Worker) := t.schedule_toDevice w
    have hset (t : Node) (w : Worker) (b : Bool) := t.setPending_toDevice w b
    cases pc <;> grind [restartStep, restartTo, ringsStop]
  | verify ok =>
    obtain ⟨pc, hpc, hs⟩ := step_verify.mp hs
    have hne : pc ≠ .setReady := by
      rintro rfl
      simp [leavesError, he, hpc] at hl
    have hsched (t : Node) (w : Worker) := t.schedule_toDevice w
    cases pc <;> grind [verifyStep, verifyTo]
  | _ =>
    have hchange := step_change hs
    generalize s'.toDevice = d at hchange ⊢
    cases hchange with
    | shrinkFailed => rfl
    | connected path gen hpc hst ha =>
      -- the second section finds that the state is not HANDSHAKE
      simp [staleLogin, he] at hst
    | reset ha | ready hpc ha => simp [Act.moves] at ha
    | _ => exact he

theorem settingUp_iff : s.settingUp = true ↔
    ∃ path gen pc, s.connectWork.running = some (.setup path gen pc) := by
  unfold settingUp
  split <;> simp_all

theorem step_settingUp (hs : s.step cfg a = some (s', es)) (hq : s'.settingUp = true) :
    s.settingUp = true ∨ s.state = .handshake := by
  obtain ⟨path, gen, pc, hpc⟩ := settingUp_iff.mp hq
  rcases step_setup hs hpc with ⟨-, hbefore⟩ | ⟨pc₀, hbefore, -⟩ | ⟨-, -, -, -, -, hst⟩
  · exact .inl (settingUp_iff.mpr ⟨path, gen, pc, hbefore⟩)
  · exact .inl (settingUp_iff.mpr ⟨path, gen, pc₀, hbefore⟩)
  · exact .inr hst

theorem resizeBufs_complete (bufs : Option Nat) {n : Nat} {env : ConnectEnv}
    (hlt : n < s.ringSize) (hok : (s.ringsResize n env).1 = true) :
    (s.ringsResize n env).2.ringsPresent = true ∧
      s.resizeBufs bufs n env = some (frameSize * (s.ringsResize n env).2.ringSize) := by
  unfold ringsResize at hok ⊢
  unfold resizeBufs
  by_cases hstop : (s.txStarted || s.rxStarted) = true
  · rw [if_pos hstop] at hok
    contradiction
  · rw [if_neg hstop, if_neg (Nat.not_le.mpr hlt)] at hok ⊢
    rw [if_neg hstop, if_neg (Nat.not_le.mpr hlt)]
    dsimp only at hok ⊢
    by_cases halloc : ((s.ringsFree.ringsAlloc n env.shrink).1 && env.shrink.dmaBufs) = true
    · rw [if_pos halloc]
      rw [if_pos halloc]
      obtain ⟨hrings, hbufs⟩ := Bool.and_eq_true_iff.mp halloc
      obtain ⟨hop, present, hdev, hpres⟩ := ringsAlloc_toDevice (s := s.ringsFree) n env.shrink
      refine ⟨?_, ?_⟩
      · rw [hdev]
        exact hpres hrings
      · rw [if_pos hrings, hbufs]
        rfl
    · rw [if_neg halloc] at hok
      contradiction

end Rings

namespace Buffered
variable {cfg : Config} {p p' : Buffered} {a : Act} {es : List Event}

def Inv (p : Buffered) : Prop :=
  p.node.state ≠ .error ∨ p.node.settingUp = true → p.Complete

theorem Complete.resize {env : ConnectEnv} (hresize : p.node.resizes cfg)
    (hs : p.node.connectBegin cfg env = (p'.node, es))
    (hbufs : p'.bufs = p.node.resizeBufs p.bufs p.node.peerRingSize env) : p'.Inv := by
  obtain ⟨hmay, hmode, hdepth, hlt⟩ := hresize
  have hgo : ¬ (p.node.state ≠ .handshake ∨ p.node.connecting = true ∨ p.node.loginSent = false ∨
      p.node.loginReceived = false) := by
    simpa only [mayConnect, not_or, ne_eq, not_not, Bool.not_eq_true, Bool.not_eq_false] using hmay
  unfold connectBegin at hs
  rw [if_neg hgo] at hs
  dsimp only at hs
  rw [if_pos ⟨⟨hmode, hdepth⟩, hlt⟩] at hs
  split at hs
  · rename_i hok
    obtain ⟨hrings, hsize⟩ := resizeBufs_complete p.bufs hlt hok
    intro _
    rw [Complete, hbufs, hsize, ← (Prod.mk.inj hs).1]
    exact ⟨hrings, rfl⟩
  · -- the state is ERROR from now on
    rintro (hst | hsetup)
    · rw [← (Prod.mk.inj hs).1] at hst
      exact absurd rfl hst
    · rw [← (Prod.mk.inj hs).1] at hsetup
      simp [settingUp, connectTo] at hsetup

theorem step_inv (hi : p.Inv) (hok : p.Repaired a) (hs : p.step cfg a = some (p', es)) :
    p'.Inv := by
  obtain ⟨hnode, hbufs⟩ := step_eq_some.mp hs
  by_cases hresize : ∃ env, a = .connect env ∧ p.node.connectWork.running = some .begin ∧
      p.node.resizes cfg
  · obtain ⟨env, rfl, hpc, hresize⟩ := hresize
    rw [bufsAfter, if_pos ⟨hpc, hresize⟩] at hbufs
    obtain ⟨pc, hpc', hnode⟩ := step_connect.mp hnode
    obtain rfl : pc = .begin := Option.some.inj (hpc'.symm.trans hpc)
    exact Complete.resize hresize (Option.some.inj hnode) hbufs
  · have hsame : p'.bufs = p.bufs := by
      rw [hbufs]
      cases a with
      | connect env => exact if_neg fun h => hresize ⟨env, rfl, h.1, h.2⟩
      | _ => rfl
    obtain ⟨hpres, hsize⟩ := step_rings hnode fun env ha hpc hr => hresize ⟨env, ha, hpc, hr⟩
    have hcomplete : p.Complete → p'.Complete := by
      rintro ⟨hrings, hsz⟩
      exact ⟨hpres.trans hrings, by rw [hsame, hsz, hsize]⟩
    rintro (hst | hsetup)
    · apply hcomplete
      by_cases he : p.node.state = .error
      · -- the state is left, which the run does only with everything in place
        apply hok
        by_contra hl
        exact hst (step_error hnode he (Bool.eq_false_of_not_eq_true hl))
      · exact hi (.inl he)
    · apply hcomplete
      rcases step_settingUp hnode hsetup with hbefore | hst
      · exact hi (.inr hbefore)
      · exact hi (.inl (by rw [hst]; simp))

/-- In every run in which a device is taken out of state ERROR only with its rings and buffers in
place, the connect work finds all of them when it comes to start the rings. -/
theorem rings_exist_when_started {cfg : Config} {ring : Nat} {hop : Int32} {p : Buffered}
    {h : List Event} (hr : Reaches (step cfg) (fun p _ a => p.Repaired a) (probed ring hop) p h)
    {path : Int32} {gen : UInt32}
    (hpc : p.node.connectWork.running = some (.setup path gen .startRings)) :
    p.node.ringsPresent = true ∧ p.bufs = some (frameSize * p.node.ringSize) := by
  have hi : p.Inv := by
    refine hr.invariant (fun p _ => p.Inv) ?_ ?_
    · exact fun _ => ⟨rfl, rfl⟩
    · intro p h a p' es _ hi hok hs
      exact step_inv hi hok hs
  apply hi
  right
  rw [settingUp, hpc]

/-- A login and the work items up to the start of the rings, after a resize from 128 to 64. -/
def demoShrink : List Act :=
  [Act.packet (demoPacket msgLogin 3 9 64) true, .start .login, .login none,
    .login (some (demoReply 9 64)), .login none, .login none, .start .connect,
    .connect (demoEnv 9), .connect (demoEnv 9), .start .login, .login none,
    .login (some (demoReply 9 64)), .login none, .login none, .start .connect] ++
    List.replicate 3 (Act.connect (demoEnv 9))

theorem demoShrink_run : (run (step (demoCfg 3)) (fun p _ a => decide (p.Repaired a))
    (probed 128 8) [] demoShrink).isSome = true := by decide +kernel

theorem rings_exist_when_started_demo :
    ∃ p h, Reaches (step (demoCfg 3)) (fun p _ a => p.Repaired a) (probed 128 8) p h ∧
      p.node.connectWork.running = some (.setup 9 3 .startRings) ∧
      p.node.ringsPresent = true ∧ p.bufs = some (frameSize * p.node.ringSize) := by
  have hr := Reaches.of_final (fun (p : Buffered) _ a => p.Repaired a)
    (fun _ _ _ h => of_decide_eq_true h) demoShrink_run
  have hpc : (final _ _ _ _ demoShrink_run).1.node.connectWork.running =
      some (.setup 9 3 .startRings) := by decide +kernel
  exact ⟨_, _, hr, hpc, rings_exist_when_started hr hpc⟩

/-- The shrink fails, and the old rings come back without their buffers. -/
def demoStarved : ConnectEnv := ⟨true, 9, ⟨false, 8, true, true⟩, ⟨true, 8, true, false⟩⟩

/-- The device is in state ERROR when the peer logs out; it goes through the handshake again, now
with a peer whose rings are as deep as its own were. -/
def demoRevived : List Act :=
  [Act.packet (demoPacket msgLogin 3 9 64) true, .start .login, .login none,
    .login (some (demoReply 9 64)), .login none, .login none, .start .connect,
    .connect demoStarved, .packet (demoPacket msgLogout 0 0 0) true, .wake, .start .restart] ++
    List.replicate 12 Act.restart ++
    [Act.packet (demoPacket msgLogin 3 9 128) true, .start .login, .login none,
      .login (some (demoReply 9 128)), .login none, .login none, .start .connect] ++
    List.replicate 3 (Act.connect (demoEnv 9))

theorem demoRevived_run : (run (step (demoCfg 3)) (fun _ _ _ => true)
    (probed 128 8) [] demoRevived).isSome = true := by decide +kernel

theorem rings_started_without_buffers :
    ∃ p h, Reaches (step (demoCfg 3)) (fun _ _ _ => True) (probed 128 8) p h ∧
      p.node.connectWork.running = some (.setup 9 5 .startRings) ∧ p.bufs = none := by
  have hr := Reaches.of_final (fun _ _ _ => True) (fun _ _ _ _ => trivial) demoRevived_run
  exact ⟨_, _, hr, by decide +kernel, by decide +kernel⟩

end Buffered

end OdinLink.Proto
