import OdinLink.Proto.NewestLogin

/-!
# Ring depths agree

The side with the deeper rings shrinks them before it connects, the other waits until it has. Every
message carries a depth its sender has or had, so a device that takes a snapshot has the smaller of
the two depths, and keeps it.
-/

namespace OdinLink.Proto

open History Node

def Advertised (a b n : Nat) : Prop := n = b ∨ n = min a b

theorem Advertised.ok {a b n : Nat} (ha : ringDepthOk a = true) (hb : ringDepthOk b = true)
    (hn : Advertised a b n) : ringDepthOk n = true := by
  rcases hn with rfl | rfl
  · exact hb
  · rcases Nat.le_total a b with hab | hab
    · rwa [Nat.min_eq_left hab]
    · rwa [Nat.min_eq_right hab]

def DepthIn (a b : Nat) : Act → Prop :=
  Incoming (fun p => Advertised a b p.reserved0)
    (fun r => r.status = loginStatusOk → Advertised a b r.reserved0)

structure Depths (a b : Nat) (s : Node) : Prop where
  ring : Advertised b a s.ringSize
  peer : s.loginSent = true → Advertised a b s.peerRingSize
  reply : ∀ r, s.loginWork.running = some (.accepted r) → Advertised a b r.reserved0

section Node
variable {cfg : Config} {ok : Node → List Event → Act → Prop} {a b : Nat} {hop : Int32}
  {s s' : Node} {h es : List Event} {act : Act} {d : Device}

theorem Change.ringSize (hc : Change cfg s act es d) (hd : Depths a b s)
    (ha : ringDepthOk a = true) (hb : ringDepthOk b = true) :
    d.ringSize = s.ringSize ∨ d.ringSize = min a b := by
  cases hc with
  | shrunk hop hc hok hlt hstop =>
    right
    have hp := hd.peer hc.2.2.1
    have hr := hd.ring
    unfold Advertised at hp hr
    change s.peerRingSize = min a b
    omega
  | shrinkFailed ring hop present hc hring hpres => exact .inl (hring (hd.ring.ok hb ha))
  | _ => exact .inl rfl

theorem Change.peerRingSize (hm : cfg.protocolMode = 0) (hc : Change cfg s act es d)
    (hd : Depths a b s) (hin : DepthIn a b act) (hsent : d.loginSent = true) :
    Advertised a b d.peerRingSize := by
  cases hc with
  | unanswered p ha hl hp | accepted p resp stale ha hl hp hr =>
    subst ha
    rw [loginFields_full (loginStatus_ok hm hp).1]
    refine hin.resolve_left ?_
    rw [hl]
    decide
  | replied r hr =>
    simp only [hm, if_true]
    exact hd.reply r hr
  | loggedOut | shrunk | waited | connectFailed | reset => contradiction
  | _ => exact hd.peer hsent

theorem Change.snapshot_ring (hm : cfg.protocolMode = 0) (hc : Change cfg s act es d)
    (hd : Depths a b s) (ha : ringDepthOk a = true) (hb : ringDepthOk b = true)
    (hes : es.any Event.isSnapshot = true) :
    s.ringSize = s.peerRingSize ∧ s.ringSize = min a b := by
  cases hc with
  | snapshot _ hc heq =>
    have hp := hd.peer hc.2.2.1
    have hr := hd.ring
    have he := heq hm (hp.ok ha hb)
    unfold Advertised at hp hr
    exact ⟨he, by omega⟩
  | quiet hq | hopReleased _ hq =>
    rw [no_snapshot_of_no_setup (any_of_quiet ofSetup_of_quiet hq)] at hes
    contradiction
  | _ => simp [Event.isSnapshot] at hes

variable (hm : cfg.protocolMode = 0) (ha : ringDepthOk a = true) (hb : ringDepthOk b = true)
  (hok : ∀ s h act, ok s h act → DepthIn a b act)
include hm ha hb hok

theorem depths_of_reaches (hr : Reaches (step cfg) ok (protoInit a hop) s h) : Depths a b s := by
  refine hr.invariant (fun s _ => Depths a b s) ?_ ?_
  · exact ⟨.inl rfl, fun hs => by contradiction, fun r hr => by contradiction⟩
  intro s h act s' es _ hd hin hs
  have hc := step_change hs
  refine ⟨?_, hc.peerRingSize hm hd (hok s h act hin), ?_⟩
  · rcases hc.ringSize hd ha hb with he | he
    · exact he ▸ hd.ring
    · exact .inr (he.trans (Nat.min_comm a b))
  · intro r hpc
    rcases step_reply hs hpc with hpc | ⟨rfl, hgood⟩
    · exact hd.reply r hpc
    · exact hok s h _ hin (goodReply_of_ok hm hgood).2.2.1

theorem ring_stable (hr : Reaches (step cfg) ok (protoInit a hop) s h)
    (hs : s.step cfg act = some (s', es)) (hmin : s.ringSize = min a b) :
    s'.ringSize = min a b :=
  ((step_change hs).ringSize (depths_of_reaches hm ha hb hok hr) ha hb).elim (·.trans hmin) id

theorem ring_of_setup (hr : Reaches (step cfg) ok (protoInit a hop) s h) {path : Int32}
    {gen : UInt32} {pc : SetupPc} (hpc : s.connectWork.running = some (.setup path gen pc)) :
    s.ringSize = min a b := by
  refine attempt_induction (fun s _ _ _ _ => s.ringSize = min a b) ?_ ?_ ?_ hr hpc
  · intro s h act s' hr _ hs
    exact ring_stable hm ha hb hok hr hs
      ((step_change hs).snapshot_ring hm (depths_of_reaches hm ha hb hok hr) ha hb rfl).2
  · intro s h act s' es _ _ _ hr _ hs _ hmin
    exact ring_stable hm ha hb hok hr hs hmin
  · intro s h act s' es _ _ _ _ hr _ hs _ hmin
    exact ring_stable hm ha hb hok hr hs hmin

theorem ring_of_connected (hr : Reaches (step cfg) ok (protoInit a hop) s h)
    (hc : .connected ∈ h) : s.ringSize = min a b := by
  revert hc
  refine hr.invariant (fun s h => Event.connected ∈ h → s.ringSize = min a b) (by simp) ?_
  intro s h act s' es hr ih _ hs hc
  apply ring_stable hm ha hb hok hr hs
  rcases List.mem_append.mp hc with hc | hc
  · exact ih hc
  · obtain ⟨path, gen, hpc, -⟩ := finish_of_connected hs hc
    exact ring_of_setup hm ha hb hok hr hpc

end Node

/-! ## The depth a device remembers of its peer -/

def Answered (s : Node) : Act → Prop
  | .packet p sent => p.hdr.type = msgLogin → s.connecting = true → sent = true
  | _ => True

instance (s : Node) (act : Act) : Decidable (Answered s act) := by
  unfold Answered
  split <;> infer_instance

/-- The generation has not come round since the snapshot. -/
def FewLogins (h : List Event) : Prop :=
  (since Event.isSnapshot h).countP Event.advances < 2 ^ 32

instance (h : List Event) : Decidable (FewLogins h) := inferInstanceAs (Decidable (_ < _))

section Peer
variable {cfg : Config} {ok : Node → List Event → Act → Prop} {a b : Nat} {hop : Int32}
  {s s' : Node} {h es : List Event} {act : Act} {d : Device}

theorem Change.keeps_peer (hc : Change cfg s act es d) (hans : Answered s act)
    (hes : es.any Event.isSnapshot = false) (hadv : es.any Event.advances = false)
    (hcon : d.connecting = true) :
    s.connecting = true ∧ d.peerRingSize = s.peerRingSize ∧ d.ringSize = s.ringSize := by
  cases hc with
  | unanswered p ha hl hp =>
    subst ha
    have := hans hl hcon
    contradiction
  | accepted | replied | loggedOut | snapshot => contradiction
  | shrunk hop hc | shrinkFailed ring hop present hc =>
    have := hc.2.1
    simp_all
  | connected | connectFailed | reset => contradiction
  | _ => exact ⟨hcon, rfl, rfl⟩

theorem peer_of_setup (hm : cfg.protocolMode = 0) (ha : ringDepthOk a = true)
    (hb : ringDepthOk b = true) (hok : ∀ s h act, ok s h act → DepthIn a b act)
    (hans : ∀ s h act, ok s h act → Answered s act)
    (hr : Reaches (step cfg) ok (protoInit a hop) s h) {path : Int32} {gen : UInt32}
    {pc : SetupPc} (hpc : s.connectWork.running = some (.setup path gen pc))
    (hcon : s.connecting = true)
    (hadv : (since Event.isSnapshot h).any Event.advances = false) :
    s.peerRingSize = s.ringSize := by
  -- as long as no login counts, no act of an attempt writes either depth
  have hnext {t t' : Node} {h v es : List Event} {act : Act} (hin : ok t h act)
      (hs : t.step cfg act = some (t', es)) (hes : es.any Event.isSnapshot = false)
      (hI : t.connecting = true → v.any Event.advances = false → t.peerRingSize = t.ringSize)
      (hcon : t'.connecting = true) (hadv : (v ++ es).any Event.advances = false) :
      t'.peerRingSize = t'.ringSize := by
    rw [List.any_append, Bool.or_eq_false_iff] at hadv
    obtain ⟨hcon', hpeer, hring⟩ :=
      (step_change hs).keeps_peer (hans t h act hin) hes hadv.2 hcon
    rw [hpeer, hring]
    exact hI hcon' hadv.1
  revert hcon hadv
  refine attempt_induction (fun s v _ _ _ => s.connecting = true →
    v.any Event.advances = false → s.peerRingSize = s.ringSize) ?_ ?_ ?_ hr hpc
  · intro s h act s' hr _ hs _ _
    have hc := step_change hs
    have heq := (hc.snapshot_ring hm (depths_of_reaches hm ha hb hok hr) ha hb rfl).1
    generalize s'.toDevice = d at hc
    cases hc with
    | snapshot => exact heq.symm
    | quiet hq | hopReleased _ hq => contradiction
  · intro s h act s' es _ _ _ _ hin hs hother hI
    exact hnext hin hs (no_snapshot_of_no_setup ((step_change hs).no_setup hother)) hI
  · intro s h act s' es _ _ _ _ _ hin hs hmove hI
    exact hnext hin hs hmove.no_snapshot hI

theorem peer_of_connected (hm : cfg.protocolMode = 0) (ha : ringDepthOk a = true)
    (hb : ringDepthOk b = true) (hok : ∀ s h act, ok s h act → DepthIn a b act)
    (hans : ∀ s h act, ok s h act → Answered s act)
    (hr : Reaches (step cfg) ok (protoInit a hop) s h) (hfew : FewLogins h)
    (hs : s.step cfg act = some (s', es)) (he : .connected ∈ es) :
    s.peerRingSize = s.ringSize ∧ s.ringSize = min a b := by
  obtain ⟨path, gen, hpc, hstale, -⟩ := finish_of_connected hs he
  simp only [staleLogin, Bool.or_eq_false_iff, Bool.not_eq_false', decide_eq_false_iff_not,
    not_not] at hstale
  obtain ⟨⟨⟨⟨-, hcon⟩, -⟩, -⟩, hgen⟩ := hstale
  have hcount := generation_since hr hpc
  rw [hgen] at hcount
  -- the generation is the one of the snapshot and has not come round, so no login counted
  have hzero := Nat.eq_zero_of_dvd_of_lt (dvd_of_add_eq hcount) hfew
  have hadv := List.any_eq_false.mpr (List.countP_eq_zero.mp hzero)
  exact ⟨peer_of_setup hm ha hb hok hans hr hpc hcon hadv, ring_of_setup hm ha hb hok hr hpc⟩

theorem step_responded {r : LoginResponse} (hs : s.step cfg act = some (s', es))
    (hr : .responded r ∈ es) (hst : r.status = loginStatusOk) : r.reserved0 = s.ringSize := by
  have hc := step_change hs
  generalize s'.toDevice = d at hc
  cases hc with
  | accepted p resp stale ha hl hp hring =>
    simp only [List.mem_cons, Event.responded.injEq, reduceCtorEq, List.not_mem_nil, or_self,
      or_false] at hr
    rw [hr, hring]
  | refused p status hne =>
    simp only [List.mem_cons, Event.responded.injEq, reduceCtorEq, List.not_mem_nil, or_self,
      or_false] at hr
    subst hr
    exact absurd hst hne
  | quiet hq | hopReleased _ hq => exact absurd hr (not_mem_of_quiet hq rfl)
  | _ => simp at hr

end Peer

/-! ## Two devices -/

section Pair
variable {cfg : Side → Config} {ring : Side → Nat} {hop : Side → Int32} {l l' : Pair}
  {h : List (Side × Event)} {es : List (Side × Event)} {i : Side} {act : Act}
  {ok : Pair → List (Side × Event) → Side × Act → Prop}

theorem depth_components (extra : Node → List Event → Act → Prop)
    (hm : ∀ i, (cfg i).protocolMode = 0) (hring : ∀ i, ringDepthOk (ring i) = true)
    (hok : ∀ l h i a, ok l h (i, a) → extra (l.node i) (eventsOf i h) a)
    (hr : Reaches (Pair.step cfg) ok (Pair.init fun i => protoInit (ring i) (hop i)) l h)
    (i : Side) :
    Reaches (step (cfg i)) (fun s h a => DepthIn (ring i) (ring i.other) a ∧ extra s h a)
      (protoInit (ring i) (hop i)) (l.node i) (eventsOf i h) ∧
    ∀ a, l.admits i a = true → DepthIn (ring i) (ring i.other) a := by
  obtain ⟨hrun, hP, hQ⟩ := Pair.components
    (fun i p => Advertised (ring i) (ring i.other) p.reserved0)
    (fun i r => r.status = loginStatusOk → Advertised (ring i) (ring i.other) r.reserved0)
    (fun i s h a => DepthIn (ring i) (ring i.other) a ∧ extra s h a)
    (fun l h i a ha hin => ⟨hin, hok l h i a ha⟩) (fun i s h a s' es hr hs => by
      have hd := depths_of_reaches (hm i) (hring i) (hring i.other) (fun _ _ _ h => h.1) hr
      constructor
      · intro p hp
        rw [step_requested hs hp, Side.other_other]
        exact hd.ring
      · intro r hr hst
        rw [step_responded hs hr hst, Side.other_other]
        exact hd.ring) hr i
  exact ⟨hrun, fun a hadm => Pair.incoming_of_admits hP hQ hadm⟩

theorem rings_agree (hm : ∀ i, (cfg i).protocolMode = 0)
    (hring : ∀ i, ringDepthOk (ring i) = true)
    (hr : Reaches (Pair.step cfg) ok (Pair.init fun i => protoInit (ring i) (hop i)) l h)
    (i : Side) (hlive : (l.node i).live) : (l.node i).ringSize = min (ring .left) (ring .right) := by
  obtain ⟨hrun, -⟩ := depth_components (fun _ _ _ => True) hm hring (fun _ _ _ _ _ => trivial) hr i
  have hmin := ring_of_connected (hm i) (hring i) (hring i.other) (fun _ _ _ h => h.1) hrun
    (connected_of_live hrun hlive)
  cases i with
  | left => exact hmin
  | right => exact hmin.trans (Nat.min_comm _ _)

/-- No login goes unanswered while the device that receives it is connecting, and the generation
of that device does not come round during an attempt. -/
def LoginsAnswered (l : Pair) (h : List (Side × Event)) (x : Side × Act) : Prop :=
  Answered (l.node x.1) x.2 ∧ FewLogins (eventsOf x.1 h)

instance (l : Pair) (h : List (Side × Event)) (x : Side × Act) :
    Decidable (LoginsAnswered l h x) := inferInstanceAs (Decidable (_ ∧ _))

theorem ring_depths_agree (hm : ∀ i, (cfg i).protocolMode = 0)
    (hring : ∀ i, ringDepthOk (ring i) = true)
    (hr : Reaches (Pair.step cfg) LoginsAnswered
      (Pair.init fun i => protoInit (ring i) (hop i)) l h) :
    ((∀ i, (l.node i).state = .connected ∨ (l.node i).state = .ready) →
      (l.node .left).ringSize = (l.node .right).ringSize ∧
        (l.node .left).ringSize = min (ring .left) (ring .right)) ∧
    ∀ x l' es, LoginsAnswered l h x → l.step cfg x = some (l', es) →
      ∀ i, (l.node i).state ≠ .connected → (l'.node i).state = .connected →
        (l'.node i).peerRingSize = (l'.node i).ringSize ∧
          ringDepthOk (l'.node i).peerRingSize = true := by
  constructor
  · intro hst
    have hmin (i : Side) := rings_agree hm hring hr i ((hst i).elim .inl (.inr ∘ .inl))
    exact ⟨(hmin .left).trans (hmin .right).symm, hmin .left⟩
  · rintro ⟨j, a⟩ l' es hx hs i hne hst
    obtain ⟨hadm, s', es', hstep, -, hnode, hother, -⟩ := Pair.step_eq hs
    by_cases hij : i = j
    · subst hij
      obtain ⟨hrun, hin⟩ := depth_components (fun s h a => Answered s a ∧ FewLogins h) hm hring
        (fun _ _ _ _ hx => hx) hr i
      rw [hnode] at hst
      have hcon := (step_connected hstep hst).resolve_left hne
      obtain ⟨hpeer, hmin⟩ := peer_of_connected (hm i) (hring i) (hring i.other)
        (fun _ _ _ h => h.1) (fun _ _ _ h => h.2.1) hrun hx.2 hstep hcon
      obtain ⟨-, -, -, -, hdev⟩ := finish_of_connected hstep hcon
      rw [hnode, hdev]
      refine ⟨hpeer, Advertised.ok (hring i) (hring i.other) ?_⟩
      exact .inr (hpeer.trans hmin)
    · obtain rfl := Side.eq_other hij
      rw [hother] at hst
      exact absurd hst hne

end Pair

def demoRings (i : Side) : Nat := if i = .left then 64 else 128

def demoStart : Pair := .init fun i => protoInit (demoRings i) 8

/-- The right device, of depth 128, takes the late response to its first login for the answer to
its second one, whose request is still on its way; then the left device logs in and the right one
shrinks its rings. -/
def demoShrink : List (Side × Act) :=
  let login (d : Nat) := Act.packet (demoPacket msgLogin 3 8 d) true
  let reply (d : Nat) := Act.login (some (demoReply 8 d))
  let next := Act.login none
  let connect := Act.connect (demoEnv 8)
  [(.right, .start .login), (.right, next), (.left, login 128), (.right, next), (.right, next),
    (.right, .start .login), (.right, next), (.right, reply 64), (.right, next),
    (.left, .start .login), (.left, next), (.right, login 64), (.right, .wake),
    (.left, reply 128), (.left, next), (.left, next), (.right, .start .connect),
    (.right, connect), (.right, connect), (.left, .start .connect), (.left, connect),
    (.left, connect)]

def demoRelogin (i : Side) : List (Side × Act) :=
  [(i, .start .login), (i, .login none), (i.other, .packet (demoPacket msgLogin 3 8 64) true),
    (i, .login (some (demoReply 8 64))), (i, .login none), (i, .login none)]

def demoAgree : List (Side × Act) :=
  demoShrink ++ demoRelogin .right ++ demoRelogin .left ++ [(.right, .wake)]

def demoSetup (i : Side) : List (Side × Act) :=
  (i, .start .connect) :: List.replicate 6 (i, .connect (demoEnv 8))

def demoConnect : List (Side × Act) :=
  demoAgree ++ demoSetup .left ++ [(.left, .connect (demoEnv 8))] ++ demoSetup .right ++
    [(.right, .connect (demoEnv 8))]

theorem demoConnect_run : (run (Pair.step fun _ => demoCfg 3)
    (fun l h x => decide (LoginsAnswered l h x)) demoStart [] demoConnect).isSome = true := by
  decide +kernel

theorem demoSetup_run : (run (Pair.step fun _ => demoCfg 3)
    (fun l h x => decide (LoginsAnswered l h x)) demoStart []
    (demoAgree ++ demoSetup .left)).isSome = true := by decide +kernel

theorem demoSetup_step : ((final _ _ _ _ demoSetup_run).1.step (fun _ => demoCfg 3)
    (.left, .connect (demoEnv 8))).isSome = true := by decide +kernel

theorem ring_depths_agree_demo :
    (∃ l h, Reaches (Pair.step fun _ => demoCfg 3) LoginsAnswered demoStart l h ∧
      (∀ i, (l.node i).state = .connected ∨ (l.node i).state = .ready) ∧
      (l.node .left).ringSize = (l.node .right).ringSize ∧
        (l.node .left).ringSize = min 64 128) ∧
    ∃ l h x l' es, Reaches (Pair.step fun _ => demoCfg 3) LoginsAnswered demoStart l h ∧
      LoginsAnswered l h x ∧ l.step (fun _ => demoCfg 3) x = some (l', es) ∧
      (l.node .left).state ≠ .connected ∧ (l'.node .left).state = .connected ∧
      (l'.node .left).peerRingSize = (l'.node .left).ringSize ∧
        ringDepthOk (l'.node .left).peerRingSize = true := by
  have hring : ∀ i, ringDepthOk (demoRings i) = true := by
    intro i
    cases i <;> decide
  constructor
  · have hr := Reaches.of_final LoginsAnswered (fun _ _ _ h => of_decide_eq_true h)
      demoConnect_run
    have hst : ∀ i, ((final _ _ _ _ demoConnect_run).1.node i).state = .connected := by
      intro i
      cases i <;> decide +kernel
    exact ⟨_, _, hr, fun i => .inl (hst i),
      (ring_depths_agree (fun _ => rfl) hring hr).1 fun i => .inl (hst i)⟩
  · have hr := Reaches.of_final LoginsAnswered (fun _ _ _ h => of_decide_eq_true h) demoSetup_run
    have hs := (Option.some_get demoSetup_step).symm
    have hx : LoginsAnswered (final _ _ _ _ demoSetup_run).1 (final _ _ _ _ demoSetup_run).2
        (.left, .connect (demoEnv 8)) := by decide +kernel
    have hne : ((final _ _ _ _ demoSetup_run).1.node .left).state ≠ .connected := by
      decide +kernel
    have hst : ((Option.get _ demoSetup_step).1.node .left).state = .connected := by
      decide +kernel
    exact ⟨_, _, _, _, _, hr, hx, hs, hne, hst,
      (ring_depths_agree (fun _ => rfl) hring hr).2 _ _ _ hx hs .left hne hst⟩

/-- The second login of the right device arrives while the left one connects, and its answer
cannot be sent. Neither requests nor responses overtake each other in this run. -/
def demoLate : List (Side × Act) :=
  demoShrink ++ demoRelogin .left ++ demoSetup .left ++
    [(.left, .packet (demoPacket msgLogin 3 8 128) false)]

theorem demoLate_run : (run (Pair.step fun _ => demoCfg 3) (fun _ _ _ => true) demoStart []
    demoLate).isSome = true := by decide +kernel

theorem demoLate_step : ((final _ _ _ _ demoLate_run).1.step (fun _ => demoCfg 3)
    (.left, .connect (demoEnv 8))).isSome = true := by decide +kernel

theorem late_login_depth :
    ∃ l h x l' es, Reaches (Pair.step fun _ => demoCfg 3) (fun _ _ _ => True) demoStart l h ∧
      l.step (fun _ => demoCfg 3) x = some (l', es) ∧ (l.node .left).state ≠ .connected ∧
      (l'.node .left).state = .connected ∧ (l'.node .left).ringSize = 64 ∧
      (l'.node .left).peerRingSize = 128 := by
  have hr := Reaches.of_final (fun _ _ _ => True) (fun _ _ _ _ => trivial) demoLate_run
  exact ⟨_, _, _, _, _, hr, (Option.some_get demoLate_step).symm, by decide +kernel,
    by decide +kernel, by decide +kernel, by decide +kernel⟩

end OdinLink.Proto
