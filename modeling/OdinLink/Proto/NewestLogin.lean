import OdinLink.Proto.FailClosed

/-!
# A connection uses the newest login

The connect work reads the peer's path and the login generation under the lock, sets the
connection up without it, and looks at the generation again at the end. Every accepted login,
accepted response and logout advances the generation, so an unchanged one means that the path
is still the newest, up to the wrap-around of the counter.
-/

namespace OdinLink.Proto

open History Node

def Event.advances : Event → Bool
  | .loginAccepted _ | .replyAccepted _ | .logout => true
  | _ => false

def Event.isSnapshot : Event → Bool
  | .snapshot _ _ => true
  | _ => false

def Event.path (path : Int32) : Event → Int32
  | .loginAccepted p => p.transmitPath.toInt32
  | .replyAccepted r => r.transmitPath.toInt32
  | _ => path

/-- The path of the newest accepted login or response; zero before the first. -/
def newestPath (h : List Event) : Int32 := h.foldl Event.path 0

theorem newestPath_append (h es : List Event) :
    newestPath (h ++ es) = es.foldl Event.path (newestPath h) := List.foldl_append

theorem foldl_path {es : List Event} (hes : es.any Event.advances = false) (path : Int32) :
    es.foldl Event.path path = path := by
  induction es with
  | nil => rfl
  | cons e es ih =>
    rw [List.any_cons, Bool.or_eq_false_iff] at hes
    have he : e.path path = path := by
      cases e <;> first | rfl | exact absurd hes.1 (by simp [Event.advances])
    rw [List.foldl_cons, he]
    exact ih hes.2

theorem dvd_of_add_eq {g : UInt32} {n : Nat} (hg : g = g + UInt32.ofNat n) : 2 ^ 32 ∣ n := by
  have hnat := congrArg UInt32.toNat hg
  have hlt := g.toNat_lt
  rw [UInt32.toNat_add, UInt32.toNat_ofNat'] at hnat
  omega

section Step
variable {cfg : Config} {s s' : Node} {a : Act} {es : List Event} {d : Device}

theorem advances_of_quiet (e : Event) (hq : e.quiet = true) : e.advances = false := by
  cases e <;> first | rfl | contradiction

theorem countP_of_any {q : Event → Bool} (hes : es.any q = false) : es.countP q = 0 :=
  List.countP_eq_zero.mpr (List.any_eq_false.mp hes)

theorem Change.generation (hc : Change cfg s a es d) :
    d.loginGeneration = s.loginGeneration + UInt32.ofNat (es.countP Event.advances) := by
  cases hc with
  | quiet hq | hopReleased _ hq =>
    rw [countP_of_any (any_of_quiet advances_of_quiet hq)]
    exact (UInt32.add_zero _).symm
  | accepted | replied | loggedOut => rfl
  | _ => exact (UInt32.add_zero _).symm

theorem Change.remotePath (hm : cfg.protocolMode = 0) (hc : Change cfg s a es d) :
    d.remoteTxHopid = es.foldl Event.path s.remoteTxHopid := by
  cases hc with
  | quiet hq | hopReleased _ hq => rw [foldl_path (any_of_quiet advances_of_quiet hq)]
  | accepted p resp stale ha hl hp hr =>
    have hfull := loginFields_full (loginStatus_ok hm hp).1
    simp [Event.path, hfull]
  | replyPath path hm' =>
    rw [hm] at hm'
    contradiction
  | _ => rfl

theorem Change.hop (hc : Change cfg s a es d) :
    d.inHopid = s.inHopid ∨ ∃ path granted, es = [.hopAllocated path granted] ∧ d.inHopid = path := by
  cases hc with
  | hopAllocated ha path granted => exact .inr ⟨path, granted, rfl, rfl⟩
  | _ => exact .inl rfl

def Event.ofSetup : Event → Bool
  | .snapshot _ _ | .hopAllocated _ _ | .pathsEnabled _ => true
  | _ => false

theorem ofSetup_of_quiet (e : Event) (hq : e.quiet = true) : e.ofSetup = false := by
  cases e <;> first | rfl | contradiction

theorem Change.no_setup (hc : Change cfg s a es d) (ha : a.moves ≠ some .connect) :
    es.any Event.ofSetup = false := by
  cases hc with
  | snapshot ha' | hopAllocated ha' | pathsEnabled ha' => exact absurd ha' ha
  | quiet hq | hopReleased _ hq => exact any_of_quiet ofSetup_of_quiet hq
  | _ => rfl

theorem no_snapshot_of_no_setup (hes : es.any Event.ofSetup = false) :
    es.any Event.isSnapshot = false := by
  rw [List.any_eq_false] at hes ⊢
  intro e he hsnap
  apply hes e he
  cases e <;> first | rfl | contradiction

theorem Node.SetupMove.no_snapshot {path : Int32} {pc pc' : SetupPc}
    (hm : SetupMove path pc es pc') : es.any Event.isSnapshot = false := by
  cases hm with
  | releaseOld hq => exact no_snapshot_of_no_setup (any_of_quiet ofSetup_of_quiet hq)
  | _ => rfl

end Step

section Attempt
variable {cfg : Config} {ok : Node → List Event → Act → Prop} {ring : Nat} {hop : Int32}
  {s : Node} {h : List Event} {path : Int32} {gen : UInt32} {pc : SetupPc}

/-- The induction over one connection attempt. A property of the device and of what was logged
since the snapshot holds throughout the set-up if the snapshot establishes it, the pieces of the
set-up carry it on and the rest of the device leaves it alone. -/
theorem attempt_induction (I : Node → List Event → Int32 → UInt32 → SetupPc → Prop)
    (hstart : ∀ s h a s', Reaches (step cfg) ok (protoInit ring hop) s h → ok s h a →
      s.step cfg a = some (s', [.snapshot s.remoteTxHopid s.loginGeneration]) →
      I s' [] s.remoteTxHopid s.loginGeneration .releaseOld)
    (hstay : ∀ s h a s' es path gen pc, Reaches (step cfg) ok (protoInit ring hop) s h →
      ok s h a → s.step cfg a = some (s', es) → a.moves ≠ some .connect →
      I s (since Event.isSnapshot h) path gen pc →
      I s' (since Event.isSnapshot h ++ es) path gen pc)
    (hmove : ∀ s h a s' es path gen pc pc', Reaches (step cfg) ok (protoInit ring hop) s h →
      ok s h a → s.step cfg a = some (s', es) → SetupMove path pc es pc' →
      I s (since Event.isSnapshot h) path gen pc →
      I s' (since Event.isSnapshot h ++ es) path gen pc')
    (hr : Reaches (step cfg) ok (protoInit ring hop) s h)
    (hpc : s.connectWork.running = some (.setup path gen pc)) :
    I s (since Event.isSnapshot h) path gen pc := by
  revert path gen pc
  refine hr.invariant (fun s h => ∀ {path gen pc},
    s.connectWork.running = some (.setup path gen pc) →
      I s (since Event.isSnapshot h) path gen pc) ?_ ?_
  · intro path gen pc hpc
    contradiction
  intro s h a s' es hr ih ha hs path gen pc hpc
  rcases step_setup hs hpc with ⟨hother, hpc⟩ | ⟨pc₀, hpc₀, hm⟩ | ⟨-, rfl, rfl, rfl, rfl, -⟩
  · have hes := no_snapshot_of_no_setup ((step_change hs).no_setup hother)
    rw [since_append_of_none _ h hes]
    exact hstay s h a s' es path gen pc hr ha hs hother (ih hpc)
  · rw [since_append_of_none _ h hm.no_snapshot]
    exact hmove s h a s' es path gen pc₀ pc hr ha hs hm (ih hpc₀)
  · rw [since_append_of_any _ h rfl]
    exact hstart s h a s' hr ha hs

theorem generation_since (hr : Reaches (step cfg) ok (protoInit ring hop) s h)
    (hpc : s.connectWork.running = some (.setup path gen pc)) :
    s.loginGeneration =
      gen + UInt32.ofNat ((since Event.isSnapshot h).countP Event.advances) := by
  have hnext {t t' : Node} {a : Act} {v es : List Event} {gen : UInt32}
      (hs : t.step cfg a = some (t', es))
      (hg : t.loginGeneration = gen + UInt32.ofNat (v.countP Event.advances)) :
      t'.loginGeneration = gen + UInt32.ofNat ((v ++ es).countP Event.advances) := by
    rw [(step_change hs).generation, hg, List.countP_append, UInt32.ofNat_add, UInt32.add_assoc]
  refine attempt_induction (fun s v _ gen _ =>
    s.loginGeneration = gen + UInt32.ofNat (v.countP Event.advances)) ?_ ?_ ?_ hr hpc
  · intro s h a s' _ _ hs
    exact (step_change hs).generation
  · intro s h a s' es _ gen _ _ _ hs _ hg
    exact hnext hs hg
  · intro s h a s' es _ gen _ _ _ _ hs _ hg
    exact hnext hs hg

theorem remotePath_eq (hm : cfg.protocolMode = 0)
    (hr : Reaches (step cfg) ok (protoInit ring hop) s h) : s.remoteTxHopid = newestPath h := by
  refine hr.invariant (fun s h => s.remoteTxHopid = newestPath h) rfl ?_
  intro s h a s' es _ ih _ hs
  rw [(step_change hs).remotePath hm, newestPath_append, ih]

theorem snapshot_split (hm : cfg.protocolMode = 0)
    (hr : Reaches (step cfg) ok (protoInit ring hop) s h)
    (hpc : s.connectWork.running = some (.setup path gen pc)) :
    ∃ u, h = u ++ .snapshot path gen :: since Event.isSnapshot h ∧ path = newestPath u := by
  revert path gen pc
  refine hr.invariant (fun s h => ∀ {path gen pc},
    s.connectWork.running = some (.setup path gen pc) →
      ∃ u, h = u ++ .snapshot path gen :: since Event.isSnapshot h ∧ path = newestPath u) ?_ ?_
  · intro path gen pc hpc
    contradiction
  intro s h a s' es hr ih _ hs path gen pc hpc
  have hold {pc₀ : SetupPc} (hes : es.any Event.isSnapshot = false)
      (hpc₀ : s.connectWork.running = some (.setup path gen pc₀)) :
      ∃ u, h ++ es = u ++ .snapshot path gen :: since Event.isSnapshot (h ++ es) ∧
        path = newestPath u := by
    obtain ⟨u, hu, hpath⟩ := ih hpc₀
    refine ⟨u, ?_, hpath⟩
    rw [since_append_of_none _ h hes, ← List.cons_append, ← List.append_assoc, ← hu]
  rcases step_setup hs hpc with ⟨hother, hpc⟩ | ⟨pc₀, hpc₀, hm⟩ | ⟨-, rfl, rfl, rfl, rfl, -⟩
  · exact hold (no_snapshot_of_no_setup ((step_change hs).no_setup hother)) hpc
  · exact hold hm.no_snapshot hpc₀
  · refine ⟨h, ?_, remotePath_eq hm hr⟩
    rw [since_append_of_any _ h rfl]
    rfl

structure UsesPath (s : Node) (v : List Event) (path : Int32) (pc : SetupPc) : Prop where
  hops : ∀ q g, .hopAllocated q g ∈ v → q = path
  paths : ∀ q, .pathsEnabled q ∈ v → q = path
  allocated : pc ≠ .releaseOld → pc ≠ .allocHop →
    s.inHopid = path ∧ ∃ g, .hopAllocated path g ∈ v
  enabled : pc = .finish → .pathsEnabled path ∈ v

theorem UsesPath.stay {s' : Node} {v es : List Event} (hu : UsesPath s v path pc)
    (hes : es.any Event.ofSetup = false) (hhop : s'.inHopid = s.inHopid) :
    UsesPath s' (v ++ es) path pc := by
  have hold {e : Event} (he : e ∈ v ++ es) (hset : e.ofSetup = true) : e ∈ v := by
    rcases List.mem_append.mp he with he | he
    · exact he
    · exact absurd hset (List.any_eq_false.mp hes e he)
  refine ⟨fun q g he => hu.hops q g (hold he rfl), fun q he => hu.paths q (hold he rfl), ?_, ?_⟩
  · intro h1 h2
    obtain ⟨hin, g, hg⟩ := hu.allocated h1 h2
    exact ⟨hhop.trans hin, g, List.mem_append_left es hg⟩
  · exact fun hpc => List.mem_append_left es (hu.enabled hpc)

theorem UsesPath.move {s' : Node} {a : Act} {v es : List Event} {pc' : SetupPc}
    (hu : UsesPath s v path pc) (hs : s.step cfg a = some (s', es))
    (hm : SetupMove path pc es pc') : UsesPath s' (v ++ es) path pc' := by
  have hhop (hes : es.any Event.ofSetup = false) : s'.inHopid = s.inHopid := by
    refine (step_change hs).hop.resolve_right ?_
    rintro ⟨q, g, rfl, -⟩
    contradiction
  have hstay (hes : es.any Event.ofSetup = false) := hu.stay hes (hhop hes)
  cases hm with
  | releaseOld hq =>
    have hu' := hstay (any_of_quiet ofSetup_of_quiet hq)
    exact ⟨hu'.hops, hu'.paths, fun _ hne => absurd rfl hne, fun hpc => by contradiction⟩
  | startRings | primeRx | retry =>
    have hu' := hstay rfl
    exact ⟨hu'.hops, hu'.paths, fun _ _ => hu'.allocated (by simp) (by simp),
      fun hpc => by contradiction⟩
  | allocHop granted =>
    have hin : s'.inHopid = path := by
      have hc := step_change hs
      generalize s'.toDevice = d at hc
      cases hc with
      | hopAllocated => rfl
      | quiet hq | hopReleased _ hq => contradiction
    refine ⟨?_, ?_, ?_, fun hpc => by contradiction⟩
    · intro q g he
      rcases List.mem_append.mp he with he | he
      · exact hu.hops q g he
      · simp_all
    · intro q he
      exact hu.paths q (by simpa using he)
    · exact fun _ _ => ⟨hin, granted, by simp⟩
  | enablePaths attempt =>
    obtain ⟨hin, g, hg⟩ := hu.allocated (by simp) (by simp)
    have hin' : s'.inHopid = path := by
      refine Eq.trans ((step_change hs).hop.resolve_right ?_) hin
      rintro ⟨q, g, he, -⟩
      cases he
    refine ⟨?_, ?_, fun _ _ => ⟨hin', g, List.mem_append_left _ hg⟩, fun _ => by simp⟩
    · intro q g' he
      exact hu.hops q g' (by simpa using he)
    · intro q he
      rcases List.mem_append.mp he with he | he
      · exact hu.paths q he
      · simp_all

theorem uses_path (hr : Reaches (step cfg) ok (protoInit ring hop) s h)
    (hpc : s.connectWork.running = some (.setup path gen pc)) :
    UsesPath s (since Event.isSnapshot h) path pc := by
  refine attempt_induction (fun s v path _ pc => UsesPath s v path pc) ?_ ?_ ?_ hr hpc
  · intro s h a s' _ _ _
    exact ⟨by simp, by simp, fun hne => absurd rfl hne, fun hpc => by contradiction⟩
  · intro s h a s' es path gen pc _ _ hs ha hu
    have hes := (step_change hs).no_setup ha
    refine hu.stay hes ((step_change hs).hop.resolve_right ?_)
    rintro ⟨q, g, rfl, -⟩
    contradiction
  · intro s h a s' es path gen pc pc' _ _ hs hm hu
    exact hu.move hs hm

end Attempt

/-- At every transition to CONNECTED the hop that was requested from the allocator, recorded and
enabled is the path of the newest login at the snapshot, and the number of logins, responses and
logouts taken since is a multiple of `2 ^ 32`. -/
theorem newest_login {cfg : Config} {ring : Nat} {hop : Int32} {s s' : Node} {h es : List Event}
    {a : Act} (hm : cfg.protocolMode = 0)
    (hr : Reaches (step cfg) (fun _ _ _ => True) (protoInit ring hop) s h)
    (hs : s.step cfg a = some (s', es)) (hne : s.state ≠ .connected)
    (hst : s'.state = .connected) :
    s'.loginSent = true ∧ s'.loginReceived = true ∧
    ∃ u path gen v, h = u ++ .snapshot path gen :: v ∧ v.any Event.isSnapshot = false ∧
      path = newestPath u ∧ s'.inHopid = path ∧
      (∃ granted, .hopAllocated path granted ∈ v) ∧ (∀ q g, .hopAllocated q g ∈ v → q = path) ∧
      .pathsEnabled path ∈ v ∧ (∀ q, .pathsEnabled q ∈ v → q = path) ∧
      2 ^ 32 ∣ v.countP Event.advances ∧
      (v.countP Event.advances < 2 ^ 32 →
        v.any Event.advances = false ∧ path = newestPath h) := by
  have hcon : Event.connected ∈ es := (step_connected hs hst).resolve_left hne
  obtain ⟨path, gen, hpc, hstale, hdev⟩ := finish_of_connected hs hcon
  obtain ⟨hsent, hrecv⟩ := flags_of_connected hs hcon
  obtain ⟨u, hsplit, hpath⟩ := snapshot_split hm hr hpc
  have huse := uses_path hr hpc
  obtain ⟨hin, g, hg⟩ := huse.allocated (by simp) (by simp)
  have hnone : (since Event.isSnapshot h).any Event.isSnapshot = false := by
    have hany : h.any Event.isSnapshot = true := by
      rw [hsplit, List.any_append, List.any_cons]
      simp [Event.isSnapshot]
    obtain ⟨-, -, -, -, hnone⟩ := exists_split Event.isSnapshot hany
    exact hnone
  have hdvd : 2 ^ 32 ∣ (since Event.isSnapshot h).countP Event.advances := by
    have hgen : s.loginGeneration = gen := by
      simp only [staleLogin, Bool.or_eq_false_iff] at hstale
      simpa using hstale.2
    have hcount := generation_since hr hpc
    rw [hgen] at hcount
    exact dvd_of_add_eq hcount
  rw [hdev]
  refine ⟨hsent, hrecv, u, path, gen, _, hsplit, hnone, hpath, hin, ⟨g, hg⟩, huse.hops,
    huse.enabled rfl, huse.paths, hdvd, ?_⟩
  intro hlt
  have hzero := Nat.eq_zero_of_dvd_of_lt hdvd hlt
  have hany : (since Event.isSnapshot h).any Event.advances = false :=
    List.any_eq_false.mpr (List.countP_eq_zero.mp hzero)
  refine ⟨hany, ?_⟩
  rw [hsplit, newestPath_append, List.foldl_cons, foldl_path hany, hpath]
  rfl

theorem newest_login_demo :
    ∃ s h a s' es, Reaches (step (demoCfg 3)) (fun _ _ _ => True) (protoInit 64 8) s h ∧
      s.step (demoCfg 3) a = some (s', es) ∧ s.state ≠ .connected ∧ s'.state = .connected ∧
      s'.inHopid = 9 ∧ s'.loginSent = true ∧ s'.loginReceived = true ∧
      ∃ u path gen v, h = u ++ .snapshot path gen :: v ∧ path = newestPath u ∧
        2 ^ 32 ∣ v.countP Event.advances := by
  have hr := Reaches.of_final (fun _ _ _ => True) (fun _ _ _ _ => trivial) demoLogin_run
  have hs := (Option.some_get demoLogin_step).symm
  have hne : (final _ _ _ _ demoLogin_run).1.state ≠ .connected := by decide +kernel
  have hst : (Option.get _ demoLogin_step).1.state = .connected := by decide +kernel
  obtain ⟨hsent, hrecv, u, path, gen, v, hsplit, -, hpath, -, -, -, -, -, hdvd, -⟩ :=
    newest_login rfl hr hs hne hst
  exact ⟨_, _, _, _, _, hr, hs, hne, hst, by decide +kernel, hsent, hrecv, u, path, gen, v, hsplit,
    hpath, hdvd⟩

/-- While a connection is set up, a login of another version is answered with a refusal. -/
def refusedInWindow : List Act :=
  demoLogin 9 64 ++ [.packet (demoPacket msgLogin 2 9 64) true]

theorem refusedInWindow_run : (run (step (demoCfg 3)) (fun _ _ _ => true) (protoInit 64 8) []
    refusedInWindow).isSome = true := by decide +kernel

theorem refusedInWindow_step : ((final _ _ _ _ refusedInWindow_run).1.step (demoCfg 3)
    (.connect (demoEnv 9))).isSome = true := by decide +kernel

/-- The refused login leaves no trace in the device, and the connection goes through. -/
theorem login_processed_in_window :
    ∃ s h a s' es, Reaches (step (demoCfg 3)) (fun _ _ _ => True) (protoInit 64 8) s h ∧
      s.step (demoCfg 3) a = some (s', es) ∧ s.state ≠ .connected ∧ s'.state = .connected ∧
      .loginRefused (demoPacket msgLogin 2 9 64) loginStatusProtoMismatch ∈
        since Event.isSnapshot h := by
  have hr := Reaches.of_final (fun _ _ _ => True) (fun _ _ _ _ => trivial) refusedInWindow_run
  exact ⟨_, _, _, _, _, hr, (Option.some_get refusedInWindow_step).symm, by decide +kernel,
    by decide +kernel, by decide +kernel⟩

end OdinLink.Proto
