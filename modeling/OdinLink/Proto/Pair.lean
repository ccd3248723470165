import OdinLink.Proto.Lifecycle

/-!
# Two devices and the control channel between them

Logins and responses travel in no particular order; each is delivered at most once and may be lost.
A logout can come at any time.
-/

namespace OdinLink.Proto

open History

inductive Side where
  | left
  | right
  deriving DecidableEq, Repr

def Side.other : Side → Side
  | left => right
  | right => left

@[simp] theorem Side.other_other (i : Side) : i.other.other = i := by cases i <;> rfl

@[simp] theorem Side.other_ne (i : Side) : i.other ≠ i := by cases i <;> simp [Side.other]

theorem Side.eq_other {i j : Side} (hij : i ≠ j) : i = j.other := by
  revert hij
  cases i <;> cases j <;> simp [Side.other]

/-- Two devices; `requests i` and `replies i` are on their way to device `i`. -/
structure Pair where
  node : Side → Node
  requests : Side → List Packet
  replies : Side → List LoginResponse

/-- The route in a packet is rewritten on its way, to the one under which the receiver knows the
sender. -/
def Packet.routed (p : Packet) (route : UInt64) : Packet :=
  {p with hdr := {p.hdr with routeHi := upper32 route, routeLo := lower32 route}}

def requestsIn (es : List Event) : List Packet :=
  es.filterMap fun e => match e with
    | .loginRequested p => some p
    | _ => none

def repliesIn (es : List Event) : List LoginResponse :=
  es.filterMap fun e => match e with
    | .responded r => some r
    | _ => none

theorem mem_requestsIn {es : List Event} {p : Packet} :
    p ∈ requestsIn es ↔ .loginRequested p ∈ es := by
  simp only [requestsIn, List.mem_filterMap]
  constructor
  · rintro ⟨e, he, hp⟩
    split at hp
    · cases hp
      exact he
    · contradiction
  · exact fun he => ⟨_, he, rfl⟩

theorem mem_repliesIn {es : List Event} {r : LoginResponse} :
    r ∈ repliesIn es ↔ .responded r ∈ es := by
  simp only [repliesIn, List.mem_filterMap]
  constructor
  · rintro ⟨e, he, hr⟩
    split at hr
    · cases hr
      exact he
    · contradiction
  · exact fun he => ⟨_, he, rfl⟩

namespace Pair

def init (nodes : Side → Node) : Pair := ⟨nodes, fun _ => [], fun _ => []⟩

def admits (l : Pair) (i : Side) : Act → Bool
  | .packet p _ => p.hdr.type = msgLogout || decide (p ∈ l.requests i)
  | .login (some r) => decide (r ∈ l.replies i)
  | _ => true

def taken (l : Pair) (i : Side) : Act → List Packet × List LoginResponse
  | .packet p _ => ((l.requests i).erase p, l.replies i)
  | .login (some r) => (l.requests i, (l.replies i).erase r)
  | _ => (l.requests i, l.replies i)

def step (cfg : Side → Config) (l : Pair) (a : Side × Act) : Option (Pair × List (Side × Event)) :=
  if l.admits a.1 a.2 then
    match (l.node a.1).step (cfg a.1) a.2 with
    | none => none
    | some (s, es) =>
      let j := a.1.other
      some (⟨fun i => if i = a.1 then s else l.node i,
        fun i => if i = a.1 then (l.taken a.1 a.2).1
          else l.requests j ++ (requestsIn es).map fun p => p.routed (cfg j).route,
        fun i => if i = a.1 then (l.taken a.1 a.2).2 else l.replies j ++ repliesIn es⟩,
        es.map (Prod.mk a.1))
  else none

end Pair

def eventsOf (i : Side) (h : List (Side × Event)) : List Event :=
  h.filterMap fun e => if e.1 = i then some e.2 else none

theorem eventsOf_append_self (i : Side) (h : List (Side × Event)) (es : List Event) :
    eventsOf i (h ++ es.map (Prod.mk i)) = eventsOf i h ++ es := by
  simp [eventsOf, List.filterMap_append, List.filterMap_map]

theorem eventsOf_append_other {i j : Side} (hij : i ≠ j) (h : List (Side × Event))
    (es : List Event) : eventsOf i (h ++ es.map (Prod.mk j)) = eventsOf i h := by
  have hne : ¬ j = i := fun he => hij he.symm
  simp [eventsOf, List.filterMap_append, List.filterMap_map, hne]

def Incoming (P : Packet → Prop) (Q : LoginResponse → Prop) : Act → Prop
  | .packet p _ => p.hdr.type = msgLogout ∨ P p
  | .login (some r) => Q r
  | _ => True

namespace Pair
variable {cfg : Side → Config} {l l' : Pair} {i : Side} {a : Act} {es : List (Side × Event)}

theorem step_eq (hs : l.step cfg (i, a) = some (l', es)) :
    l.admits i a = true ∧ ∃ s' es', (l.node i).step (cfg i) a = some (s', es') ∧
      es = es'.map (Prod.mk i) ∧ l'.node i = s' ∧ l'.node i.other = l.node i.other ∧
      l'.requests i = (l.taken i a).1 ∧
      l'.requests i.other =
        l.requests i.other ++ (requestsIn es').map (fun p => p.routed (cfg i.other).route) ∧
      l'.replies i = (l.taken i a).2 ∧
      l'.replies i.other = l.replies i.other ++ repliesIn es' := by
  simp only [step] at hs
  split at hs
  · rename_i hadm
    split at hs
    · contradiction
    · rename_i s' es' hstep
      cases hs
      exact ⟨hadm, s', es', hstep, rfl, by simp, by simp, by simp, by simp, by simp, by simp⟩
  · contradiction

theorem mem_taken_requests {p : Packet} (hp : p ∈ (l.taken i a).1) : p ∈ l.requests i := by
  unfold taken at hp
  split at hp
  · exact List.mem_of_mem_erase hp
  · exact hp
  · exact hp

theorem mem_taken_replies {r : LoginResponse} (hr : r ∈ (l.taken i a).2) : r ∈ l.replies i := by
  unfold taken at hr
  split at hr
  · exact hr
  · exact List.mem_of_mem_erase hr
  · exact hr

theorem incoming_of_admits {P : Packet → Prop} {Q : LoginResponse → Prop}
    (hP : ∀ p ∈ l.requests i, P p) (hQ : ∀ r ∈ l.replies i, Q r) (ha : l.admits i a = true) :
    Incoming P Q a := by
  unfold admits at ha
  unfold Incoming
  split at ha
  · rw [Bool.or_eq_true, decide_eq_true_eq, decide_eq_true_eq] at ha
    exact ha.imp_right (hP _)
  · exact hQ _ (of_decide_eq_true ha)
  · trivial

/-- Let every message a device sends be as `P` and `Q` say, provided all it received were. Then
each device of the pair runs as one that receives only such messages. -/
theorem components (P : Side → Packet → Prop) (Q : Side → LoginResponse → Prop)
    (nodeOk : Side → Node → List Event → Act → Prop)
    {ok : Pair → List (Side × Event) → Side × Act → Prop} {nodes : Side → Node}
    {h : List (Side × Event)}
    (hok : ∀ l h i a, ok l h (i, a) → Incoming (P i) (Q i) a →
      nodeOk i (l.node i) (eventsOf i h) a)
    (hsend : ∀ i s h a s' es, Reaches (Node.step (cfg i)) (nodeOk i) (nodes i) s h →
      s.step (cfg i) a = some (s', es) →
      (∀ p, .loginRequested p ∈ es → P i.other (p.routed (cfg i.other).route)) ∧
        ∀ r, .responded r ∈ es → Q i.other r)
    (hr : Reaches (step cfg) ok (init nodes) l h) (i : Side) :
    Reaches (Node.step (cfg i)) (nodeOk i) (nodes i) (l.node i) (eventsOf i h) ∧
      (∀ p ∈ l.requests i, P i p) ∧ ∀ r ∈ l.replies i, Q i r := by
  induction hr generalizing i with
  | start => exact ⟨.start, by simp [init], by simp [init]⟩
  | @next l l' h es a _ ha hs ih =>
    obtain ⟨j, a⟩ := a
    obtain ⟨hadm, s', es', hstep, rfl, hnode, hother, hreq, hreqo, hrep, hrepo⟩ := step_eq hs
    -- what device `j` takes from the channel was sent by a device that keeps to `P` and `Q`
    obtain ⟨hrun, hP, hQ⟩ := ih j
    by_cases hij : i = j
    · subst hij
      refine ⟨?_, ?_, ?_⟩
      · rw [eventsOf_append_self, hnode]
        exact .next hrun (hok l h i a ha (incoming_of_admits hP hQ hadm)) hstep
      · intro p hp
        rw [hreq] at hp
        exact hP p (mem_taken_requests hp)
      · intro r hr
        rw [hrep] at hr
        exact hQ r (mem_taken_replies hr)
    -- the other device stands still, but messages for it may be on their way now
    · obtain rfl := Side.eq_other hij
      obtain ⟨hrun', hP', hQ'⟩ := ih j.other
      obtain ⟨hsendP, hsendQ⟩ := hsend j _ _ a s' es' hrun hstep
      refine ⟨?_, ?_, ?_⟩
      · rw [eventsOf_append_other hij, hother]
        exact hrun'
      · intro p hp
        rw [hreqo] at hp
        rcases List.mem_append.mp hp with hp | hp
        · exact hP' p hp
        · obtain ⟨q, hq, rfl⟩ := List.mem_map.mp hp
          exact hsendP q (mem_requestsIn.mp hq)
      · intro r hr
        rw [hrepo] at hr
        rcases List.mem_append.mp hr with hr | hr
        · exact hQ' r hr
        · exact hsendQ r (mem_repliesIn.mp hr)

end Pair

end OdinLink.Proto
