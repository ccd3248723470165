import OdinLink.Driver.RawRanges
import OdinLink.Lib.History

/-!
# Which buffer is at the back

For each direction the kernel keeps the indices of a front and a back buffer: a submission uses the
front one. A handle of the library maps all four buffers when it is opened, and follows the swaps
with an index of its own.
-/

namespace OdinLink.DoubleBuffer

structure Buffer where
  dir : Direction
  index : Fin 2
  deriving DecidableEq, Repr

structure Indices where
  front : Fin 2
  back : Fin 2
  swappedSincePost : Bool
  apart : back ≠ front

def Indices.start : Indices := ⟨0, 1, false, by decide⟩

def Indices.swap (r : Indices) : Indices := ⟨r.back, r.front, true, r.apart.symm⟩

structure Device where
  tx : Indices
  rx : Indices

namespace Device

def ring (dev : Device) : Direction → Indices
  | .tx => dev.tx
  | .rx => dev.rx

def swap (dev : Device) : Direction → Device
  | .tx => {dev with tx := dev.tx.swap}
  | .rx => {dev with rx := dev.rx.swap}

def backBuffer (dev : Device) (dir : Direction) : Buffer := ⟨dir, (dev.ring dir).back⟩

def frontBuffer (dev : Device) (dir : Direction) : Buffer := ⟨dir, (dev.ring dir).front⟩

end Device

def mmapTxBuf0 : UInt64 := 0x00000000
def mmapTxBuf1 : UInt64 := 0x10000000
def mmapRxBuf0 : UInt64 := 0x20000000
def mmapRxBuf1 : UInt64 := 0x30000000

def mmapBuffer (offset : UInt64) : Option Buffer :=
  if offset = mmapTxBuf0 then some ⟨.tx, 0⟩
  else if offset = mmapTxBuf1 then some ⟨.tx, 1⟩
  else if offset = mmapRxBuf0 then some ⟨.rx, 0⟩
  else if offset = mmapRxBuf1 then some ⟨.rx, 1⟩
  else none

structure Handle where
  txBufs : Fin 2 → Buffer
  rxBufs : Fin 2 → Buffer
  txBack : Fin 2
  rxBack : Fin 2

/-- Outcomes of the calls that opening a device makes; `mmap` says whether the mapping at an offset
succeeds where the driver knows the offset. -/
structure OpenEnv where
  calloc : Bool
  openFile : Bool
  getBufInfo : Bool
  mmap : UInt64 → Bool

def OpenEnv.map (env : OpenEnv) (offset : UInt64) : Option Buffer :=
  if env.mmap offset then mmapBuffer offset else none

/-- `odl_tb5_mmap_buffers`. What was mapped before a failure is unmapped again. -/
def mmapBuffers (env : OpenEnv) : Option Handle :=
  if !env.getBufInfo then none
  else do
    let tx0 ← env.map mmapTxBuf0
    let tx1 ← env.map mmapTxBuf1
    let rx0 ← env.map mmapRxBuf0
    let rx1 ← env.map mmapRxBuf1
    some ⟨fun i => if i = 0 then tx0 else tx1, fun i => if i = 0 then rx0 else rx1, 1, 1⟩

def openPath (env : OpenEnv) : Option Handle :=
  if !env.calloc then none
  else if !env.openFile then none
  else mmapBuffers env

namespace Handle

def txBuffer (h : Handle) : Buffer := h.txBufs h.txBack

def rxBuffer (h : Handle) : Buffer := h.rxBufs h.rxBack

/-- `odl_tb5_tx_buffer` and `odl_tb5_rx_buffer`. -/
def buffer (h : Handle) : Direction → Buffer
  | .tx => h.txBuffer
  | .rx => h.rxBuffer

def swap (h : Handle) : Direction → Handle
  | .tx => {h with txBack := 1 - h.txBack}
  | .rx => {h with rxBack := 1 - h.rxBack}

end Handle

structure State where
  dev : Device
  handles : List (Option Handle)

def State.start : State := ⟨⟨.start, .start⟩, []⟩

inductive Op where
  | openDev (env : OpenEnv)
  | close (i : Nat)
  | swap (i : Nat) (dir : Direction) (ioctl : Bool)

def step (s : State) : Op → State
  | .openDev env =>
    match openPath env with
    | none => s
    | some h => {s with handles := s.handles ++ [some h]}
  | .close i => {s with handles := s.handles.set i none}
  | .swap i dir ioctl =>
    match s.handles[i]? with
    | some (some h) =>
      if ioctl then ⟨s.dev.swap dir, s.handles.set i (some (h.swap dir))⟩ else s
    | _ => s

def State.Open (s : State) (i : Nat) (h : Handle) : Prop := s.handles[i]? = some (some h)

def Agrees (s : State) : Prop :=
  ∀ i h, s.Open i h → ∀ dir,
    h.buffer dir = s.dev.backBuffer dir ∧ h.buffer dir ≠ s.dev.frontBuffer dir

def Alone (s : State) : Op → Prop
  | .openDev env => (openPath env).isSome → ∀ dir, (s.dev.ring dir).back = 1
  | .close _ => True
  | .swap i _ ioctl => ioctl = true → (∃ h, s.Open i h) → ∀ j h, s.Open j h → j = i

section Sides

variable (dev : Device) (h : Handle) {dir d : Direction}

theorem Device.swap_ring_self (dir : Direction) :
    (dev.swap dir).ring dir = (dev.ring dir).swap := by
  cases dir <;> rfl

theorem Device.swap_ring_of_ne (hd : d ≠ dir) : (dev.swap dir).ring d = dev.ring d := by
  cases dir <;> cases d <;> first | rfl | exact absurd rfl hd

def Handle.back : Direction → Fin 2
  | .tx => h.txBack
  | .rx => h.rxBack

theorem Handle.swap_back_self (dir : Direction) : (h.swap dir).back dir = 1 - h.back dir := by
  cases dir <;> rfl

theorem Handle.swap_back_of_ne (hd : d ≠ dir) : (h.swap dir).back d = h.back d := by
  cases dir <;> cases d <;> first | rfl | exact absurd rfl hd

theorem other_eq {a b : Fin 2} (hab : a ≠ b) : 1 - a = b := by
  revert a b
  decide

def Handle.Mapped : Prop := ∀ i, h.txBufs i = ⟨.tx, i⟩ ∧ h.rxBufs i = ⟨.rx, i⟩

variable {h}

theorem Handle.Mapped.buffer (hm : h.Mapped) (dir : Direction) :
    h.buffer dir = ⟨dir, h.back dir⟩ := by
  cases dir with
  | tx => exact (hm h.txBack).1
  | rx => exact (hm h.rxBack).2

theorem Handle.Mapped.swap (hm : h.Mapped) (dir : Direction) : (h.swap dir).Mapped := by
  cases dir <;> exact hm

end Sides

section Opening

variable {env : OpenEnv} {h : Handle}

theorem OpenEnv.map_eq {offset : UInt64} {b : Buffer} (hmap : env.map offset = some b) :
    mmapBuffer offset = some b := by
  unfold OpenEnv.map at hmap
  split at hmap
  · exact hmap
  · exact absurd hmap.symm (Option.some_ne_none b)

theorem openPath_eq_some (hopen : openPath env = some h) :
    h.Mapped ∧ ∀ dir, h.back dir = 1 := by
  unfold openPath mmapBuffers at hopen
  split at hopen
  · exact absurd hopen.symm (Option.some_ne_none h)
  split at hopen
  · exact absurd hopen.symm (Option.some_ne_none h)
  split at hopen
  · exact absurd hopen.symm (Option.some_ne_none h)
  simp only [Option.bind_eq_bind, Option.bind_eq_some_iff, Option.some.injEq] at hopen
  obtain ⟨tx0, htx0, tx1, htx1, rx0, hrx0, rx1, hrx1, rfl⟩ := hopen
  obtain rfl : ⟨.tx, 0⟩ = tx0 := Option.some.inj (OpenEnv.map_eq htx0)
  obtain rfl : ⟨.tx, 1⟩ = tx1 := Option.some.inj (OpenEnv.map_eq htx1)
  obtain rfl : ⟨.rx, 0⟩ = rx0 := Option.some.inj (OpenEnv.map_eq hrx0)
  obtain rfl : ⟨.rx, 1⟩ = rx1 := Option.some.inj (OpenEnv.map_eq hrx1)
  constructor
  · intro i
    obtain rfl | rfl : i = 0 ∨ i = 1 := by omega
    · exact ⟨rfl, rfl⟩
    · exact ⟨rfl, rfl⟩
  · intro dir
    cases dir <;> rfl

end Opening

section Steps

variable {s : State} {i j : Nat} {h h' : Handle} {dir : Direction}

theorem open_append_iff (dev : Device) (handles : List (Option Handle)) :
    (State.mk dev (handles ++ [some h])).Open j h' ↔
      (State.mk dev handles).Open j h' ∨ j = handles.length ∧ h' = h := by
  unfold State.Open
  dsimp only
  rw [List.getElem?_append]
  split
  · rename_i hlt
    exact ⟨.inl, fun ho => ho.resolve_right fun hj => absurd hj.1 (Nat.ne_of_lt hlt)⟩
  · rename_i hge
    have hlen : handles.length ≤ j := Nat.not_lt.mp hge
    have hlast : j - handles.length = 0 ↔ j = handles.length := by omega
    rw [List.getElem?_eq_none hlen, List.getElem?_singleton]
    simp only [hlast, reduceCtorEq, false_or]
    split
    · rename_i hj
      simp [hj, eq_comm]
    · rename_i hj
      simp [hj]

theorem open_set_iff (dev dev' : Device) (handles : List (Option Handle)) (o : Option Handle)
    (hi : i < handles.length) :
    (State.mk dev' (handles.set i o)).Open j h' ↔
      j ≠ i ∧ (State.mk dev handles).Open j h' ∨ j = i ∧ o = some h' := by
  unfold State.Open
  dsimp only
  rw [List.getElem?_set]
  split
  · rename_i hij
    subst hij
    simp [hi]
  · rename_i hij
    have hji : j ≠ i := fun h => hij h.symm
    simp [hji]

def State.Level (s : State) : Prop :=
  ∀ i h, s.Open i h → ∀ dir, h.back dir = (s.dev.ring dir).back

def State.Mapped (s : State) : Prop := ∀ i h, s.Open i h → h.Mapped

theorem agrees_iff_level (hm : s.Mapped) : Agrees s ↔ s.Level := by
  constructor
  · intro ha i h ho dir
    have hback := (ha i h ho dir).1
    rw [(hm i h ho).buffer dir] at hback
    exact (Buffer.mk.inj hback).2
  · intro hl i h ho dir
    have hback := hl i h ho dir
    rw [(hm i h ho).buffer dir, hback]
    refine ⟨rfl, fun hfront => (s.dev.ring dir).apart ?_⟩
    exact (Buffer.mk.inj hfront).2

theorem level_openDev {env : OpenEnv} (hl : s.Level) (hopen : openPath env = some h) :
    (State.mk s.dev (s.handles ++ [some h])).Level ↔ ∀ dir, (s.dev.ring dir).back = 1 := by
  have hback := (openPath_eq_some hopen).2
  constructor
  · intro hnew dir
    have hlast := hnew s.handles.length h ((open_append_iff _ _).mpr (.inr ⟨rfl, rfl⟩)) dir
    rw [hback dir] at hlast
    exact hlast.symm
  · intro hone j h' ho dir
    rcases (open_append_iff _ _).mp ho with hold | ⟨_, rfl⟩
    · exact hl j h' hold dir
    · rw [hback dir]
      exact (hone dir).symm

theorem level_swap (hl : s.Level) (ho : s.Open i h) (dir : Direction) :
    (State.mk (s.dev.swap dir) (s.handles.set i (some (h.swap dir)))).Level ↔
      ∀ j h', s.Open j h' → j = i := by
  have hi : i < s.handles.length := (List.getElem?_eq_some_iff.mp ho).1
  constructor
  · intro hnew j h' hj
    by_contra hji
    have hback := hnew j h' ((open_set_iff s.dev _ _ _ hi).mpr (.inl ⟨hji, hj⟩)) dir
    dsimp only at hback
    rw [hl j h' hj dir, Device.swap_ring_self] at hback
    exact (s.dev.ring dir).apart hback
  · intro honly j h' hj d
    rcases (open_set_iff s.dev _ _ _ hi).mp hj with ⟨hji, hold⟩ | ⟨_, hnew⟩
    · exact absurd (honly j h' hold) hji
    · obtain rfl := Option.some.inj hnew
      dsimp only
      by_cases hd : d = dir
      · subst hd
        rw [Handle.swap_back_self, Device.swap_ring_self, hl i h ho d]
        exact other_eq (s.dev.ring d).apart
      · rw [Handle.swap_back_of_ne h hd, Device.swap_ring_of_ne s.dev hd]
        exact hl i h ho d

theorem open_of_close {s : State} (ho : (step s (.close i)).Open j h) : s.Open j h := by
  unfold State.Open at ho ⊢
  simp only [step, List.getElem?_set] at ho
  split at ho
  · split at ho <;> simp at ho
  · exact ho

theorem step_level (hl : s.Level) (op : Op) : (step s op).Level ↔ Alone s op := by
  cases op with
  | openDev env =>
    simp only [step, Alone]
    cases hopen : openPath env with
    | none => exact ⟨fun _ hsome => absurd hsome Bool.false_ne_true, fun _ => hl⟩
    | some h =>
      dsimp only
      rw [level_openDev hl hopen]
      exact ⟨fun hone _ => hone, fun hone => hone rfl⟩
  | close i => exact ⟨fun _ => trivial, fun _ j h ho => hl j h (open_of_close ho)⟩
  | swap i dir ioctl =>
    simp only [step, Alone]
    split
    · rename_i h ho
      cases ioctl with
      | false => exact ⟨fun _ hio => absurd hio Bool.false_ne_true, fun _ => hl⟩
      | true =>
        rw [if_pos rfl, level_swap hl ho dir]
        exact ⟨fun honly _ _ => honly, fun honly => honly rfl ⟨h, ho⟩⟩
    · rename_i hnone
      exact ⟨fun _ _ ⟨h, ho⟩ => absurd ho (hnone h), fun _ => hl⟩

theorem step_mapped (hm : s.Mapped) (op : Op) : (step s op).Mapped := by
  cases op with
  | openDev env =>
    simp only [step]
    split
    · exact hm
    · rename_i h hopen
      intro j h' ho
      rcases (open_append_iff _ _).mp ho with hold | ⟨_, rfl⟩
      · exact hm j h' hold
      · exact (openPath_eq_some hopen).1
  | close i => exact fun j h ho => hm j h (open_of_close ho)
  | swap i dir ioctl =>
    simp only [step]
    split
    · rename_i h hget
      split
      · intro j h' ho
        have hi : i < s.handles.length := (List.getElem?_eq_some_iff.mp hget).1
        rcases (open_set_iff s.dev _ _ _ hi).mp ho with ⟨_, hold⟩ | ⟨_, hnew⟩
        · exact hm j h' hold
        · obtain rfl := Option.some.inj hnew
          exact (hm i h hget).swap dir
      · exact hm
    · exact hm

end Steps

theorem no_handle {i : Nat} {h : Handle} : ¬ State.start.Open i h := by
  simp [State.Open, State.start]

/-- Throughout a sequence of operations the handles agree with the kernel exactly when each is
opened at the starting position of the indices and only a handle that is alone swaps. -/
theorem back_buffers_agree_iff_alone (ops : List Op) :
    History.Throughout step Agrees State.start ops ↔
      History.Meets step Alone State.start ops := by
  have hinv : ∀ s op, State.Mapped s → State.Mapped (step s op) := fun s op hm => step_mapped hm op
  refine History.throughout_iff_meets hinv ?_ ?_ ?_ ops
  · intro s op hm ha
    rw [agrees_iff_level (step_mapped hm op)]
    exact step_level ((agrees_iff_level hm).mp ha) op
  · exact fun i h ho => absurd ho no_handle
  · exact fun i h ho => absurd ho no_handle

def OpenEnv.ok : OpenEnv := ⟨true, true, true, fun _ => true⟩

/-- The second of two handles keeps its buffer when the first one swaps, and a handle opened after a
swap starts with the wrong one: both are given the buffer that the next submission takes. -/
theorem handle_given_the_front_buffer :
    let two : List Op := [.openDev .ok, .openDev .ok, .swap 0 .tx true]
    let again : List Op := [.openDev .ok, .swap 0 .rx true, .close 0, .openDev .ok]
    (∃ h, (two.foldl step State.start).Open 1 h ∧
      h.buffer .tx = (two.foldl step State.start).dev.frontBuffer .tx) ∧
    (∃ h, (again.foldl step State.start).Open 1 h ∧
      h.buffer .rx = (again.foldl step State.start).dev.frontBuffer .rx) ∧
    ¬ History.Throughout step Agrees State.start again := by
  refine ⟨⟨_, rfl, by decide⟩, ⟨_, rfl, by decide⟩, fun h => ?_⟩
  have hlast := h.2.2.2.2 1 _ rfl .rx
  exact absurd hlast.2 (by decide)

end OdinLink.DoubleBuffer
