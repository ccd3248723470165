import OdinLink.Driver.RingRelease

/-!
# The limit on bound devices

A probe counts its device before it does anything else, and refuses the service when the count
exceeds the limit. The error exits behind the allocation of the index give the place back, and so
does the removal.
-/

namespace OdinLink

open History

structure ServiceConfig where
  maxDevices : Int
  ringSize : Nat
  fallbackMin : Nat

structure BoundDevice where
  index : Nat
  rings : RingDevice

structure Services where
  boundCount : Int
  bound : List BoundDevice

/-- Outcomes of the calls a probe makes: `idaAlloc` is the index, `fails` tells which of the calls
that obtain something for the rings fail. -/
structure ProbeEnv where
  kzalloc : Bool
  idaAlloc : Option Nat
  chardevCreate : Bool
  fails : Nat → Option RingErrno
  protoInit : Bool

inductive ProbeRet where
  | ok
  | noDev
  | noMem
  | ida
  | chardev
  | rings (e : RingErrno)
  | proto
  deriving DecidableEq, Repr

namespace Services

variable (cfg : ServiceConfig) (s : Services)

def count : Services := if 0 < cfg.maxDevices then {s with boundCount := s.boundCount + 1} else s

def uncount : Services := if 0 < cfg.maxDevices then {s with boundCount := s.boundCount - 1} else s

def probeDevice (env : ProbeEnv) (index : Nat) : Services × ProbeRet :=
  if !env.chardevCreate then (s.uncount cfg, .chardev)
  else
    let p := (RingDevice.fresh env.fails).probeRings cfg.fallbackMin cfg.ringSize
    match p.ret with
    | some e => (s.uncount cfg, .rings e)
    | none =>
      if !env.protoInit then (s.uncount cfg, .proto)
      else ({s with bound := s.bound ++ [⟨index, p.dev⟩]}, .ok)

def probe (env : ProbeEnv) : Services × ProbeRet :=
  let s := s.count cfg
  if 0 < cfg.maxDevices ∧ cfg.maxDevices < s.boundCount then (s.uncount cfg, .noDev)
  else if !env.kzalloc then (s, .noMem)
  else
    match env.idaAlloc with
    | none => (s, .ida)
    | some index => s.probeDevice cfg env index

def remove (i : Nat) : Services :=
  if i < s.bound.length then uncount cfg {s with bound := s.bound.eraseIdx i} else s

end Services

inductive ServiceCall where
  | probe (env : ProbeEnv)
  | remove (i : Nat)

namespace Services

def step (cfg : ServiceConfig) (s : Services) : ServiceCall → Services
  | .probe env => (s.probe cfg env).1
  | .remove i => s.remove cfg i

structure LimitCounts (cfg : ServiceConfig) (s : Services) : Prop where
  count : s.boundCount = s.bound.length
  limit : ∀ env, (s.probe cfg env).2 = .noDev → cfg.maxDevices ≤ s.bound.length

def Equipped (cfg : ServiceConfig) (s : Services) : ServiceCall → Prop
  | .probe env => s.boundCount < cfg.maxDevices → env.kzalloc = true ∧ env.idaAlloc.isSome = true
  | .remove _ => True

section Limit
variable {cfg : ServiceConfig} {s : Services}

theorem probeDevice_cases (cfg : ServiceConfig) (s : Services) (env : ProbeEnv) (index : Nat) :
    (s.probeDevice cfg env index).2 ≠ .noDev ∧
      ((s.probeDevice cfg env index).1 = s.uncount cfg ∨
        ∃ dev, (s.probeDevice cfg env index).1 = {s with bound := s.bound ++ [dev]}) := by
  unfold probeDevice
  split
  · exact ⟨by simp, .inl rfl⟩
  · dsimp only
    split
    · exact ⟨by simp, .inl rfl⟩
    · split
      · exact ⟨by simp, .inl rfl⟩
      · exact ⟨by simp, .inr ⟨_, rfl⟩⟩

theorem probe_cases (hmax : 0 < cfg.maxDevices) (env : ProbeEnv) :
    (cfg.maxDevices ≤ s.boundCount ∧ s.probe cfg env = (s, .noDev)) ∨
    (s.boundCount < cfg.maxDevices ∧ (s.probe cfg env).2 ≠ .noDev ∧
      (¬ (env.kzalloc = true ∧ env.idaAlloc.isSome = true) ∧
          (s.probe cfg env).1 = {s with boundCount := s.boundCount + 1} ∨
        (env.kzalloc = true ∧ env.idaAlloc.isSome = true) ∧ ((s.probe cfg env).1 = s ∨
          ∃ dev, (s.probe cfg env).1 = ⟨s.boundCount + 1, s.bound ++ [dev]⟩))) := by
  have hcount : s.count cfg = {s with boundCount := s.boundCount + 1} := if_pos hmax
  have hback : Services.uncount cfg {s with boundCount := s.boundCount + 1} = s := by
    rw [uncount, if_pos hmax]
    simp
  unfold probe
  rw [hcount]
  dsimp only
  rw [hback]
  by_cases hfull : cfg.maxDevices ≤ s.boundCount
  · rw [if_pos ⟨hmax, by omega⟩]
    exact .inl ⟨hfull, rfl⟩
  · rw [if_neg (by omega)]
    refine .inr ⟨by omega, ?_⟩
    cases hk : env.kzalloc with
    | false => exact ⟨by simp, .inl ⟨by simp, rfl⟩⟩
    | true =>
      cases hida : env.idaAlloc with
      | none => exact ⟨by simp, .inl ⟨by simp, rfl⟩⟩
      | some index =>
        have hdevice := probeDevice_cases cfg {s with boundCount := s.boundCount + 1} env index
        rw [hback] at hdevice
        exact ⟨hdevice.1, .inr ⟨by simp, hdevice.2⟩⟩

theorem limitCounts_iff (hmax : 0 < cfg.maxDevices) :
    s.LimitCounts cfg ↔ s.boundCount = s.bound.length := by
  constructor
  · exact LimitCounts.count
  · intro h
    refine ⟨h, fun env hno => ?_⟩
    rcases probe_cases hmax env with ⟨hfull, -⟩ | ⟨-, hne, -⟩
    · exact h ▸ hfull
    · exact absurd hno hne

theorem probe_count_iff (hmax : 0 < cfg.maxDevices) (env : ProbeEnv)
    (hs : s.boundCount = s.bound.length) :
    (s.probe cfg env).1.boundCount = (s.probe cfg env).1.bound.length ↔
      s.Equipped cfg (.probe env) := by
  rcases probe_cases hmax env with ⟨hfull, heq⟩ | ⟨hroom, -, ⟨hnot, heq⟩ | ⟨hyes, heq | ⟨dev, heq⟩⟩⟩
  · rw [heq]
    exact iff_of_true hs fun hlt => absurd hfull (Int.not_le.mpr hlt)
  · rw [heq]
    refine iff_of_false ?_ fun h => hnot (h hroom)
    dsimp only
    omega
  · rw [heq]
    exact iff_of_true hs fun _ => hyes
  · rw [heq]
    refine iff_of_true ?_ fun _ => hyes
    rw [List.length_append, List.length_singleton, hs]
    rfl

theorem remove_count (hmax : 0 < cfg.maxDevices) (i : Nat) (hs : s.boundCount = s.bound.length) :
    (s.remove cfg i).boundCount = (s.remove cfg i).bound.length := by
  unfold remove
  split
  · rename_i hi
    rw [uncount, if_pos hmax]
    simp only [List.length_eraseIdx, if_pos hi]
    omega
  · exact hs

end Limit

end Services

/-- Through probes and removals, the counter equals the number of bound devices, so that the limit
refuses a service only when so many devices are bound, exactly when every probe within the limit
gets memory for its device and an index. -/
theorem bound_count_iff_equipped (cfg : ServiceConfig) (hmax : 0 < cfg.maxDevices)
    (calls : List ServiceCall) :
    Throughout (Services.step cfg) (Services.LimitCounts cfg) ⟨0, []⟩ calls ↔
      Meets (Services.step cfg) (Services.Equipped cfg) ⟨0, []⟩ calls := by
  have htrue (s : Services) (call : ServiceCall) (_ : True) : True := trivial
  refine throughout_iff_meets htrue ?_ trivial ((Services.limitCounts_iff hmax).mpr rfl) calls
  intro s call _ hs
  have hcount := (Services.limitCounts_iff hmax).mp hs
  rw [Services.limitCounts_iff hmax]
  cases call with
  | probe env => exact Services.probe_count_iff hmax env hcount
  | remove i => exact iff_of_true (Services.remove_count hmax i hcount) trivial

def ProbeEnv.fine : ProbeEnv := ⟨true, some 0, true, fun _ => none, true⟩

theorem bound_count_returned :
    let cfg : ServiceConfig := ⟨1, 4096, 512⟩
    let calls : List ServiceCall :=
      [.probe .fine, .remove 0, .probe {ProbeEnv.fine with chardevCreate := false}, .probe .fine]
    Throughout (Services.step cfg) (Services.LimitCounts cfg) ⟨0, []⟩ calls := by
  intro cfg calls
  apply (bound_count_iff_equipped cfg (by decide) calls).mpr
  exact ⟨fun _ => ⟨rfl, rfl⟩, trivial, fun _ => ⟨rfl, rfl⟩, fun _ => ⟨rfl, rfl⟩, trivial⟩

/-- With a limit of one device: the first probe finds no memory for its device, and every later one
is refused although no device is bound. -/
theorem failed_probe_keeps_the_place :
    let cfg : ServiceConfig := ⟨1, 4096, 512⟩
    let s := Services.step cfg ⟨0, []⟩ (.probe {ProbeEnv.fine with kzalloc := false})
    s.bound.length = 0 ∧ s.boundCount = 1 ∧ (s.probe cfg .fine).2 = .noDev ∧
      ¬ s.LimitCounts cfg := by
  intro cfg s
  have hcount : s.boundCount = 1 := by decide
  have hbound : s.bound.length = 0 := by decide
  refine ⟨hbound, hcount, by decide, fun h => ?_⟩
  rw [Services.limitCounts_iff (by decide), hcount, hbound] at h
  exact absurd h (by decide)

end OdinLink
