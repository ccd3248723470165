import Mathlib.Data.List.Nodup
import Mathlib.Data.List.Perm.Basic
import OdinLink.Lib.History

/-!
# Memory regions and their keys

A context keeps its memory regions in an array. The key of a dma-buf region is the lower half of the
address of its structure on the heap, that of a region of host memory is 0.
-/

namespace OdinLink

open History

section SwapRemove

variable {α : Type}

def swapRemove (xs : List α) (i : Nat) : List α :=
  match xs.getLast? with
  | none => xs
  | some x => (xs.set i x).dropLast

theorem swapRemove_perm {xs : List α} {i : Nat} (hi : i < xs.length) :
    (swapRemove xs i).Perm (xs.eraseIdx i) := by
  rcases List.eq_nil_or_concat xs with rfl | ⟨init, x, rfl⟩
  · simp at hi
  · rw [List.concat_eq_append, List.length_append, List.length_singleton] at hi
    have hlast : swapRemove (init.concat x) i = ((init ++ [x]).set i x).dropLast := by
      simp [swapRemove]
    rw [hlast, List.concat_eq_append]
    by_cases hinit : i < init.length
    · rw [List.set_append_left _ _ hinit, List.dropLast_concat,
        List.eraseIdx_append_of_lt_length hinit]
      exact (List.set_perm_cons_eraseIdx hinit x).trans (List.perm_append_singleton _ _).symm
    · have hend : i = init.length := by omega
      subst hend
      simp [List.eraseIdx_append_of_length_le]

end SwapRemove

def maxMrs : Nat := 512

inductive MrType where
  | host
  | dmabuf
  deriving DecidableEq, Repr

/-- `address` is where the structure lies on the heap. -/
structure Mr where
  address : UInt64
  addr : UInt64
  length : UInt64
  lkey : UInt32
  rkey : UInt32
  mrType : MrType
  accessFlags : Int32
  hostAddr : UInt64
  hostLength : UInt64
  dmabufFd : Int32
  dmabufOffset : UInt64
  iova : UInt64
  deriving DecidableEq, Repr

/-- The first `nmrs` entries of the array. -/
structure VerbsContext where
  mrs : List Mr
  deriving DecidableEq, Repr

namespace VerbsContext

variable (ctx : VerbsContext)

def addMr (mr : Mr) : VerbsContext × Option Mr :=
  if maxMrs ≤ ctx.mrs.length then (ctx, none) else (⟨ctx.mrs ++ [mr]⟩, some mr)

/-- `calloc` is the address of the new structure, if there is one. -/
def regMr (calloc : Option UInt64) (addr length hcaVa : UInt64) (access : Int32) :
    VerbsContext × Option Mr :=
  match calloc with
  | none => (ctx, none)
  | some mr =>
    ctx.addMr {
      address := mr, addr := addr, length := length, lkey := 0, rkey := 0, mrType := .host,
      accessFlags := access, hostAddr := addr, hostLength := length, dmabufFd := -1,
      dmabufOffset := 0, iova := if hcaVa ≠ 0 then hcaVa else addr}

/-- `dup` is what `F_DUPFD_CLOEXEC` answers. -/
def regDmabufMr (calloc : Option UInt64) (dup : Int32) (offset length iova : UInt64)
    (access : Int32) : VerbsContext × Option Mr :=
  match calloc with
  | none => (ctx, none)
  | some mr =>
    if dup < 0 then (ctx, none)
    else
      ctx.addMr {
        address := mr, addr := 0, length := length, lkey := mr.toUInt32, rkey := mr.toUInt32,
        mrType := .dmabuf, accessFlags := access, hostAddr := 0, hostLength := 0, dmabufFd := dup,
        dmabufOffset := offset, iova := iova}

/-- The region is known by the address of its structure. -/
def deregMr (mr : UInt64) : VerbsContext :=
  match ctx.mrs.findIdx? (·.address == mr) with
  | none => ctx
  | some i => ⟨swapRemove ctx.mrs i⟩

def findDmabuf (lkey : UInt32) : Option Mr :=
  if lkey = 0 then none else ctx.mrs.find? fun mr => mr.lkey == lkey && mr.mrType == .dmabuf

def lookupDmabuf (lkey : UInt32) : Int32 :=
  match ctx.findDmabuf lkey with
  | none => -1
  | some mr => mr.dmabufFd

end VerbsContext

inductive MrCall where
  | regMr (calloc : Option UInt64) (addr length hcaVa : UInt64) (access : Int32)
  | regDmabufMr (calloc : Option UInt64) (dup : Int32) (offset length iova : UInt64)
      (access : Int32)
  | deregMr (mr : UInt64)
  deriving DecidableEq, Repr

namespace VerbsContext

def step (ctx : VerbsContext) : MrCall → VerbsContext
  | .regMr calloc addr length hcaVa access => (ctx.regMr calloc addr length hcaVa access).1
  | .regDmabufMr calloc dup offset length iova access =>
    (ctx.regDmabufMr calloc dup offset length iova access).1
  | .deregMr mr => ctx.deregMr mr

def dmabufKeys (ctx : VerbsContext) : List UInt32 :=
  (ctx.mrs.filter (·.mrType == .dmabuf)).map Mr.lkey

structure KeysIdentify (ctx : VerbsContext) : Prop where
  distinct : ctx.dmabufKeys.Nodup
  not_host : ∀ mr ∈ ctx.mrs, mr.mrType = .dmabuf → ∀ other ∈ ctx.mrs, other.mrType = .host →
    mr.lkey ≠ other.lkey
  dmabuf_found : ∀ mr ∈ ctx.mrs, mr.mrType = .dmabuf → ctx.lookupDmabuf mr.lkey = mr.dmabufFd
  host_not_found : ∀ mr ∈ ctx.mrs, mr.mrType = .host → ctx.lookupDmabuf mr.lkey = -1

def Fresh (ctx : VerbsContext) : MrCall → Prop
  | .regDmabufMr (some p) dup _ _ _ _ =>
    0 ≤ dup → ctx.mrs.length < maxMrs →
      p.toUInt32 ≠ 0 ∧ ∀ mr ∈ ctx.mrs, mr.mrType = .dmabuf → p.toUInt32 ≠ mr.address.toUInt32
  | _ => True

structure Keyed (mr : Mr) : Prop where
  host : mr.mrType = .host → mr.lkey = 0
  dmabuf : mr.mrType = .dmabuf → mr.lkey = mr.address.toUInt32
  fd : mr.mrType = .dmabuf → ¬ mr.dmabufFd < 0

section Keys

variable {ctx : VerbsContext}

theorem mem_dmabufKeys {lkey : UInt32} : lkey ∈ ctx.dmabufKeys ↔
    ∃ mr ∈ ctx.mrs, mr.mrType = .dmabuf ∧ mr.lkey = lkey := by
  simp [dmabufKeys, and_assoc]

theorem mem_of_findDmabuf {lkey : UInt32} {mr : Mr} (hfind : ctx.findDmabuf lkey = some mr) :
    mr ∈ ctx.mrs ∧ mr.mrType = .dmabuf := by
  unfold findDmabuf at hfind
  split at hfind
  · cases hfind
  · have hfound := List.find?_some hfind
    rw [Bool.and_eq_true, beq_iff_eq, beq_iff_eq] at hfound
    exact ⟨List.mem_of_find?_eq_some hfind, hfound.2⟩

theorem findDmabuf_of_nodup (hnodup : ctx.dmabufKeys.Nodup) {mr : Mr} (hmr : mr ∈ ctx.mrs)
    (htype : mr.mrType = .dmabuf) (hkey : mr.lkey ≠ 0) : ctx.findDmabuf mr.lkey = some mr := by
  rw [findDmabuf, if_neg hkey]
  have hmem : mr ∈ ctx.mrs.filter (·.mrType == .dmabuf) := by simp [hmr, htype]
  cases hfind : ctx.mrs.find? fun other => other.lkey == mr.lkey && other.mrType == .dmabuf with
  | none =>
    have hnone := List.find?_eq_none.mp hfind mr hmr
    simp [htype] at hnone
  | some other =>
    have hother := List.find?_some hfind
    simp only [Bool.and_eq_true, beq_iff_eq] at hother
    have hmem' : other ∈ ctx.mrs.filter (·.mrType == .dmabuf) := by
      simp [List.mem_of_find?_eq_some hfind, hother.2]
    rw [List.inj_on_of_nodup_map hnodup hmem' hmem hother.1]

theorem keysIdentify_iff (hkeyed : ∀ mr ∈ ctx.mrs, Keyed mr) :
    ctx.KeysIdentify ↔ ctx.dmabufKeys.Nodup ∧ 0 ∉ ctx.dmabufKeys := by
  constructor
  · intro h
    refine ⟨h.distinct, fun h0 => ?_⟩
    obtain ⟨mr, hmr, htype, hkey⟩ := mem_dmabufKeys.mp h0
    have hfound := h.dmabuf_found mr hmr htype
    rw [hkey] at hfound
    have hfd := (hkeyed mr hmr).fd htype
    rw [← hfound] at hfd
    exact hfd (by decide : (-1 : Int32) < 0)
  · rintro ⟨hnodup, h0⟩
    have hne {mr : Mr} (hmr : mr ∈ ctx.mrs) (htype : mr.mrType = .dmabuf) : mr.lkey ≠ 0 := by
      intro hkey
      exact h0 (mem_dmabufKeys.mpr ⟨mr, hmr, htype, hkey⟩)
    refine ⟨hnodup, ?_, ?_, ?_⟩
    · intro mr hmr htype other hother hhost
      rw [(hkeyed other hother).host hhost]
      exact hne hmr htype
    · intro mr hmr htype
      rw [lookupDmabuf, findDmabuf_of_nodup hnodup hmr htype (hne hmr htype)]
    · intro mr hmr hhost
      rw [lookupDmabuf, (hkeyed mr hmr).host hhost]
      rfl

theorem addMr_mrs (mr : Mr) :
    (ctx.addMr mr).1.mrs = if ctx.mrs.length < maxMrs then ctx.mrs ++ [mr] else ctx.mrs := by
  unfold addMr
  split
  · rw [if_neg (by omega)]
  · rw [if_pos (by omega)]

theorem addMr_keyed (hkeyed : ∀ mr ∈ ctx.mrs, Keyed mr) {mr : Mr} (hmr : Keyed mr) :
    ∀ other ∈ (ctx.addMr mr).1.mrs, Keyed other := by
  intro other hother
  rw [addMr_mrs] at hother
  split at hother
  · rcases List.mem_append.mp hother with hold | hnew
    · exact hkeyed other hold
    · rw [List.mem_singleton.mp hnew]
      exact hmr
  · exact hkeyed other hother

theorem deregMr_perm (mr : UInt64) :
    ∃ rest, (ctx.deregMr mr).mrs.Perm rest ∧ rest.Sublist ctx.mrs := by
  unfold deregMr
  cases hfind : ctx.mrs.findIdx? (·.address == mr) with
  | none => exact ⟨ctx.mrs, .refl _, .refl _⟩
  | some i =>
    obtain ⟨hi, -⟩ := List.findIdx?_eq_some_iff_getElem.mp hfind
    exact ⟨_, swapRemove_perm hi, List.eraseIdx_sublist _ _⟩

theorem step_keyed (call : MrCall) (hkeyed : ∀ mr ∈ ctx.mrs, Keyed mr) :
    ∀ mr ∈ (ctx.step call).mrs, Keyed mr := by
  cases call with
  | regMr calloc addr length hcaVa access =>
    cases calloc with
    | none => exact hkeyed
    | some p =>
      apply addMr_keyed hkeyed
      exact ⟨fun _ => rfl, by simp, by simp⟩
  | regDmabufMr calloc dup offset length iova access =>
    cases calloc with
    | none => exact hkeyed
    | some p =>
      simp only [step, regDmabufMr]
      split
      · exact hkeyed
      · rename_i hdup
        apply addMr_keyed hkeyed
        exact ⟨by simp, fun _ => rfl, fun _ => hdup⟩
  | deregMr p =>
    intro mr hmr
    obtain ⟨rest, hperm, hsub⟩ := ctx.deregMr_perm p
    exact hkeyed mr (hsub.subset (hperm.subset hmr))

theorem foldl_step_keyed (calls : List MrCall) (hkeyed : ∀ mr ∈ ctx.mrs, Keyed mr) :
    ∀ mr ∈ (calls.foldl step ctx).mrs, Keyed mr := by
  induction calls generalizing ctx with
  | nil => exact hkeyed
  | cons call calls ih => exact ih (step_keyed call hkeyed)

theorem dmabufKeys_append (mrs : List Mr) (mr : Mr) : dmabufKeys ⟨mrs ++ [mr]⟩ =
    dmabufKeys ⟨mrs⟩ ++ if mr.mrType = .dmabuf then [mr.lkey] else [] := by
  simp only [dmabufKeys, List.filter_append, List.map_append]
  cases htype : mr.mrType <;> simp [htype]

theorem addMr_dmabufKeys (mr : Mr) : (ctx.addMr mr).1.dmabufKeys =
    ctx.dmabufKeys ++ if ctx.mrs.length < maxMrs ∧ mr.mrType = .dmabuf then [mr.lkey] else [] := by
  unfold addMr
  split
  · rename_i hfull
    rw [if_neg fun h => absurd h.1 (Nat.not_lt.mpr hfull), List.append_nil]
  · rename_i hroom
    rw [dmabufKeys_append]
    simp only [Nat.not_le.mp hroom, true_and]

theorem fresh_key_iff (hkeyed : ∀ mr ∈ ctx.mrs, Keyed mr) (hnodup : ctx.dmabufKeys.Nodup)
    (h0 : 0 ∉ ctx.dmabufKeys) (lkey : UInt32) :
    (ctx.dmabufKeys ++ [lkey]).Nodup ∧ 0 ∉ ctx.dmabufKeys ++ [lkey] ↔
      lkey ≠ 0 ∧ ∀ mr ∈ ctx.mrs, mr.mrType = .dmabuf → lkey ≠ mr.address.toUInt32 := by
  rw [← List.concat_eq_append, List.nodup_concat, List.concat_eq_append, List.mem_append,
    List.mem_singleton]
  constructor
  · rintro ⟨⟨hnew, -⟩, hzero⟩
    refine ⟨fun h => hzero (.inr h.symm), fun mr hmr htype heq => hnew ?_⟩
    exact mem_dmabufKeys.mpr ⟨mr, hmr, htype, ((hkeyed mr hmr).dmabuf htype).trans heq.symm⟩
  · rintro ⟨hne, hother⟩
    refine ⟨⟨fun hmem => ?_, hnodup⟩, ?_⟩
    · obtain ⟨mr, hmr, htype, hkey⟩ := mem_dmabufKeys.mp hmem
      exact hother mr hmr htype (hkey.symm.trans ((hkeyed mr hmr).dmabuf htype))
    · rintro (hmem | heq)
      · exact h0 hmem
      · exact hne heq.symm

theorem step_keysIdentify_iff (call : MrCall) (hkeyed : ∀ mr ∈ ctx.mrs, Keyed mr)
    (hkeys : ctx.KeysIdentify) : (ctx.step call).KeysIdentify ↔ ctx.Fresh call := by
  obtain ⟨hnodup, h0⟩ := (keysIdentify_iff hkeyed).mp hkeys
  rw [keysIdentify_iff (step_keyed call hkeyed)]
  cases call with
  | regMr calloc addr length hcaVa access =>
    apply iff_of_true _ trivial
    cases calloc with
    | none => exact ⟨hnodup, h0⟩
    | some p =>
      simp only [step, regMr, addMr_dmabufKeys, reduceCtorEq, and_false, if_false, List.append_nil]
      exact ⟨hnodup, h0⟩
  | regDmabufMr calloc dup offset length iova access =>
    cases calloc with
    | none => exact iff_of_true ⟨hnodup, h0⟩ trivial
    | some p =>
      simp only [step, regDmabufMr, Fresh]
      split
      · rename_i hdup
        apply iff_of_true ⟨hnodup, h0⟩
        intro hge
        exact absurd hdup (Int32.not_lt.mpr hge)
      · rename_i hdup
        have hge : 0 ≤ dup := Int32.not_lt.mp hdup
        rw [addMr_dmabufKeys]
        by_cases hroom : ctx.mrs.length < maxMrs
        · rw [if_pos ⟨hroom, rfl⟩, fresh_key_iff hkeyed hnodup h0]
          exact ⟨fun h _ _ => h, fun h => h hge hroom⟩
        · rw [if_neg fun h => hroom h.1, List.append_nil]
          exact iff_of_true ⟨hnodup, h0⟩ fun _ h => absurd h hroom
  | deregMr p =>
    apply iff_of_true _ trivial
    obtain ⟨rest, hperm, hsub⟩ := ctx.deregMr_perm p
    have hperm' : (ctx.deregMr p).dmabufKeys.Perm (dmabufKeys ⟨rest⟩) :=
      (hperm.filter _).map _
    have hsub' : (dmabufKeys ⟨rest⟩).Sublist ctx.dmabufKeys := (hsub.filter _).map _
    refine ⟨hperm'.nodup_iff.mpr (hnodup.sublist hsub'), fun hmem => ?_⟩
    exact h0 (hsub'.subset (hperm'.subset hmem))

end Keys

/-- The keys of a context identify its regions after every call exactly when the address of each
new dma-buf region has a lower half of its own, other than 0. -/
theorem keys_identify_iff_fresh (calls : List MrCall) :
    Throughout step KeysIdentify ⟨[]⟩ calls ↔ Meets step Fresh ⟨[]⟩ calls := by
  have hempty : ∀ mr ∈ (⟨[]⟩ : VerbsContext).mrs, Keyed mr := by simp
  have hkeyed (ctx : VerbsContext) (call : MrCall) (h : ∀ mr ∈ ctx.mrs, Keyed mr) :
      ∀ mr ∈ (ctx.step call).mrs, Keyed mr := step_keyed call h
  refine throughout_iff_meets hkeyed ?_ hempty ?_ calls
  · intro ctx call h hkeys
    exact step_keysIdentify_iff call h hkeys
  · exact (keysIdentify_iff hempty).mpr ⟨by decide, by decide⟩

/-- Two structures four gigabytes apart: sends from the second region read the first dma-buf. -/
theorem regions_share_a_key :
    let calls : List MrCall :=
      [.regDmabufMr (some 0x7f0000001010) 5 0 4096 0 0,
        .regDmabufMr (some 0x7f0100001010) 6 0 4096 0 0]
    let ctx := calls.foldl step ⟨[]⟩
    ctx.mrs.map (fun mr => (mr.lkey, mr.dmabufFd, ctx.lookupDmabuf mr.lkey)) =
      [(0x1010, 5, 5), (0x1010, 6, 5)] ∧
    ¬ Throughout step KeysIdentify ⟨[]⟩ calls := by
  refine ⟨by decide, fun h => ?_⟩
  exact absurd h.2.2.distinct (by decide)

end VerbsContext

end OdinLink
