import Mathlib.Data.List.Nodup
import OdinLink.Rccl.Plugin

/-!
# Who has the shared handle and the streams

Every reference on the handle and every open stream belongs to one owner: a listener until it is
accepted, a communicator, or a call that is under way.
-/

namespace OdinLink

open Threads History

def ListenHandle.owner (lh : ListenHandle) : Bool := !lh.freed && !lh.accepted

def ListenHandle.holds (st : RcclStream) (lh : ListenHandle) : Bool :=
  lh.owner && decide (lh.stream = st)

namespace Strand

def owner : Strand → Bool
  | .returned => false
  | _ => true

def holds (st : RcclStream) : Strand → Bool
  | .starting _ st' | .undoing _ _ st' => decide (st' = st)
  | .comm c => decide (c.closer = .none ∨ c.closer = .stopping) && decide (c.stream = st)
  | _ => false

def Knows (m : PluginMem) : Strand → Prop
  | .opening _ handle => m.gHandle = some handle
  | .starting handle st => m.gHandle = some handle ∧ 0 < st.id
  | .undoing handle id st => m.gHandle = some handle ∧ id = st.id
  | .putting => m.gHandle ≠ none
  | .comm c => m.gHandle = some c.handle ∧ 0 < c.stream.id ∧
    c.streamId = if c.closer = .joining then 0 else c.stream.id
  | .returned => True

variable {m m' : PluginMem} {p : Strand}

theorem Knows.congr (hp : p.Knows m) (hsame : m'.gHandle = m.gHandle) : p.Knows m' := by
  cases p <;> simp only [Knows, hsame] <;> exact hp

theorem Knows.of_not_owner (hp : p.owner = false) : p.Knows m := by
  cases p with
  | returned => trivial
  | _ => simp [owner] at hp

theorem Knows.not_owner (hp : p.Knows m) (hnone : m.gHandle = none) : p.owner = false := by
  cases p <;> simp_all [Knows, owner]

end Strand

def account (m : PluginMem) : Option RcclStream → Int
  | none => m.gHandleRefs - m.listeners.countP ListenHandle.owner
  | some st => m.streams.count st - m.listeners.countP (ListenHandle.holds st)

def share (p : Strand) : Option RcclStream → Int
  | none => one p.owner
  | some st => one (p.holds st)

theorem share_nonneg (p : Strand) (j : Option RcclStream) : 0 ≤ share p j := by
  cases j <;> exact one_nonneg _

theorem holds_le_owner (p : Strand) (st : RcclStream) : share p (some st) ≤ share p none := by
  have hle : one (p.holds st) ≤ 1 := by cases p.holds st <;> simp
  cases p with
  | returned => exact Int.le_refl 0
  | _ => exact hle

structure PluginInv (m : PluginMem) (h : List PluginEvent) : Prop where
  listeners : ∀ lh ∈ m.listeners, lh.owner = true → m.gHandle = some lh.handle ∧ 0 < lh.stream.id
  held : Held.nothing.afterAll h = some ⟨m.gHandle, m.streams⟩
  ids : (m.streams.map (·.id)).Nodup
  nonneg : 0 ≤ m.gHandleRefs
  refs : m.gHandle = none ↔ m.gHandleRefs = 0
  empty : m.gHandle = none → m.streams = []

structure OwnerStep (m : PluginMem) (h : List PluginEvent) (p : Option Strand) (m' : PluginMem)
    (p' : Option Strand) (es : List PluginEvent) : Prop where
  inv : PluginInv m' (h ++ es)
  knows : ∀ q ∈ p', q.Knows m'
  accounts : ∀ j, account m' j + (p.map (share · j)).getD 0 =
    account m j + (p'.map (share · j)).getD 0

section Steps
variable {m m' : PluginMem} {h es : List PluginEvent} {st : RcclStream}

theorem PluginInv.held_append (hi : PluginInv m h) {d : Held}
    (he : (⟨m.gHandle, m.streams⟩ : Held).afterAll es = some d) :
    Held.nothing.afterAll (h ++ es) = some d := by
  rw [Held.afterAll_append, hi.held]
  exact he

theorem PluginInv.append (hi : PluginInv m h)
    (he : (⟨m.gHandle, m.streams⟩ : Held).afterAll es = some ⟨m.gHandle, m.streams⟩) :
    PluginInv m (h ++ es) :=
  ⟨hi.listeners, hi.held_append he, hi.ids, hi.nonneg, hi.refs, hi.empty⟩

theorem used_handle {handle : Nat} (hhandle : m.gHandle = some handle) :
    (⟨m.gHandle, m.streams⟩ : Held).afterAll [.used handle] = some ⟨m.gHandle, m.streams⟩ := by
  simp [Held.afterAll, Held.after, hhandle]

theorem issued_handle {handle id : Nat} (hhandle : m.gHandle = some handle) :
    (⟨m.gHandle, m.streams⟩ : Held).afterAll [.issued handle id st] =
      some ⟨m.gHandle, m.streams⟩ := by
  simp [Held.afterAll, Held.after, hhandle]

theorem OwnerStep.quiet {p p' : Strand} (hi : PluginInv m h)
    (he : (⟨m.gHandle, m.streams⟩ : Held).afterAll es = some ⟨m.gHandle, m.streams⟩)
    (hp' : p'.Knows m) (hshare : ∀ j, share p' j = share p j) :
    OwnerStep m h (some p) m (some p') es := by
  refine ⟨hi.append he, ?_, fun j => ?_⟩
  · rintro q ⟨rfl⟩
    exact hp'
  · simp [hshare]

theorem count_filter_id {streams : List RcclStream} (hids : (streams.map (·.id)).Nodup)
    (hst : st ∈ streams) (st' : RcclStream) :
    ((streams.filter (·.id ≠ st.id)).count st' : Int) + one (decide (st = st')) =
      streams.count st' := by
  by_cases heq : st = st'
  · subst heq
    have hnodup : streams.Nodup := List.Nodup.of_map _ hids
    rw [List.count_eq_zero.mpr (by simp), List.count_eq_one_of_mem hnodup hst]
    simp
  · by_cases hid : st'.id = st.id
    · have hnot : st' ∉ streams := fun hst' =>
        heq (List.inj_on_of_nodup_map hids hst hst' hid.symm)
      rw [List.count_eq_zero.mpr (by simp [hid]), List.count_eq_zero.mpr hnot]
      simp [heq]
    · rw [List.count_filter (by simpa using hid)]
      simp [heq]

theorem OwnerStep.closeStream {p p' : Strand} {handle id : Nat} (hi : PluginInv m h)
    (hhandle : m.gHandle = some handle) (hid : id = st.id) (hst : st ∈ m.streams)
    (hp' : p'.Knows m) (howner : share p' none = share p none)
    (hshare : ∀ st', share p (some st') = one (decide (st = st')))
    (hshare' : ∀ st', share p' (some st') = 0) :
    OwnerStep m h (some p) (m.closeStream handle id) (some p') [.streamClosed handle id st] := by
  subst hid
  rw [PluginMem.closeStream, if_pos hhandle]
  refine ⟨⟨hi.listeners, hi.held_append ?_, ?_, hi.nonneg, hi.refs, ?_⟩, ?_, fun j => ?_⟩
  · simp [Held.afterAll, Held.after, hhandle, hst]
  · exact hi.ids.sublist (List.filter_sublist.map _)
  · intro hnone
    simp [hi.empty hnone]
  · rintro q ⟨rfl⟩
    exact hp'.congr rfl
  · cases j with
    | none => simp [account, howner]
    | some st' =>
      have hcount := count_filter_id hi.ids hst st'
      simp only [account, Option.map_some, Option.getD_some, hshare, hshare']
      omega

theorem streamCreate_spec {taken : List Nat} (hst : m.streamCreate taken = some st) :
    0 < st.id ∧ st.id ∉ m.streams.map (·.id) := by
  obtain ⟨id, hfind, rfl⟩ := Option.map_eq_some_iff.mp hst
  have hmem := List.mem_of_find?_eq_some hfind
  have hfree := List.find?_some hfind
  rw [List.mem_range'] at hmem
  obtain ⟨i, -, rfl⟩ := hmem
  refine ⟨by simp only; omega, fun hin => ?_⟩
  simp only [List.contains_eq_mem, List.mem_append, hin, or_true, decide_true, Bool.not_true,
    Bool.false_eq_true] at hfree

section Open
variable {handle : Nat} (hi : PluginInv m h) (hhandle : m.gHandle = some handle) (hpos : 0 < st.id)
  (hfree : st.id ∉ m.streams.map (·.id))
include hi hhandle hfree

theorem held_streamOpened : Held.nothing.afterAll (h ++ [.streamOpened handle st]) =
    some ⟨m.gHandle, m.streams ++ [st]⟩ := by
  refine hi.held_append ?_
  simp only [Held.afterAll, Held.after, hhandle, hfree, not_false_eq_true, and_self, if_true,
    Option.bind_some]

theorem PluginInv.addStream : PluginInv (m.addStream st) (h ++ [.streamOpened handle st]) := by
  refine ⟨hi.listeners, held_streamOpened hi hhandle hfree, ?_, hi.nonneg, hi.refs, ?_⟩
  · rw [PluginMem.addStream, List.map_append, List.map_singleton]
    exact List.nodup_append.mpr ⟨hi.ids, List.nodup_singleton _, fun x hx y hy => by
      rw [List.mem_singleton.mp hy]
      exact ne_of_mem_of_not_mem hx hfree⟩
  · intro hnone
    rw [PluginMem.addStream, hhandle] at hnone
    contradiction

include hpos

theorem OwnerStep.connected : OwnerStep m h (some (.opening false handle)) (m.addStream st)
    (some (.starting handle st)) [.streamOpened handle st] := by
  refine ⟨hi.addStream hhandle hfree, ?_, fun j => ?_⟩
  · rintro q ⟨rfl⟩
    exact ⟨hhandle, hpos⟩
  · cases j with
    | none => rfl
    | some st' =>
      simp only [account, PluginMem.addStream, List.count_append, List.count_singleton, share,
        Strand.holds, one, Option.map_some, Option.getD_some, beq_iff_eq, decide_eq_true_eq]
      push_cast
      split <;> omega

theorem OwnerStep.listening : OwnerStep m h (some (.opening true handle))
    {m.addStream st with listeners := m.listeners ++ [⟨handle, st, false, false⟩]}
    (some .returned) [.streamOpened handle st] := by
  have hadd := hi.addStream hhandle hfree
  refine ⟨⟨?_, hadd.held, hadd.ids, hadd.nonneg, hadd.refs, hadd.empty⟩, ?_, fun j => ?_⟩
  · intro lh hlh howner
    rcases List.mem_append.mp hlh with hlh | hlh
    · exact hi.listeners lh hlh howner
    · rw [List.mem_singleton.mp hlh]
      exact ⟨hhandle, hpos⟩
  · rintro q ⟨rfl⟩
    trivial
  · cases j with
    | none =>
      simp [account, PluginMem.addStream, ListenHandle.owner, share, Strand.owner]
      omega
    | some st' =>
      simp only [account, PluginMem.addStream, List.count_append, List.count_singleton, share,
        Strand.holds, one, Option.map_some, Option.getD_some, beq_iff_eq, List.countP_append,
        List.countP_singleton, ListenHandle.holds, ListenHandle.owner, Bool.not_false,
        Bool.and_self, Bool.true_and, decide_eq_true_eq]
      push_cast
      split <;> omega

end Open

section Put
variable {ps : List Strand} (hsum : ∀ j, account m j = tally (share · j) ps)
include hsum

theorem count_le_refs (st : RcclStream) {p : Strand} (hp : p ∈ ps) :
    (m.streams.count st : Int) + (share p none - share p (some st)) ≤ m.gHandleRefs := by
  have hle := le_tally (w := fun p => share p none - share p (some st))
    (fun q => Int.sub_nonneg_of_le (holds_le_owner q st)) hp
  rw [tally_sub, ← hsum none, ← hsum (some st), account, account] at hle
  have hcount : m.listeners.countP (ListenHandle.holds st) ≤
      m.listeners.countP ListenHandle.owner :=
    List.countP_mono_left fun lh _ hlh => (Bool.and_eq_true_iff.mp hlh).1
  omega

theorem streams_eq_nil (hp : Strand.putting ∈ ps) (hlast : m.gHandleRefs = 1) :
    m.streams = [] := by
  refine List.eq_nil_iff_forall_not_mem.mpr fun st hst => ?_
  have hle := count_le_refs hsum st hp
  have hpos := List.count_pos_iff.mpr hst
  simp only [share, Strand.owner, Strand.holds, one, if_true, Bool.false_eq_true, if_false] at hle
  omega

theorem listeners_not_owner {lh : ListenHandle} (hp : Strand.putting ∈ ps)
    (hlast : m.gHandleRefs = 1) (hlh : lh ∈ m.listeners) : lh.owner = false := by
  have hle := le_tally (w := (share · none)) (fun q => share_nonneg q none) hp
  rw [← hsum none, account] at hle
  by_contra howner
  have hpos : 0 < m.listeners.countP ListenHandle.owner :=
    List.countP_pos_iff.mpr ⟨lh, hlh, by simpa using howner⟩
  simp only [share, Strand.owner, one, if_true] at hle
  omega

theorem OwnerStep.put (hi : PluginInv m h) (hp : Strand.putting ∈ ps)
    (hknows : Strand.putting.Knows m) :
    OwnerStep m h (some .putting) m.putSharedHandle.1 (some .returned) m.putSharedHandle.2 := by
  rw [PluginMem.putSharedHandle]
  split
  · contradiction
  rename_i g hg
  split
  · -- the last reference
    have hlast : m.gHandleRefs = 1 := by omega
    have hnil := streams_eq_nil hsum hp hlast
    refine ⟨⟨?_, hi.held_append ?_, List.nodup_nil, Int.le_refl 0, by simp, fun _ => rfl⟩, ?_,
      fun j => ?_⟩
    · intro lh hlh howner
      rw [listeners_not_owner hsum hp hlast hlh] at howner
      contradiction
    · simp [Held.afterAll, Held.after, hg, hnil, Held.nothing]
    · rintro q ⟨rfl⟩
      trivial
    · cases j with
      | none =>
        simp [account, share, Strand.owner, hlast]
        omega
      | some st => simp [account, share, Strand.holds, hnil]
  · rename_i hmore
    have hne : m.gHandleRefs ≠ 0 := fun hzero => hknows (hi.refs.mpr hzero)
    have hnonneg := hi.nonneg
    refine ⟨⟨hi.listeners, ?_, hi.ids, by simp only; omega, ?_, hi.empty⟩, ?_, fun j => ?_⟩
    · rw [List.append_nil]
      exact hi.held
    · simp only [hg, false_iff, reduceCtorEq]
      omega
    · rintro q ⟨rfl⟩
      trivial
    · cases j with
      | none =>
        simp [account, share, Strand.owner]
        omega
      | some st => simp [account, share, Strand.holds]

end Put

theorem OwnerStep.get (hi : PluginInv m h) (listen : Bool) (get : GetRet) :
    OwnerStep m h none (m.getSharedHandle get).1
      ((m.getSharedHandle get).2.1.map (.opening listen)) (m.getSharedHandle get).2.2 := by
  rw [PluginMem.getSharedHandle.eq_def]
  split
  · rename_i g hg
    have hnonneg := hi.nonneg
    refine ⟨⟨hi.listeners, ?_, hi.ids, by simp only; omega, ?_, hi.empty⟩, ?_, fun j => ?_⟩
    · rw [List.append_nil]
      exact hi.held
    · simp only [hg, false_iff, reduceCtorEq]
      omega
    · rintro q ⟨rfl⟩
      exact hg
    · cases j with
      | none =>
        simp [account, share, Strand.owner]
        omega
      | some st => simp [account, share, Strand.holds]
  · rename_i hnone
    have hnil := hi.empty hnone
    have hzero := hi.refs.mp hnone
    cases get with
    | noDevice =>
      refine ⟨hi.append rfl, by simp, fun j => by simp⟩
    | noPeer =>
      refine ⟨⟨hi.listeners, hi.held_append ?_, hi.ids, hi.nonneg, hi.refs, hi.empty⟩, by simp,
        fun j => ?_⟩
      · simp [Held.afterAll, Held.after, hnone, hnil, Held.nothing]
      · cases j <;> simp [account]
    | ready =>
      refine ⟨⟨?_, hi.held_append ?_, hi.ids, by simp [hzero], by simp [hzero], by simp⟩, ?_,
        fun j => ?_⟩
      · intro lh hlh howner
        have hhandle := (hi.listeners lh hlh howner).1
        rw [hnone] at hhandle
        contradiction
      · simp [Held.afterAll, Held.after, hnone, hnil]
      · rintro q ⟨rfl⟩
        rfl
      · cases j with
        | none =>
          simp [account, share, Strand.owner]
          omega
        | some st => simp [account, share, Strand.holds]

theorem OwnerStep.setListener {l : Nat} {lh lh' : ListenHandle} {o : Option Strand}
    (hi : PluginInv m h) (hlh : m.listeners[l]? = some lh) (howner' : lh'.owner = false)
    (hknows : ∀ q ∈ o, q.Knows m) (hnone : (o.map (share · none)).getD 0 = one lh.owner)
    (hsome : ∀ st, (o.map (share · (some st))).getD 0 = one (lh.holds st)) :
    OwnerStep m h none {m with listeners := m.listeners.set l lh'} o [] := by
  refine ⟨⟨?_, ?_, hi.ids, hi.nonneg, hi.refs, hi.empty⟩, fun q hq => (hknows q hq).congr rfl,
    fun j => ?_⟩
  · intro lh₁ hlh₁ howner₁
    rcases mem_set_cases hlh₁ with rfl | ⟨j, -, hj⟩
    · rw [howner'] at howner₁
      contradiction
    · exact hi.listeners lh₁ (List.mem_of_getElem? hj) howner₁
  · rw [List.append_nil]
    exact hi.held
  · cases j with
    | none =>
      have hcount := countP_set hlh ListenHandle.owner lh'
      simp only [howner', Bool.false_eq_true, if_false] at hcount
      simp only [account, Option.map_none, Option.getD_none, hnone, one]
      omega
    | some st =>
      have hcount := countP_set hlh (ListenHandle.holds st) lh'
      have hst' : lh'.holds st = false := by rw [ListenHandle.holds, howner', Bool.false_and]
      simp only [hst', Bool.false_eq_true, if_false] at hcount
      simp only [account, Option.map_none, Option.getD_none, hsome, one]
      omega

end Steps

section Ops
variable {m m' : PluginMem} {h es : List PluginEvent} {ps : List Strand} {p p' : Strand}
  {x : PluginInput}

theorem mem_streams (hsum : ∀ j, account m j = tally (share · j) ps) (hp : p ∈ ps)
    {st : RcclStream} (hst : share p (some st) = 1) : st ∈ m.streams := by
  have hle := le_tally (w := (share · (some st))) (fun q => share_nonneg q _) hp
  rw [hst, ← hsum, account] at hle
  exact List.count_pos_iff.mp (by omega)

theorem commWorkerOp_keeps {c c' : RcclComm} {ret : CallRet}
    (hop : commWorkerOp c ret = some (c', es)) :
    c'.handle = c.handle ∧ c'.stream = c.stream ∧ c'.streamId = c.streamId ∧
      c'.closer = c.closer ∧ (es = [] ∨ es = [.issued c.handle c.streamId c.stream]) := by
  rw [commWorkerOp] at hop
  split at hop
  · split at hop
    · cases hop
      exact ⟨rfl, rfl, rfl, rfl, .inl rfl⟩
    · split at hop
      · cases hop
        exact ⟨rfl, rfl, rfl, rfl, .inl rfl⟩
      · contradiction
  · cases hop
    exact ⟨rfl, rfl, rfl, rfl, .inr rfl⟩
  · cases hop
    exact ⟨rfl, rfl, rfl, rfl, .inl rfl⟩
  · contradiction

theorem comm_same {c c' : RcclComm} (hhandle : c'.handle = c.handle) (hstream : c'.stream = c.stream)
    (hid : c'.streamId = c.streamId) (hcloser : c'.closer = c.closer) :
    ((Strand.comm c).Knows m → (Strand.comm c').Knows m) ∧
      ∀ j, share (.comm c') j = share (.comm c) j := by
  refine ⟨fun hc => ?_, fun j => ?_⟩
  · simpa only [Strand.Knows, hhandle, hstream, hid, hcloser] using hc
  · cases j <;> simp only [share, Strand.owner, Strand.holds, hstream, hcloser]

theorem commCloseOp_step {c : RcclComm} (hi : PluginInv m h)
    (hsum : ∀ j, account m j = tally (share · j) ps) (hp : .comm c ∈ ps)
    (hknows : (Strand.comm c).Knows m) (hop : commCloseOp m c = some (m', p', es)) :
    OwnerStep m h (some (.comm c)) m' (some p') es := by
  obtain ⟨hhandle, hpos, hid⟩ := hknows
  rw [commCloseOp] at hop
  split at hop
  · rename_i hcloser
    cases hop
    refine .quiet hi rfl ⟨hhandle, hpos, by simp [hid, hcloser]⟩ fun j => ?_
    cases j <;> simp [share, Strand.owner, Strand.holds, hcloser]
  · rename_i hcloser
    rw [hcloser, if_neg (by simp)] at hid
    rw [if_pos (hid ▸ hpos)] at hop
    cases hop
    have hshare (st : RcclStream) :
        share (.comm c) (some st) = one (decide (c.stream = st)) := by
      simp [share, Strand.holds, hcloser]
    refine .closeStream hi hhandle hid (mem_streams hsum hp (by simp [hshare])) ?_ rfl hshare ?_
    · exact ⟨hhandle, hpos, by simp [hid]⟩
    · intro st
      simp [share, Strand.holds]
  · rename_i hcloser
    cases hop
    refine .quiet hi rfl ⟨hhandle, hpos, by simp⟩ fun j => ?_
    cases j <;> simp [share, Strand.owner, Strand.holds, hcloser]
  · rename_i hcloser
    rw [hcloser, if_pos rfl] at hid
    split at hop
    · rw [hid, if_neg (lt_irrefl 0)] at hop
      cases hop
      refine .quiet hi rfl (by simp [Strand.Knows, hhandle]) fun j => ?_
      cases j <;> simp [share, Strand.owner, Strand.holds, hcloser]
    · contradiction

theorem openStream_step {listen : Bool} {handle : Nat} {taken : List Nat} {ok : Bool}
    (hi : PluginInv m h) (hhandle : m.gHandle = some handle)
    (hop : openStream m listen handle (if ok then m.streamCreate taken else none) =
      (m', p', es)) : OwnerStep m h (some (.opening listen handle)) m' (some p') es := by
  cases hst : (if ok then m.streamCreate taken else none) with
  | none =>
    rw [hst, openStream] at hop
    cases hop
    refine .quiet hi (used_handle hhandle) (by simp [Strand.Knows, hhandle]) fun j => ?_
    cases j <;> rfl
  | some st =>
    have hcreate : m.streamCreate taken = some st := by
      split at hst
      · exact hst
      · contradiction
    obtain ⟨hpos, hfree⟩ := streamCreate_spec hcreate
    rw [hst, openStream] at hop
    cases listen with
    | true =>
      cases hop
      exact .listening hi hhandle hpos hfree
    | false =>
      cases hop
      exact .connected hi hhandle hpos hfree

theorem pluginOp_step (hi : PluginInv m h) (hsum : ∀ j, account m j = tally (share · j) ps)
    (hp : p ∈ ps) (hknows : p.Knows m) (hop : pluginOp m p x = some (m', p', es)) :
    OwnerStep m h (some p) m' (some p') es := by
  rw [pluginOp.eq_def] at hop
  split at hop
  · exact openStream_step hi hknows (Option.some.inj hop)
  · cases hop
    split
    · exact .quiet hi rfl ⟨hknows.1, hknows.2, rfl⟩ fun j => by cases j <;> rfl
    · exact .quiet hi rfl ⟨hknows.1, rfl⟩ fun j => by cases j <;> rfl
  · rename_i handle id st
    cases hop
    have hshare (st' : RcclStream) :
        share (.undoing handle id st) (some st') = one (decide (st = st')) := rfl
    refine .closeStream hi hknows.1 hknows.2 (mem_streams hsum hp (by simp [hshare])) ?_ rfl
      hshare fun _ => rfl
    simp [Strand.Knows, hknows.1]
  · cases hop
    exact .put hsum hi hp hknows
  · split at hop
    · cases hop
      obtain ⟨hsame, hshare⟩ := comm_same rfl rfl rfl rfl
      exact .quiet hi rfl (hsame hknows) hshare
    · contradiction
  · obtain ⟨⟨c', fs⟩, hworker, heq⟩ := Option.map_eq_some_iff.mp hop
    cases heq
    obtain ⟨hhandle, hstream, hid, hcloser, hes⟩ := commWorkerOp_keeps hworker
    obtain ⟨hsame, hshare⟩ := comm_same hhandle hstream hid hcloser
    refine .quiet hi ?_ (hsame hknows) hshare
    rcases hes with rfl | rfl
    · rfl
    · exact issued_handle hknows.1
  · exact commCloseOp_step hi hsum hp hknows hop
  · contradiction

theorem pluginOp_effect (hop : pluginOp m p x = some (m', p', es)) :
    (m'.gHandle = m.gHandle ∨ p = .putting ∧ m.gHandleRefs = 1) ∧
      ∀ handle id st, .issued handle id st ∈ es → ∃ c y, p = .comm c ∧ c.worker = .ready y ∧
        handle = c.handle ∧ id = c.streamId ∧ st = c.stream ∧ es = [.issued handle id st] := by
  have hclose (handle id : Nat) : (m.closeStream handle id).gHandle = m.gHandle := by
    rw [PluginMem.closeStream]
    split <;> rfl
  rw [pluginOp.eq_def] at hop
  split at hop
  · rw [openStream.eq_def] at hop
    split at hop
    · cases hop
      exact ⟨.inl rfl, by simp⟩
    · split at hop <;> cases hop <;> exact ⟨.inl rfl, by simp⟩
  · cases hop
    exact ⟨.inl rfl, by simp⟩
  · cases hop
    exact ⟨.inl (hclose _ _), by simp⟩
  · cases hop
    rw [PluginMem.putSharedHandle]
    split
    · exact ⟨.inl rfl, by simp⟩
    · split
      · exact ⟨.inr ⟨rfl, by omega⟩, by simp⟩
      · exact ⟨.inl rfl, by simp⟩
  · split at hop
    · cases hop
      exact ⟨.inl rfl, by simp⟩
    · contradiction
  · obtain ⟨⟨c', fs⟩, hworker, heq⟩ := Option.map_eq_some_iff.mp hop
    cases heq
    refine ⟨.inl rfl, fun handle id st hissued => ?_⟩
    rw [commWorkerOp] at hworker
    split at hworker
    · split at hworker
      · cases hworker
        contradiction
      · split at hworker <;> cases hworker
        contradiction
    · rename_i y hready
      cases hworker
      rw [List.mem_singleton] at hissued
      cases hissued
      exact ⟨_, y, rfl, hready, rfl, rfl, rfl, rfl⟩
    · cases hworker
      contradiction
    · contradiction
  · rw [commCloseOp] at hop
    split at hop
    · cases hop
      exact ⟨.inl rfl, by simp⟩
    · split at hop <;> cases hop
      · exact ⟨.inl (hclose _ _), by simp⟩
      · exact ⟨.inl rfl, by simp⟩
    · cases hop
      exact ⟨.inl rfl, by simp⟩
    · split at hop <;> cases hop
      exact ⟨.inl rfl, by simp⟩
  · contradiction

theorem other_knows {i k : Nat} {q : Strand}
    (hsum : ∀ j, account m j = tally (share · j) ps) (hp : ps[i]? = some p)
    (hop : pluginOp m p x = some (m', p', es)) (hne : k ≠ i) (hq : ps[k]? = some q)
    (hknows : q.Knows m) : q.Knows m' := by
  rcases (pluginOp_effect hop).1 with hsame | ⟨rfl, hlast⟩
  · exact hknows.congr hsame
  · refine .of_not_owner ?_
    have hle := add_le_tally (w := (share · none)) (fun r => share_nonneg r none) hne hq hp
    rw [← hsum, account, hlast] at hle
    have hput : share .putting none = 1 := rfl
    by_contra howner
    have hshare : share q none = 1 := by
      rw [share, Bool.not_eq_false _ |>.mp howner]
      rfl
    omega

end Ops

section Starts
variable {m m' : PluginMem} {h es : List PluginEvent} {o : Option Strand} {x : PluginCall}

/-- RCCL calls `accept` on a listener that has not been accepted before. -/
def acceptsOnce (s : Sys PluginMem Strand) : Move PluginCall PluginInput → Bool
  | .start (.accept l _) => s.mem.listeners[l]?.all fun lh => !lh.accepted
  | _ => true

theorem onListener_eq {l : Nat} {f : ListenHandle → PluginMem × Option Strand × List PluginEvent}
    {r : PluginMem × Option Strand × List PluginEvent} (hon : onListener m l f = some r) :
    ∃ lh, m.listeners[l]? = some lh ∧ lh.freed = false ∧ f lh = r := by
  obtain ⟨lh, hlh, heq⟩ := Option.bind_eq_some_iff.mp hon
  split at heq
  · contradiction
  · exact ⟨lh, hlh, by simpa using ‹¬ lh.freed = true›, Option.some.inj heq⟩

theorem openConnection_step {listen alloc : Bool} {get : GetRet} (hi : PluginInv m h)
    (hop : openConnection m listen alloc get = (m', o, es)) : OwnerStep m h none m' o es := by
  rw [openConnection] at hop
  split at hop
  · cases hop
    exact .get hi listen get
  · cases hop
    exact ⟨hi.append rfl, by simp, fun j => by simp⟩

theorem pluginStart_step {s : Sys PluginMem Strand} (hi : PluginInv s.mem h)
    (hok : acceptsOnce s (.start x) = true) (hop : pluginStart s.mem x = some (m', o, es)) :
    OwnerStep s.mem h none m' o es := by
  cases x with
  | listen alloc get | connect alloc get => exact openConnection_step hi (Option.some.inj hop)
  | accept l alloc =>
    obtain ⟨lh, hlh, hfreed, heq⟩ := onListener_eq hop
    have haccepted : lh.accepted = false := by simpa [acceptsOnce, hlh] using hok
    have howner : lh.owner = true := by rw [ListenHandle.owner, hfreed, haccepted]; rfl
    split at heq
    · cases heq
      refine .setListener hi hlh (by simp [ListenHandle.owner]) ?_ (by rw [howner]; rfl) fun st => ?_
      · rintro q ⟨rfl⟩
        exact hi.listeners lh (List.mem_of_getElem? hlh) howner
      · rw [ListenHandle.holds, howner]
        rfl
    · cases heq
      exact ⟨hi.append rfl, by simp, fun j => by simp⟩
  | closeListen l =>
    obtain ⟨lh, hlh, hfreed, heq⟩ := onListener_eq hop
    have howner' : ({lh with freed := true} : ListenHandle).owner = false := by
      simp [ListenHandle.owner]
    have howner : lh.owner = !lh.accepted := by rw [ListenHandle.owner, hfreed]; rfl
    cases haccepted : lh.accepted with
    | true =>
      rw [haccepted] at heq howner
      cases heq
      refine .setListener hi hlh howner' (by simp) (by rw [howner]; rfl) fun st => ?_
      rw [ListenHandle.holds, howner]
      rfl
    | false =>
      rw [haccepted] at heq howner
      cases heq
      refine .setListener hi hlh howner' ?_ (by rw [howner]; rfl) fun st => ?_
      · rintro q ⟨rfl⟩
        exact ⟨(hi.listeners lh (List.mem_of_getElem? hlh) howner).1, rfl⟩
      · rw [ListenHandle.holds, howner]
        rfl

theorem pluginStart_effect (hop : pluginStart m x = some (m', o, es)) :
    (m'.gHandle = m.gHandle ∨ m.gHandle = none) ∧ (∀ c, o ≠ some (.comm c)) ∧
      ∀ handle id st, .issued handle id st ∉ es := by
  have hopen {listen alloc : Bool} {get : GetRet}
      (hop : openConnection m listen alloc get = (m', o, es)) :
      (m'.gHandle = m.gHandle ∨ m.gHandle = none) ∧ (∀ c, o ≠ some (.comm c)) ∧
        ∀ handle id st, .issued handle id st ∉ es := by
    rw [openConnection] at hop
    split at hop <;> cases hop
    · rw [PluginMem.getSharedHandle.eq_def]
      split
      · exact ⟨.inl rfl, by simp, by simp⟩
      · refine ⟨.inr ‹_›, ?_, ?_⟩ <;> split <;> simp
    · exact ⟨.inl rfl, by simp, by simp⟩
  cases x with
  | listen alloc get | connect alloc get => exact hopen (Option.some.inj hop)
  | accept l alloc =>
    obtain ⟨lh, -, -, heq⟩ := onListener_eq hop
    split at heq <;> cases heq <;> exact ⟨.inl rfl, by simp, by simp⟩
  | closeListen l =>
    obtain ⟨lh, -, -, heq⟩ := onListener_eq hop
    cases heq
    refine ⟨.inl rfl, ?_, by simp⟩
    split <;> simp

end Starts

section Runs
variable {s : Sys PluginMem Strand} {h : List PluginEvent}

theorem ownership (hr : Reaches pluginProg.step (fun s _ a => acceptsOnce s a = true)
    ⟨.init, []⟩ s h) :
    (∀ j, account s.mem j = tally (share · j) s.pcs) ∧ (∀ p ∈ s.pcs, p.Knows s.mem) ∧
      PluginInv s.mem h := by
  refine accounted (fun j m _ => account m j) (fun j p => share p j)
    (fun m p => p.Knows m) PluginInv ?_ ?_ ?_ ?_ hr
  · intro j
    cases j <;> rfl
  · exact ⟨by simp [PluginMem.init], rfl, List.nodup_nil, Int.le_refl 0, by simp [PluginMem.init],
      fun _ => rfl⟩
  · intro s h x m o es _ hok _ hi hx
    have hstep := pluginStart_step hi hok hx
    refine ⟨fun j => ?_, hstep.knows, fun q _ hq => ?_, hstep.inv⟩
    · simpa using hstep.accounts j
    · rcases (pluginStart_effect hx).1 with hsame | hnone
      · exact hq.congr hsame
      · exact .of_not_owner (hq.not_owner hnone)
  · intro s h i x p m p' es _ _ hsum hknows hi hp hx
    have hmem := List.mem_of_getElem? hp
    have hstep := pluginOp_step hi hsum hmem (hknows p hmem) hx
    refine ⟨fun j => ?_, hstep.knows p' rfl, fun k q hk hq => ?_, hstep.inv⟩
    · simpa using hstep.accounts j
    · exact other_knows hsum hp hx hk hq (hknows q (List.mem_of_getElem? hq))

/-- Listeners that have not been accepted, communicators, and calls between getting the handle and
passing it on or putting it. -/
def handleOwners (s : Sys PluginMem Strand) : Nat :=
  s.mem.listeners.countP ListenHandle.owner + s.pcs.countP Strand.owner

def streamOwners (s : Sys PluginMem Strand) (st : RcclStream) : Nat :=
  s.mem.listeners.countP (ListenHandle.holds st) + s.pcs.countP (Strand.holds st)

/-- If `accept` is not called again on the same listener: the count of references is the number of
owners; the device is open if and only if there is one; it is opened, used and closed in turn; and
so is every stream, which is open if and only if one owner has it. -/
theorem plugin_resources_balance (hr : Reaches pluginProg.step
    (fun s _ a => acceptsOnce s a = true) ⟨.init, []⟩ s h) :
    s.mem.gHandleRefs = handleOwners s ∧ (s.mem.gHandle = none ↔ handleOwners s = 0) ∧
      ∃ held, Held.nothing.afterAll h = some held ∧ held.device = s.mem.gHandle ∧
        ∀ st, held.streams.count st = streamOwners s st ∧ streamOwners s st ≤ 1 := by
  obtain ⟨hsum, -, hi⟩ := ownership hr
  have hrefs : s.mem.gHandleRefs = handleOwners s := by
    have hnone := hsum none
    rw [account] at hnone
    have htally := tally_ite Strand.owner s.pcs
    simp only [share, one] at hnone
    rw [htally] at hnone
    rw [handleOwners]
    omega
  refine ⟨hrefs, ?_, _, hi.held, rfl, fun st => ?_⟩
  · rw [hi.refs, hrefs]
    exact Int.natCast_eq_zero
  · have hst := hsum (some st)
    rw [account] at hst
    have htally := tally_ite (Strand.holds st) s.pcs
    simp only [share, one] at hst
    rw [htally] at hst
    have hone := List.nodup_iff_count_le_one.mp (List.Nodup.of_map _ hi.ids) st
    have hcount : s.mem.streams.count st = streamOwners s st := by
      rw [streamOwners]
      omega
    exact ⟨hcount, hcount ▸ hone⟩

end Runs

def connectAndClose : List (Move PluginCall PluginInput) :=
  [.start (.connect true .noPeer), .start (.listen true .ready), .run 0 (.streamOpen true [20]),
    .start (.accept 0 true), .run 1 (.threadCreate true), .start (.closeListen 0),
    .start (.connect true .noDevice), .run 2 (.streamOpen true []), .run 2 (.threadCreate false),
    .run 2 .go, .run 2 .go, .start (.connect true .ready), .run 3 (.streamOpen false []),
    .run 3 .go, .run 1 .close, .run 1 .close, .run 1 .close, .run 1 (.worker ⟨true, 0, 0⟩),
    .run 1 .close, .run 1 .go]

theorem plugin_resources_balance_connectAndClose : ∃ s h, Reaches pluginProg.step
    (fun s _ a => acceptsOnce s a = true) ⟨.init, []⟩ s h ∧
      h.count (.closed 1) = 1 ∧ h.count (.streamClosed 1 21 ⟨21, 0⟩) = 1 ∧ handleOwners s = 0 ∧
      s.mem.gHandleRefs = handleOwners s := by
  have hr : Reaches pluginProg.step (fun s _ a => acceptsOnce s a = true) ⟨.init, []⟩ _ _ :=
    .of_acts connectAndClose (by decide +kernel)
  exact ⟨_, _, hr, by decide +kernel, by decide +kernel, by decide +kernel,
    (plugin_resources_balance hr).1⟩

def acceptAgain : List (Move PluginCall PluginInput) :=
  [.start (.listen true .ready), .run 0 (.streamOpen true []), .start (.accept 0 true),
    .run 1 (.threadCreate false), .run 1 .go, .run 1 .go, .start (.accept 0 true),
    .run 2 (.threadCreate true), .run 2 .close, .run 2 .close]

theorem accept_takes_closed_handle : ∃ s h, Reaches pluginProg.step (fun _ _ _ => True)
    ⟨.init, []⟩ s h ∧ handleOwners s = 1 ∧ s.mem.gHandleRefs = 0 ∧
      h.filter (fun e => e = .closed 0 || e = .streamClosed 0 20 ⟨20, 0⟩) =
        [.streamClosed 0 20 ⟨20, 0⟩, .closed 0, .streamClosed 0 20 ⟨20, 0⟩] ∧
      Held.nothing.afterAll h = none :=
  ⟨_, _, .of_free acceptAgain (by decide +kernel), by decide +kernel⟩

end OdinLink
