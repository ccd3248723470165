import OdinLink.Rccl.Transfer

/-!
# Framing of transfers

As long as the stream loses transfers as a whole, what was taken off the stream, what is on it and
what the sender has yet to send of its current transfer are together the frames of the delivered
transfers. The receiver is between two of them or inside the one of its current request, so it never
reads data as a header.
-/

namespace OdinLink

open History Chunks

section Codec

theorem headerTotal_headerBytes {size : Nat} (hsize : size < 2 ^ 32) :
    headerTotal (headerBytes size) = size := by
  simp only [headerBytes, headerTotal, UInt8.toNat_ofNat']
  omega

@[simp] theorem length_headerBytes (size : Nat) : (headerBytes size).length = 4 := rfl

theorem odlChunk_pos : 0 < odlChunk := by decide

def frames (data : List UInt8) : List (List UInt8) :=
  headerBytes data.length :: pieces odlChunk data

theorem pieces_drop {data : List UInt8} {off : Nat} (hoff : off < data.length) :
    pieces odlChunk (data.drop off) =
      (data.drop off).take odlChunk :: pieces odlChunk (data.drop (off + odlChunk)) := by
  have hlen : 0 < (data.drop off).length := by
    rw [List.length_drop]
    omega
  rw [pieces_eq_cons odlChunk_pos hlen, List.drop_drop]

theorem pieces_drop_of_le {data : List UInt8} {off : Nat} (hoff : data.length ≤ off) :
    pieces odlChunk (data.drop off) = [] := by
  rw [List.drop_eq_nil_of_le hoff]
  exact pieces_nil odlChunk_pos

def expected (data buf : List UInt8) : IrecvResult :=
  if data.length ≤ buf.length then ⟨data ++ buf.drop data.length, false, data.length⟩
  else ⟨buf, true, data.length⟩

def filled (data buf : List UInt8) (off : Nat) : List UInt8 :=
  if data.length ≤ buf.length then data.take off ++ buf.drop off else buf

theorem length_filled {data buf : List UInt8} {off : Nat} (hoff : off ≤ data.length) :
    (filled data buf off).length = buf.length := by
  rw [filled]
  split
  · rw [List.length_append, List.length_take, List.length_drop]
    omega
  · rfl

theorem filled_zero (data buf : List UInt8) : filled data buf 0 = buf := by
  simp [filled]

theorem writeChunk_filled {data buf : List UInt8} {off : Nat} (hoff : off < data.length) :
    RcclLink.writeChunk (filled data buf off) data.length off ((data.drop off).take odlChunk) =
      filled data buf (off + ((data.drop off).take odlChunk).length) := by
  rw [RcclLink.writeChunk, length_filled hoff.le]
  by_cases hfit : data.length ≤ buf.length
  · have hgot : (data.drop off).take odlChunk =
        (data.drop off).take ((data.drop off).take odlChunk).length := by
      rw [List.length_take, ← List.take_take, List.take_length]
    have htake : (data.take off ++ buf.drop off).take off = data.take off :=
      List.take_left' (List.length_take_of_le hoff.le)
    have hdrop (g : Nat) : (data.take off ++ buf.drop off).drop (off + g) = buf.drop (off + g) := by
      rw [← List.drop_drop, List.drop_left' (List.length_take_of_le hoff.le), List.drop_drop]
    rw [if_neg (by omega), filled, filled, if_pos hfit, if_pos hfit, htake, hdrop,
      List.take_add, ← hgot]
  · rw [if_pos (by omega), filled, filled, if_neg hfit, if_neg hfit]

theorem expected_of_filled {data buf : List UInt8} :
    (⟨filled data buf data.length, decide (buf.length < data.length), data.length⟩ : IrecvResult) =
      expected data buf := by
  rw [filled, expected]
  by_cases hfit : data.length ≤ buf.length
  · rw [if_pos hfit, if_pos hfit, List.take_length, decide_eq_false (by omega)]
  · rw [if_neg hfit, if_neg hfit, decide_eq_true (by omega)]

end Codec

namespace RcclLink

def headerDelivered (l : RcclLink) (data : List UInt8) : Bool :=
  l.delivered.getLast? == some (l.isendDone.length, data)

def sharesFate (l : RcclLink) : RcclAct → Bool
  | .sender fate =>
    match l.sender with
    | .idle => true
    | .header _ => fate != .refused
    | .chunk data _ => fate == if l.headerDelivered data then .delivered else .lost
  | .receiver ok => ok
  | _ => true

def current : SenderPc → List (List UInt8)
  | .idle => []
  | .header data | .chunk data _ => [data]

def senderRest (l : RcclLink) : List (List UInt8) :=
  match l.sender with
  | .chunk data off => if l.headerDelivered data then pieces odlChunk (data.drop off) else []
  | _ => []

def begun (l : RcclLink) : Nat :=
  match l.sender with
  | .chunk _ _ => l.isendDone.length + 1
  | _ => l.isendDone.length

end RcclLink

structure SendSide (l : RcclLink) : Prop where
  done_le : l.isendDone.length ≤ l.isends.length
  queue : l.isends.drop l.isendDone.length = RcclLink.current l.sender ++ l.sendQueue
  sizes : ∀ data ∈ l.isends, data.length < intMax
  source : ∀ x ∈ l.delivered, l.isends[x.1]? = some x.2
  order : (l.delivered.map Prod.fst).Pairwise (· < ·)
  bound : ∀ x ∈ l.delivered, x.1 < l.begun
  chunk_lt : ∀ data off, l.sender = .chunk data off → off < data.length
  wire : l.received ++ l.channel ++ l.senderRest = (l.delivered.map Prod.snd).flatMap frames

def RecvAt (l : RcclLink) : ReceiverPc → Prop
  | .idle => l.irecvs.drop l.irecvDone.length = l.recvQueue ∧
      l.received = ((l.delivered.map Prod.snd).take l.irecvDone.length).flatMap frames
  | .header buf => l.irecvs.drop l.irecvDone.length = buf :: l.recvQueue ∧
      l.received = ((l.delivered.map Prod.snd).take l.irecvDone.length).flatMap frames
  | .chunk buf total off => ∃ data orig,
      (l.delivered.map Prod.snd)[l.irecvDone.length]? = some data ∧
      l.irecvs.drop l.irecvDone.length = orig :: l.recvQueue ∧
      total = data.length ∧ off < data.length ∧ buf = filled data orig off ∧
      l.received ++ pieces odlChunk (data.drop off) =
        ((l.delivered.map Prod.snd).take (l.irecvDone.length + 1)).flatMap frames

structure RecvSide (l : RcclLink) : Prop where
  done_le : l.irecvDone.length ≤ l.irecvs.length
  position : RecvAt l l.receiver
  results : ∀ (k : Nat) (r : IrecvResult), l.irecvDone[k]? = some r → ∃ data buf,
    (l.delivered.map Prod.snd)[k]? = some data ∧ l.irecvs[k]? = some buf ∧ r = expected data buf

section Receiver
variable {l l' : RcclLink}

theorem RecvSide.le_delivered (hr : RecvSide l) :
    l.irecvDone.length ≤ (l.delivered.map Prod.snd).length := by
  by_contra hlt
  have hk : l.irecvDone.length - 1 < l.irecvDone.length := by omega
  obtain ⟨data, buf, hdata, -⟩ := hr.results _ _ (List.getElem?_eq_getElem hk)
  obtain ⟨hlt', -⟩ := List.getElem?_eq_some_iff.mp hdata
  omega

theorem RecvSide.mono {u : List (Nat × List UInt8)} {v : List (List UInt8)} (hr : RecvSide l)
    (hdel : l'.delivered = l.delivered ++ u) (hrecvs : l'.irecvs = l.irecvs ++ v)
    (hqueue : l'.recvQueue = l.recvQueue ++ v) (hreceived : l'.received = l.received)
    (hreceiver : l'.receiver = l.receiver) (hdone : l'.irecvDone = l.irecvDone) : RecvSide l' := by
  have hle := hr.le_delivered
  have hle' := hr.done_le
  have hmap : l'.delivered.map Prod.snd = l.delivered.map Prod.snd ++ u.map Prod.snd := by
    rw [hdel, List.map_append]
  have hdrop : l'.irecvs.drop l.irecvDone.length = l.irecvs.drop l.irecvDone.length ++ v := by
    rw [hrecvs, List.drop_append_of_le_length hle']
  refine ⟨?_, ?_, ?_⟩
  · rw [hdone, hrecvs, List.length_append]
    omega
  · have hpos := hr.position
    rw [hreceiver]
    cases hpc : l.receiver with
    | idle | header buf =>
      rw [hpc] at hpos
      rw [RecvAt, hdone, hdrop, hqueue, hreceived, hmap, List.take_append_of_le_length hle, hpos.1]
      exact ⟨rfl, hpos.2⟩
    | chunk buf total off =>
      rw [hpc] at hpos
      obtain ⟨data, orig, hdata, hbufs, htotal, hoff, hbuf, hrest⟩ := hpos
      obtain ⟨hlt, -⟩ := List.getElem?_eq_some_iff.mp hdata
      rw [RecvAt, hdone, hdrop, hqueue, hreceived, hmap,
        List.take_append_of_le_length (Nat.succ_le_of_lt hlt), List.getElem?_append_left hlt]
      exact ⟨data, orig, hdata, by rw [hbufs]; rfl, htotal, hoff, hbuf, hrest⟩
  · intro k r hk
    rw [hdone] at hk
    obtain ⟨data, buf, hdata, hbuf, hres⟩ := hr.results k r hk
    obtain ⟨hlt, -⟩ := List.getElem?_eq_some_iff.mp hdata
    obtain ⟨hlt', -⟩ := List.getElem?_eq_some_iff.mp hbuf
    refine ⟨data, buf, ?_, ?_, hres⟩
    · rwa [hmap, List.getElem?_append_left hlt]
    · rwa [hrecvs, List.getElem?_append_left hlt']

theorem RecvSide.complete {data orig : List UInt8} (hr : RecvSide l)
    (hdata : (l.delivered.map Prod.snd)[l.irecvDone.length]? = some data)
    (horig : l.irecvs.drop l.irecvDone.length = orig :: l.recvQueue)
    (hreceived : l'.received =
      ((l.delivered.map Prod.snd).take (l.irecvDone.length + 1)).flatMap frames)
    (hreceiver : l'.receiver = .idle) (hdone : l'.irecvDone = l.irecvDone ++ [expected data orig])
    (hdel : l'.delivered = l.delivered) (hrecvs : l'.irecvs = l.irecvs)
    (hqueue : l'.recvQueue = l.recvQueue) : RecvSide l' := by
  have horig' : l.irecvs[l.irecvDone.length]? = some orig := by
    rw [← List.head?_drop, horig, List.head?_cons]
  obtain ⟨hlt, -⟩ := List.getElem?_eq_some_iff.mp horig'
  have hlen : l'.irecvDone.length = l.irecvDone.length + 1 := by
    rw [hdone, List.length_append, List.length_singleton]
  refine ⟨?_, ?_, ?_⟩
  · rw [hlen, hrecvs]
    exact hlt
  · rw [hreceiver, RecvAt, hlen, hrecvs, hdel, hreceived, hqueue, ← List.drop_drop, horig]
    exact ⟨rfl, rfl⟩
  · intro k r hk
    rw [hdel, hrecvs]
    rw [hdone, List.getElem?_append] at hk
    split at hk
    · exact hr.results k r hk
    · have hk' : k = l.irecvDone.length := by
        obtain ⟨hk', -⟩ := List.getElem?_eq_some_iff.mp hk
        simp only [List.length_singleton] at hk'
        omega
      subst hk'
      simp only [Nat.sub_self, List.getElem?_cons_zero, Option.some.injEq] at hk
      exact ⟨data, orig, hdata, horig', hk.symm⟩

end Receiver

section Sender
variable {l l' : RcclLink} {data : List UInt8} {off : Nat} {fate : Fate}

theorem drop_min (data : List UInt8) (off : Nat) :
    data.drop (off + min (data.length - off) odlChunk) = data.drop (off + odlChunk) := by
  rcases Nat.le_total (data.length - off) odlChunk with hle | hle
  · rw [min_eq_left hle, List.drop_eq_nil_of_le (by omega), List.drop_eq_nil_of_le (by omega)]
  · rw [min_eq_right hle]

theorem take_min (data : List UInt8) (off : Nat) :
    (data.drop off).take (min (data.length - off) odlChunk) = (data.drop off).take odlChunk := by
  rw [← List.length_drop, min_comm, ← List.take_take, List.take_length]

structure Sending (l : RcclLink) (data : List UInt8) (off : Nat) : Prop where
  done_le : l.isendDone.length ≤ l.isends.length
  queue : l.isends.drop l.isendDone.length = data :: l.sendQueue
  sizes : ∀ data ∈ l.isends, data.length < intMax
  source : ∀ x ∈ l.delivered, l.isends[x.1]? = some x.2
  order : (l.delivered.map Prod.fst).Pairwise (· < ·)
  bound : ∀ x ∈ l.delivered, x.1 ≤ l.isendDone.length
  wire : l.received ++ l.channel ++
      (if l.headerDelivered data then pieces odlChunk (data.drop off) else []) =
    (l.delivered.map Prod.snd).flatMap frames

theorem Sending.next (hs : Sending l data off) (hfate : fate ≠ .refused) :
    SendSide (l.sendNext data off fate) := by
  have hlt : l.isendDone.length < l.isends.length := by
    by_contra hge
    have hnil := hs.queue
    rw [List.drop_eq_nil_of_le (by omega)] at hnil
    contradiction
  rw [RcclLink.sendNext, if_neg hfate]
  split
  · rename_i hoff
    refine ⟨hs.done_le, hs.queue, hs.sizes, hs.source, hs.order, ?_, ?_, hs.wire⟩
    · exact fun x hx => Nat.lt_succ_of_le (hs.bound x hx)
    · rintro data' off' ⟨⟩
      exact hoff
  · rename_i hoff
    have hwire := hs.wire
    rw [pieces_drop_of_le (Nat.le_of_not_lt hoff), ite_self] at hwire
    refine ⟨?_, ?_, hs.sizes, hs.source, hs.order, ?_, by simp, hwire⟩
    · simpa using Nat.succ_le_of_lt hlt
    · simp only [List.length_append, List.length_singleton, ← List.drop_drop, hs.queue]
      rfl
    · intro x hx
      have hle := hs.bound x hx
      simp only [RcclLink.begun, List.length_append, List.length_singleton]
      omega

theorem SendSide.header (hs : SendSide l) (hsender : l.sender = .header data)
    (hfate : fate ≠ .refused) :
    Sending (l.putHeader data fate) data 0 := by
  have hqueue := hs.queue
  have hwire := hs.wire
  have hbound := hs.bound
  rw [hsender, RcclLink.current, List.singleton_append] at hqueue
  simp only [RcclLink.senderRest, RcclLink.begun, hsender, List.append_nil] at hwire hbound
  have hat : l.isends[l.isendDone.length]? = some data := by
    rw [← List.head?_drop, hqueue, List.head?_cons]
  cases fate with
  | refused => contradiction
  | delivered =>
    refine ⟨hs.done_le, hqueue, hs.sizes, ?_, ?_, ?_, ?_⟩
    · intro x hx
      rcases List.mem_append.mp hx with hx | hx
      · exact hs.source x hx
      · rw [List.mem_singleton.mp hx]
        exact hat
    · simp only [RcclLink.putHeader, List.map_append, List.map_cons, List.map_nil,
        List.pairwise_append]
      refine ⟨hs.order, List.pairwise_singleton _ _, fun j hj k hk => ?_⟩
      obtain ⟨x, hx, rfl⟩ := List.mem_map.mp hj
      rw [List.mem_singleton.mp hk]
      exact hbound x hx
    · intro x hx
      rcases List.mem_append.mp hx with hx | hx
      · exact (hbound x hx).le
      · rw [List.mem_singleton.mp hx]
        exact le_rfl
    · have hdel : (l.putHeader data .delivered).headerDelivered data = true := by
        simp [RcclLink.headerDelivered, RcclLink.putHeader]
      rw [hdel, if_pos rfl, List.drop_zero]
      simp only [RcclLink.putHeader, List.map_append, List.flatMap_append, ← hwire]
      simp [frames]
  | lost =>
    have hdel : l.headerDelivered data = false := by
      refine beq_eq_false_iff_ne.mpr fun hlast => ?_
      have hlt := hbound _ (List.mem_of_getLast? hlast)
      exact Nat.lt_irrefl _ hlt
    refine ⟨hs.done_le, hqueue, hs.sizes, hs.source, hs.order, fun x hx => (hbound x hx).le, ?_⟩
    simpa [RcclLink.putHeader, hdel] using hwire

theorem SendSide.chunk (hs : SendSide l) (hsender : l.sender = .chunk data off)
    (hfate : fate = if l.headerDelivered data then .delivered else .lost) :
    Sending (l.put ((data.drop off).take (min (data.length - off) odlChunk)) fate) data
      (off + min (data.length - off) odlChunk) := by
  have hqueue := hs.queue
  have hwire := hs.wire
  have hbound := hs.bound
  rw [hsender, RcclLink.current, List.singleton_append] at hqueue
  simp only [RcclLink.senderRest, RcclLink.begun, hsender] at hwire hbound
  have hbound' (x : Nat × List UInt8) (hx : x ∈ l.delivered) : x.1 ≤ l.isendDone.length :=
    Nat.le_of_lt_succ (hbound x hx)
  cases hdel : l.headerDelivered data with
  | true =>
    rw [hdel, if_pos rfl] at hfate hwire
    subst hfate
    refine ⟨hs.done_le, hqueue, hs.sizes, hs.source, hs.order, hbound', ?_⟩
    rw [pieces_drop (hs.chunk_lt data off hsender)] at hwire
    have hdel' : (l.put ((data.drop off).take (min (data.length - off) odlChunk))
        .delivered).headerDelivered data = true := hdel
    rw [hdel', if_pos rfl, take_min, drop_min]
    simpa [RcclLink.put] using hwire
  | false =>
    rw [hdel, if_neg (by simp)] at hfate hwire
    subst hfate
    refine ⟨hs.done_le, hqueue, hs.sizes, hs.source, hs.order, hbound', ?_⟩
    have hdel' : (l.put ((data.drop off).take (min (data.length - off) odlChunk))
        .lost).headerDelivered data = false := hdel
    rw [hdel', if_neg (by simp)]
    exact hwire

theorem RecvSide.sendNext (hr : RecvSide l) : RecvSide (l.sendNext data off fate) := by
  rw [RcclLink.sendNext]
  split
  · exact ⟨hr.done_le, hr.position, hr.results⟩
  · split <;> exact ⟨hr.done_le, hr.position, hr.results⟩

theorem senderStep_cases (hstep : l.senderStep fate = some l') :
    (∃ data rest, l.sender = .idle ∧ l.sendQueue = data :: rest ∧
      l' = {l with sendQueue := rest, sender := .header data}) ∨
    (∃ data, l.sender = .header data ∧ l' = (l.putHeader data fate).sendNext data 0 fate) ∨
    ∃ data off, l.sender = .chunk data off ∧
      l' = (l.put ((data.drop off).take (min (data.length - off) odlChunk)) fate).sendNext data
        (off + min (data.length - off) odlChunk) fate := by
  rw [RcclLink.senderStep] at hstep
  split at hstep
  · split at hstep <;> cases hstep
    exact .inl ⟨_, _, ‹_›, ‹_›, rfl⟩
  · cases hstep
    exact .inr (.inl ⟨_, ‹_›, rfl⟩)
  · cases hstep
    exact .inr (.inr ⟨_, _, ‹_›, rfl⟩)

theorem senderStep_keeps (hs : SendSide l) (hr : RecvSide l)
    (hok : l.sharesFate (.sender fate) = true) (hstep : l.senderStep fate = some l') :
    SendSide l' ∧ RecvSide l' := by
  rw [RcclLink.sharesFate] at hok
  obtain ⟨data, rest, hsender, hqueue, rfl⟩ | ⟨data, hsender, rfl⟩ | ⟨data, off, hsender, rfl⟩ :=
    senderStep_cases hstep
  · have hold := hs.queue
    have hwire := hs.wire
    have hbound := hs.bound
    simp only [RcclLink.senderRest, RcclLink.begun, hsender] at hwire hbound
    rw [hsender, hqueue] at hold
    refine ⟨⟨hs.done_le, hold, hs.sizes, hs.source, hs.order, hbound, by simp, hwire⟩, ?_⟩
    exact ⟨hr.done_le, hr.position, hr.results⟩
  · have hfate : fate ≠ .refused := by simpa [hsender] using hok
    refine ⟨(hs.header hsender hfate).next hfate, RecvSide.sendNext ?_⟩
    cases fate with
    | delivered => exact hr.mono rfl (List.append_nil _).symm (List.append_nil _).symm rfl rfl rfl
    | _ => exact hr
  · rw [hsender] at hok
    have hfate := beq_iff_eq.mp hok
    refine ⟨(hs.chunk hsender hfate).next ?_, RecvSide.sendNext ?_⟩
    · rw [hfate]
      split <;> simp
    · cases fate with
      | delivered => exact ⟨hr.done_le, hr.position, hr.results⟩
      | _ => exact hr

end Sender

section ReceiverSteps
variable {l l' : RcclLink}

theorem SendSide.of_receiver (hs : SendSide l) (hdone : l'.isendDone = l.isendDone)
    (hisends : l'.isends = l.isends) (hqueue : l'.sendQueue = l.sendQueue)
    (hsender : l'.sender = l.sender) (hdel : l'.delivered = l.delivered)
    (hwire : l'.received ++ l'.channel = l.received ++ l.channel) : SendSide l' := by
  cases l'
  subst hdone hisends hqueue hsender hdel
  refine ⟨hs.done_le, hs.queue, hs.sizes, hs.source, hs.order, hs.bound, hs.chunk_lt, ?_⟩
  rw [hwire]
  exact hs.wire

theorem SendSide.pull {msg buf : List UInt8} {channel : List (List UInt8)} {total off : Nat}
    (hs : SendSide l) (hmsg : l.channel = msg :: channel) :
    SendSide ((l.pull msg channel).recvNext buf total off) := by
  have hwire : (l.pull msg channel).received ++ (l.pull msg channel).channel =
      l.received ++ l.channel := by
    simp [RcclLink.pull, hmsg]
  rw [RcclLink.recvNext]
  split <;> exact hs.of_receiver rfl rfl rfl rfl rfl hwire

theorem toInt_of_lt {n : Nat} (hn : n < intMax) : toInt n = n := if_pos hn

theorem RecvSide.next {data orig : List UInt8} {off : Nat} (hr : RecvSide l)
    (hsize : data.length < intMax) (hle : off ≤ data.length)
    (hdata : (l.delivered.map Prod.snd)[l.irecvDone.length]? = some data)
    (horig : l.irecvs.drop l.irecvDone.length = orig :: l.recvQueue)
    (hdel : l'.delivered = l.delivered) (hdone : l'.irecvDone = l.irecvDone)
    (hrecvs : l'.irecvs = l.irecvs) (hqueue : l'.recvQueue = l.recvQueue)
    (hreceived : l'.received ++ pieces odlChunk (data.drop off) =
      ((l.delivered.map Prod.snd).take (l.irecvDone.length + 1)).flatMap frames) :
    RecvSide (l'.recvNext (filled data orig off) data.length off) := by
  rw [RcclLink.recvNext, toInt_of_lt hsize]
  split
  · rename_i hlt
    refine ⟨?_, ?_, ?_⟩
    · change l'.irecvDone.length ≤ l'.irecvs.length
      rw [hdone, hrecvs]
      exact hr.done_le
    · change RecvAt _ (.chunk _ _ _)
      simp only [RecvAt, hdel, hdone, hrecvs, hqueue]
      exact ⟨data, orig, hdata, horig, rfl, Int.ofNat_lt.mp hlt, rfl, hreceived⟩
    · simp only [hdel, hdone, hrecvs]
      exact hr.results
  · rename_i hge
    have hoff : off = data.length := by omega
    subst hoff
    rw [pieces_drop_of_le le_rfl, List.append_nil] at hreceived
    refine hr.complete hdata horig hreceived rfl ?_ hdel hrecvs hqueue
    change l'.irecvDone ++ [_] = _
    rw [hdone, length_filled le_rfl, expected_of_filled]

theorem header_next {msg : List UInt8} {channel : List (List UInt8)} (hs : SendSide l)
    (hreceived : l.received = ((l.delivered.map Prod.snd).take l.irecvDone.length).flatMap frames)
    (hmsg : l.channel = msg :: channel) :
    ∃ data, (l.delivered.map Prod.snd)[l.irecvDone.length]? = some data ∧
      msg = headerBytes data.length ∧ l.received ++ [msg] ++ pieces odlChunk data =
        ((l.delivered.map Prod.snd).take (l.irecvDone.length + 1)).flatMap frames := by
  have hwire := hs.wire
  rw [← List.take_append_drop l.irecvDone.length (l.delivered.map Prod.snd), List.flatMap_append,
    ← hreceived, List.append_assoc, List.append_cancel_left_eq, hmsg] at hwire
  cases hrest : (l.delivered.map Prod.snd).drop l.irecvDone.length with
  | nil => simp [hrest] at hwire
  | cons data rest =>
    have hat : (l.delivered.map Prod.snd)[l.irecvDone.length]? = some data := by
      rw [← List.head?_drop, hrest, List.head?_cons]
    rw [hrest, List.flatMap_cons, frames, List.cons_append, List.cons_append, List.cons.injEq] at hwire
    refine ⟨data, hat, hwire.1, ?_⟩
    rw [hwire.1, List.take_add_one, hat, List.flatMap_append, ← hreceived]
    simp [frames]

theorem chunk_next {msg data : List UInt8} {off : Nat} {channel : List (List UInt8)}
    (hs : SendSide l) (hoff : off < data.length)
    (hreceived : l.received ++ pieces odlChunk (data.drop off) =
      ((l.delivered.map Prod.snd).take (l.irecvDone.length + 1)).flatMap frames)
    (hmsg : l.channel = msg :: channel) : msg = (data.drop off).take odlChunk := by
  have hwire := hs.wire
  rw [← List.take_append_drop (l.irecvDone.length + 1) (l.delivered.map Prod.snd),
    List.flatMap_append, ← hreceived, List.append_assoc, List.append_assoc,
    List.append_cancel_left_eq, hmsg, pieces_drop hoff, List.cons_append, List.cons_append,
    List.cons.injEq] at hwire
  exact hwire.1

theorem delivered_size (hs : SendSide l) {k : Nat} {data : List UInt8}
    (hdata : (l.delivered.map Prod.snd)[k]? = some data) : data.length < intMax := by
  obtain ⟨x, hx, rfl⟩ := List.mem_map.mp (List.mem_of_getElem? hdata)
  exact hs.sizes _ (List.mem_of_getElem? (hs.source x hx))

theorem receiverStep_keeps (hs : SendSide l) (hr : RecvSide l) (hstep : l.receiverStep true = some l') :
    SendSide l' ∧ RecvSide l' := by
  have hpos := hr.position
  rw [RcclLink.receiverStep] at hstep
  cases hreceiver : l.receiver with
  | idle =>
    rw [hreceiver] at hpos
    cases hqueue : l.recvQueue with
    | nil => simp [hreceiver, hqueue] at hstep
    | cons buf rest =>
      simp only [hreceiver, hqueue, Option.some.injEq] at hstep
      subst hstep
      refine ⟨hs.of_receiver rfl rfl rfl rfl rfl rfl, hr.done_le, ?_, hr.results⟩
      exact ⟨hpos.1.trans hqueue, hpos.2⟩
  | header buf =>
    rw [hreceiver] at hpos
    cases hmsg : l.channel with
    | nil => simp [hreceiver, hmsg] at hstep
    | cons msg channel =>
      obtain ⟨data, hdata, rfl, hrest⟩ := header_next hs hpos.2 hmsg
      have hsize := delivered_size hs hdata
      have hlen : (headerBytes data.length).take 4 = headerBytes data.length := rfl
      have htotal : headerTotal (headerBytes data.length) = data.length :=
        headerTotal_headerBytes (hsize.trans (by decide))
      simp only [hreceiver, hmsg, Bool.not_true, Bool.false_eq_true, if_false, hlen,
        length_headerBytes, ne_eq, not_true_eq_false, htotal, Option.some.injEq] at hstep
      subst hstep
      refine ⟨hs.pull hmsg, ?_⟩
      have hnext : RecvSide ((l.pull (headerBytes data.length) channel).recvNext
          (filled data buf 0) data.length 0) :=
        hr.next hsize (Nat.zero_le _) hdata hpos.1 rfl rfl rfl rfl hrest
      rwa [filled_zero] at hnext
  | chunk buf total off =>
    rw [hreceiver] at hpos
    obtain ⟨data, orig, hdata, horig, rfl, hoff, rfl, hrest⟩ := hpos
    cases hmsg : l.channel with
    | nil => simp [hreceiver, hmsg] at hstep
    | cons msg channel =>
      obtain rfl := chunk_next hs hoff hrest hmsg
      have hgot : ((data.drop off).take odlChunk).take (min (data.length - off) odlChunk) =
          (data.drop off).take odlChunk := by
        rw [List.take_take, min_assoc, min_self, take_min]
      have hlen : ((data.drop off).take odlChunk).length = min (data.length - off) odlChunk := by
        rw [List.length_take, List.length_drop, min_comm]
      have hpos' : ((data.drop off).take odlChunk).length ≠ 0 := by
        have := odlChunk_pos
        omega
      simp only [hreceiver, hmsg, Bool.not_true, Bool.false_eq_true, if_false, hgot,
        writeChunk_filled hoff, if_neg hpos', Option.some.injEq] at hstep
      subst hstep
      refine ⟨hs.pull hmsg, ?_⟩
      refine hr.next (delivered_size hs hdata) (by omega) hdata horig rfl rfl rfl rfl ?_
      rw [hlen, drop_min, ← hrest, pieces_drop hoff]
      simp [RcclLink.pull]

end ReceiverSteps

section Runs
variable {l l' : RcclLink} {h es : List Empty} {a : RcclAct}

theorem SendSide.isend {data : List UInt8} (hs : SendSide l) (hsize : data.length < intMax) :
    SendSide {l with sendQueue := l.sendQueue ++ [data], isends := l.isends ++ [data]} := by
  refine ⟨?_, ?_, ?_, ?_, hs.order, hs.bound, hs.chunk_lt, hs.wire⟩
  · simpa using Nat.le_succ_of_le hs.done_le
  · change (l.isends ++ [data]).drop _ = _ ++ (l.sendQueue ++ [data])
    rw [List.drop_append_of_le_length hs.done_le, hs.queue, List.append_assoc]
  · intro data' hmem
    rcases List.mem_append.mp hmem with hmem | hmem
    · exact hs.sizes data' hmem
    · rwa [List.mem_singleton.mp hmem]
  · intro x hx
    have hold := hs.source x hx
    obtain ⟨hlt, -⟩ := List.getElem?_eq_some_iff.mp hold
    change (l.isends ++ [data])[x.1]? = _
    rwa [List.getElem?_append_left hlt]

theorem framing_step (hs : SendSide l) (hr : RecvSide l) (hok : l.sharesFate a = true)
    (hstep : l.step a = some (l', es)) : SendSide l' ∧ RecvSide l' := by
  cases a with
  | isend data =>
    rw [RcclLink.step] at hstep
    split at hstep
    · cases hstep
      exact ⟨hs.isend ‹_›, ⟨hr.done_le, hr.position, hr.results⟩⟩
    · contradiction
  | irecv buf =>
    rw [RcclLink.step] at hstep
    split at hstep
    · cases hstep
      exact ⟨hs.of_receiver rfl rfl rfl rfl rfl rfl,
        hr.mono (List.append_nil _).symm rfl rfl rfl rfl rfl⟩
    · contradiction
  | sender fate =>
    obtain ⟨l₁, hl₁, heq⟩ := Option.map_eq_some_iff.mp hstep
    cases heq
    exact senderStep_keeps hs hr hok hl₁
  | receiver ok =>
    obtain ⟨l₁, hl₁, heq⟩ := Option.map_eq_some_iff.mp hstep
    cases heq
    rw [RcclLink.sharesFate] at hok
    subst hok
    exact receiverStep_keeps hs hr hl₁

theorem connected_framing : SendSide .connected ∧ RecvSide .connected := by
  refine ⟨⟨le_rfl, rfl, ?_, ?_, List.Pairwise.nil, ?_, ?_, rfl⟩, le_rfl, ⟨rfl, rfl⟩, ?_⟩ <;>
    simp [RcclLink.connected]

theorem framing (hr : Reaches RcclLink.step (fun l _ a => l.sharesFate a = true) .connected l h) :
    SendSide l ∧ RecvSide l := by
  refine hr.invariant (fun l _ => SendSide l ∧ RecvSide l) connected_framing ?_
  intro l h a l' es _ ⟨hs, hr⟩ hok hstep
  exact framing_step hs hr hok hstep

/-- If no call fails and the stream loses a chunk only together with the header and the other chunks
of its transfer, an irecv that does not fail has the bytes of one isend, different irecvs those of
different ones, in their order. -/
theorem no_corrupted_success
    (hr : Reaches RcclLink.step (fun l _ a => l.sharesFate a = true) .connected l h) :
    ∃ sources : List Nat, sources.Pairwise (· < ·) ∧ sources.length = l.irecvDone.length ∧
      ∀ (k i : Nat) (r : IrecvResult), l.irecvDone[k]? = some r → sources[k]? = some i →
        r.failed = false → ∃ data buf, l.isends[i]? = some data ∧ l.irecvs[k]? = some buf ∧
          r.buf = data ++ buf.drop data.length ∧ testRequest (some r) = some (.ok data.length) := by
  obtain ⟨hsend, hrecv⟩ := framing hr
  have hle : l.irecvDone.length ≤ l.delivered.length := by simpa using hrecv.le_delivered
  refine ⟨(l.delivered.map Prod.fst).take l.irecvDone.length,
    hsend.order.sublist (List.take_sublist _ _), by simp [hle], ?_⟩
  intro k i r hk hi hfailed
  obtain ⟨data, buf, hdata, hbuf, rfl⟩ := hrecv.results k r hk
  have hi' : (l.delivered.map Prod.fst)[k]? = some i := by
    rw [List.getElem?_take] at hi
    split at hi
    · exact hi
    · contradiction
  rw [List.getElem?_map, Option.map_eq_some_iff] at hdata hi'
  obtain ⟨x, hx, rfl⟩ := hdata
  obtain ⟨y, hy, rfl⟩ := hi'
  obtain rfl : x = y := Option.some.inj (hx.symm.trans hy)
  refine ⟨x.2, buf, hsend.source x (List.mem_of_getElem? hx), hbuf, ?_⟩
  rw [expected] at hfailed ⊢
  split
  · exact ⟨rfl, rfl⟩
  · simp [‹¬ x.2.length ≤ buf.length›] at hfailed

end Runs

def wholeLoss : List RcclAct := List.flatten
  [[.isend [1, 2, 3, 4, 5], .isend [6], .isend [7, 8], .irecv [0, 0, 0, 0, 0, 0], .irecv [0]],
    List.replicate 3 (.sender .delivered), [.sender .delivered, .sender .lost, .sender .lost],
    List.replicate 3 (.sender .delivered), List.replicate 6 (.receiver true)]

theorem no_corrupted_success_wholeLoss : ∃ l h,
    Reaches RcclLink.step (fun l _ a => l.sharesFate a = true) .connected l h ∧
      l.irecvDone = [⟨[1, 2, 3, 4, 5, 0], false, 5⟩, ⟨[0], true, 2⟩] ∧
      ∃ sources : List Nat, sources.Pairwise (· < ·) ∧ sources.length = l.irecvDone.length ∧
        ∀ (k i : Nat) (r : IrecvResult), l.irecvDone[k]? = some r → sources[k]? = some i →
          r.failed = false → ∃ data buf, l.isends[i]? = some data ∧ l.irecvs[k]? = some buf ∧
            r.buf = data ++ buf.drop data.length ∧
            testRequest (some r) = some (.ok data.length) := by
  have hr : Reaches RcclLink.step (fun l _ a => l.sharesFate a = true) .connected _ _ :=
    .of_acts wholeLoss (by decide +kernel)
  exact ⟨_, _, hr, by decide +kernel, no_corrupted_success hr⟩

def lostChunk : List RcclAct := List.flatten
  [[.isend [1, 2, 3, 4, 5], .isend [9], .irecv [0, 0, 0, 0, 0], .sender .delivered,
      .sender .delivered, .sender .lost],
    List.replicate 3 (.sender .delivered), List.replicate 4 (.receiver true)]

theorem header_received_as_data : ∃ l h,
    Reaches RcclLink.step (fun _ _ _ => True) .connected l h ∧
      l.isends = [[1, 2, 3, 4, 5], [9]] ∧ l.irecvDone = [⟨[1, 0, 0, 0, 9], false, 5⟩] ∧
      testRequest l.irecvDone[0]? = some (.ok 5) :=
  ⟨_, _, .of_free lostChunk (by decide +kernel), by decide +kernel⟩

end OdinLink
