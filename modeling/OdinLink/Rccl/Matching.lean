import OdinLink.Rccl.Framing

/-!
# Transfers match one to one

On a stream that loses nothing every transfer is delivered, so the k-th request of the receiver is
matched with the k-th of the sender. The workers stop only when one side has no request left, and
they do stop.
-/

namespace OdinLink

open History Chunks

def lossless : RcclAct → Bool
  | .sender fate => fate == .delivered
  | .receiver ok => ok
  | _ => true

def AllDelivered (l : RcclLink) : Prop := l.delivered.map Prod.fst = List.range l.begun

section Step
variable {l l' : RcclLink} {es : List Empty} {a : RcclAct}

theorem AllDelivered.headerDelivered (hall : AllDelivered l) (hs : SendSide l) {data : List UInt8}
    {off : Nat} (hsender : l.sender = .chunk data off) : l.headerDelivered data = true := by
  have hqueue := hs.queue
  rw [hsender, RcclLink.current, List.singleton_append] at hqueue
  have hat : l.isends[l.isendDone.length]? = some data := by
    rw [← List.head?_drop, hqueue, List.head?_cons]
  have hlast : (l.delivered.map Prod.fst).getLast? = some l.isendDone.length := by
    rw [hall, RcclLink.begun, hsender, List.range_succ]
    simp
  rw [List.getLast?_map, Option.map_eq_some_iff] at hlast
  obtain ⟨x, hx, hfst⟩ := hlast
  have hsrc := hs.source x (List.mem_of_getLast? hx)
  rw [hfst, hat, Option.some.injEq] at hsrc
  rw [RcclLink.headerDelivered, hx, beq_iff_eq, ← hfst, hsrc]

theorem AllDelivered.sharesFate (hall : AllDelivered l) (hs : SendSide l) (ha : lossless a = true) :
    l.sharesFate a = true := by
  cases a with
  | sender fate =>
    obtain rfl : fate = .delivered := by simpa [lossless] using ha
    rw [RcclLink.sharesFate]
    cases hsender : l.sender with
    | idle | header data => rfl
    | chunk data off => simp [hall.headerDelivered hs hsender]
  | receiver ok => exact ha
  | _ => rfl

theorem begun_sendNext {data : List UInt8} {off : Nat} (l : RcclLink) :
    (l.sendNext data off .delivered).begun = l.isendDone.length + 1 := by
  rw [RcclLink.sendNext, if_neg (by simp)]
  split <;> simp [RcclLink.begun]

theorem sendNext_delivered {data : List UInt8} {off : Nat} {fate : Fate} (l : RcclLink) :
    (l.sendNext data off fate).delivered = l.delivered := by
  rw [RcclLink.sendNext]
  split
  · rfl
  · split <;> rfl

theorem AllDelivered.sender (hall : AllDelivered l) (hstep : l.senderStep .delivered = some l') :
    AllDelivered l' := by
  rw [AllDelivered] at hall ⊢
  obtain ⟨data, rest, hsender, -, rfl⟩ | ⟨data, hsender, rfl⟩ | ⟨data, off, hsender, rfl⟩ :=
    senderStep_cases hstep
  · simpa [RcclLink.begun, hsender] using hall
  · rw [begun_sendNext, sendNext_delivered]
    simp only [RcclLink.begun, hsender] at hall
    simp [RcclLink.putHeader, hall, List.range_succ]
  · rw [begun_sendNext, sendNext_delivered]
    simp only [RcclLink.begun, hsender] at hall
    exact hall

theorem receiverStep_sender {ok : Bool} (hstep : l.receiverStep ok = some l') :
    l'.delivered = l.delivered ∧ l'.sender = l.sender ∧ l'.isendDone = l.isendDone ∧
      l'.sendQueue = l.sendQueue ∧ l'.isends = l.isends := by
  have hnext (l : RcclLink) (buf : List UInt8) (total off : Nat) :
      (l.recvNext buf total off).delivered = l.delivered ∧
        (l.recvNext buf total off).sender = l.sender ∧
        (l.recvNext buf total off).isendDone = l.isendDone ∧
        (l.recvNext buf total off).sendQueue = l.sendQueue ∧
        (l.recvNext buf total off).isends = l.isends := by
    rw [RcclLink.recvNext]
    split <;> exact ⟨rfl, rfl, rfl, rfl, rfl⟩
  rw [RcclLink.receiverStep] at hstep
  split at hstep
  · split at hstep
    · contradiction
    · cases hstep
      exact ⟨rfl, rfl, rfl, rfl, rfl⟩
  all_goals
    split at hstep
    · cases hstep
      exact ⟨rfl, rfl, rfl, rfl, rfl⟩
    split at hstep
    · contradiction
    simp only at hstep
    split at hstep <;> cases hstep
    · exact ⟨rfl, rfl, rfl, rfl, rfl⟩
    · exact hnext _ _ _ _

theorem AllDelivered.step (hall : AllDelivered l) (ha : lossless a = true)
    (hstep : l.step a = some (l', es)) : AllDelivered l' := by
  cases a with
  | isend data | irecv buf =>
    rw [RcclLink.step] at hstep
    split at hstep
    · cases hstep
      exact hall
    · contradiction
  | sender fate =>
    obtain rfl : fate = .delivered := by simpa [lossless] using ha
    obtain ⟨l₁, hl₁, heq⟩ := Option.map_eq_some_iff.mp hstep
    cases heq
    exact hall.sender hl₁
  | receiver ok =>
    obtain ⟨l₁, hl₁, heq⟩ := Option.map_eq_some_iff.mp hstep
    cases heq
    obtain ⟨hdel, hsender, hdone, -, -⟩ := receiverStep_sender hl₁
    rw [AllDelivered, hdel, RcclLink.begun, hsender, hdone]
    exact hall

theorem AllDelivered.data (hall : AllDelivered l) (hs : SendSide l) :
    l.delivered.map Prod.snd = l.isends.take l.begun := by
  have hlen : l.delivered.length = l.begun := by
    have := congrArg List.length hall
    simpa using this
  refine List.ext_getElem? fun k => ?_
  rw [List.getElem?_take]
  split
  · rename_i hk
    have hidx : (l.delivered.map Prod.fst)[k]? = some k := by
      rw [hall, List.getElem?_range hk]
    rw [List.getElem?_map, Option.map_eq_some_iff] at hidx
    obtain ⟨x, hx, hfst⟩ := hidx
    rw [List.getElem?_map, hx, Option.map_some, ← hs.source x (List.mem_of_getElem? hx), hfst]
  · rw [List.getElem?_eq_none (by simp; omega)]

end Step

section Rest
variable {l : RcclLink}

theorem flatMap_frames_eq_nil {u : List (List UInt8)} (hnil : u.flatMap frames = []) : u = [] := by
  cases u with
  | nil => rfl
  | cons data rest => simp [frames] at hnil

theorem sender_rests (hs : SendSide l) (hstuck : l.senderStep .delivered = none) :
    l.begun = l.isends.length ∧ l.senderRest = [] := by
  rw [RcclLink.senderStep] at hstuck
  cases hsender : l.sender with
  | idle =>
    cases hqueue : l.sendQueue with
    | cons data rest => simp [hsender, hqueue] at hstuck
    | nil =>
      have hdrop := hs.queue
      have hle := hs.done_le
      rw [hsender, hqueue, RcclLink.current, List.append_nil, List.drop_eq_nil_iff] at hdrop
      simp only [RcclLink.begun, RcclLink.senderRest, hsender]
      exact ⟨by omega, trivial⟩
  | header data | chunk data off => simp [hsender] at hstuck

theorem receiver_rests (hstuck : l.receiverStep true = none) :
    l.receiver = .idle ∧ l.recvQueue = [] ∨ l.receiver ≠ .idle ∧ l.channel = [] := by
  rw [RcclLink.receiverStep] at hstuck
  cases hreceiver : l.receiver with
  | idle =>
    cases hqueue : l.recvQueue with
    | nil => exact .inl ⟨rfl, rfl⟩
    | cons buf rest => simp [hreceiver, hqueue] at hstuck
  | header buf | chunk buf total off =>
    cases hch : l.channel with
    | nil => exact .inr ⟨by simp, rfl⟩
    | cons msg channel =>
      simp only [hreceiver, hch] at hstuck
      split at hstuck
      · contradiction
      · split at hstuck <;> contradiction

theorem all_matched (hs : SendSide l) (hr : RecvSide l) (hall : AllDelivered l)
    (hsender : l.senderStep .delivered = none) (hreceiver : l.receiverStep true = none) :
    l.irecvDone.length = min l.isends.length l.irecvs.length := by
  obtain ⟨hbegun, hrest⟩ := sender_rests hs hsender
  have hdata : l.delivered.map Prod.snd = l.isends := by
    rw [hall.data hs, hbegun, List.take_length]
  have hle := hr.le_delivered
  have hle' := hr.done_le
  have hpos := hr.position
  rw [hdata] at hle
  rcases receiver_rests hreceiver with ⟨hidle, hqueue⟩ | ⟨hbusy, hch⟩
  · rw [hidle, RecvAt, hqueue, List.drop_eq_nil_iff] at hpos
    omega
  · have hwire := hs.wire
    rw [hrest, hch, List.append_nil, List.append_nil, hdata] at hwire
    cases hpc : l.receiver with
    | idle => contradiction
    | header buf =>
      rw [hpc, RecvAt, hdata, hwire] at hpos
      have hdrop := hpos.2
      rw [← List.take_append_drop l.irecvDone.length l.isends, List.flatMap_append,
        List.take_append_drop, List.append_right_eq_self] at hdrop
      have hnil := List.drop_eq_nil_iff.mp (flatMap_frames_eq_nil hdrop)
      omega
    | chunk buf total off =>
      rw [hpc] at hpos
      obtain ⟨data, orig, hat, -, -, hoff, -, hpieces⟩ := hpos
      rw [hdata, hwire, ← List.take_append_drop (l.irecvDone.length + 1) l.isends,
        List.flatMap_append, List.take_append_drop, List.append_assoc, List.append_right_eq_self,
        List.append_eq_nil_iff] at hpieces
      exact absurd hpieces.2 (pieces_ne_nil odlChunk_pos (by rw [List.length_drop]; omega))

end Rest

section Termination
variable {l l' : RcclLink} {es : List Empty} {a : RcclAct}

def queueWork : List (List UInt8) → Nat
  | [] => 0
  | data :: rest => 2 * (frames data).length + 1 + queueWork rest

def senderWork : SenderPc → Nat
  | .idle => 0
  | .header data => (frames data).length
  | .chunk data off => (pieces odlChunk (data.drop off)).length

def receiverWork : ReceiverPc → Nat
  | .idle => 0
  | .header _ | .chunk _ _ _ => 1

def RcclLink.work (l : RcclLink) : Nat :=
  queueWork l.sendQueue + 2 * senderWork l.sender + l.channel.length + 2 * l.recvQueue.length +
    receiverWork l.receiver

theorem sendNext_work (l : RcclLink) (data : List UInt8) (off : Nat) :
    (l.sendNext data off .delivered).work + 2 * senderWork l.sender =
      l.work + 2 * (pieces odlChunk (data.drop off)).length := by
  rw [RcclLink.sendNext, if_neg (by simp)]
  split
  · simp only [RcclLink.work, senderWork]
    omega
  · rename_i hoff
    rw [pieces_drop_of_le (Nat.le_of_not_lt hoff)]
    simp only [RcclLink.work, senderWork, List.length_nil]
    omega

theorem senderStep_work (hs : SendSide l) (hstep : l.senderStep .delivered = some l') :
    l'.work < l.work := by
  obtain ⟨data, rest, hsender, hqueue, rfl⟩ | ⟨data, hsender, rfl⟩ | ⟨data, off, hsender, rfl⟩ :=
    senderStep_cases hstep
  · simp only [RcclLink.work, hsender, hqueue, queueWork, senderWork]
    omega
  · have hwork := sendNext_work (l.putHeader data .delivered) data 0
    simp only [RcclLink.putHeader, RcclLink.work, hsender, senderWork, frames, List.length_cons,
      List.length_append, List.length_nil, List.drop_zero] at hwork ⊢
    omega
  · have hwork := sendNext_work
      (l.put ((data.drop off).take (min (data.length - off) odlChunk)) .delivered) data
      (off + min (data.length - off) odlChunk)
    rw [drop_min] at hwork
    have hpieces := congrArg List.length (pieces_drop (hs.chunk_lt data off hsender))
    simp only [RcclLink.put, RcclLink.work, hsender, senderWork, List.length_cons,
      List.length_append, List.length_nil] at hwork hpieces ⊢
    omega

theorem recvNext_work (l : RcclLink) {buf : List UInt8} {total off : Nat}
    (hbusy : receiverWork l.receiver = 1) : (l.recvNext buf total off).work ≤ l.work := by
  rw [RcclLink.recvNext, RcclLink.work.eq_def l, hbusy]
  split <;> simp only [RcclLink.recvDone, RcclLink.work, receiverWork] <;> omega

theorem receiverStep_work (hstep : l.receiverStep true = some l') : l'.work < l.work := by
  rw [RcclLink.receiverStep] at hstep
  cases hreceiver : l.receiver with
  | idle =>
    cases hqueue : l.recvQueue with
    | nil => simp [hreceiver, hqueue] at hstep
    | cons buf rest =>
      simp only [hreceiver, hqueue, Option.some.injEq] at hstep
      subst hstep
      simp only [RcclLink.work, hreceiver, hqueue, receiverWork, List.length_cons]
      omega
  | header buf | chunk buf total off =>
    cases hch : l.channel with
    | nil => simp [hreceiver, hch] at hstep
    | cons msg channel =>
      have hpull : (l.pull msg channel).work < l.work := by
        simp [RcclLink.pull, RcclLink.work, hch]
      have hbusy : receiverWork (l.pull msg channel).receiver = 1 := by
        simp [RcclLink.pull, hreceiver, receiverWork]
      simp only [hreceiver, hch] at hstep
      split at hstep
      · contradiction
      · split at hstep <;> cases hstep
        · simp only [RcclLink.recvDone, RcclLink.pull, RcclLink.work, receiverWork, hreceiver, hch,
            List.length_cons]
          omega
        · exact (recvNext_work _ hbusy).trans_lt hpull

theorem step_work (hs : SendSide l) (hworker : a.worker = true) (ha : lossless a = true)
    (hstep : l.step a = some (l', es)) : l'.work < l.work := by
  cases a with
  | isend data | irecv buf => simp [RcclAct.worker] at hworker
  | sender fate =>
    obtain rfl : fate = .delivered := by simpa [lossless] using ha
    obtain ⟨l₁, hl₁, heq⟩ := Option.map_eq_some_iff.mp hstep
    cases heq
    exact senderStep_work hs hl₁
  | receiver ok =>
    obtain rfl : ok = true := ha
    obtain ⟨l₁, hl₁, heq⟩ := Option.map_eq_some_iff.mp hstep
    cases heq
    exact receiverStep_work hl₁

theorem length_le_work {as : List RcclAct} {h : List Empty} (hs : SendSide l) (hr : RecvSide l)
    (hall : AllDelivered l) (hrun : (run RcclLink.step (fun _ _ a => a.worker && lossless a) l h
      as).isSome = true) : as.length ≤ l.work := by
  induction as generalizing l h with
  | nil => exact Nat.zero_le _
  | cons a as ih =>
    rw [run] at hrun
    split at hrun
    · rename_i hok
      rw [Bool.and_eq_true] at hok
      split at hrun
      · contradiction
      · rename_i r hstep
        have hlt := step_work hs hok.1 hok.2 hstep
        obtain ⟨hs', hr'⟩ := framing_step hs hr (hall.sharesFate hs hok.2) hstep
        have hle := ih hs' hr' (hall.step hok.2 hstep) hrun
        rw [List.length_cons]
        omega
    · contradiction

end Termination

section Runs
variable {l : RcclLink} {h : List Empty}
  (hr : Reaches RcclLink.step (fun _ _ a => lossless a = true) .connected l h)
include hr

theorem lossless_framing : SendSide l ∧ RecvSide l ∧ AllDelivered l := by
  refine hr.invariant (fun l _ => SendSide l ∧ RecvSide l ∧ AllDelivered l)
    ⟨connected_framing.1, connected_framing.2, rfl⟩ ?_
  intro l h a l' es _ ⟨hs, hr, hall⟩ ha hstep
  obtain ⟨hs', hr'⟩ := framing_step hs hr (hall.sharesFate hs ha) hstep
  exact ⟨hs', hr', hall.step ha hstep⟩

theorem result_matched {k : Nat} {r : IrecvResult} (hk : l.irecvDone[k]? = some r) :
    ∃ data buf, l.isends[k]? = some data ∧ l.irecvs[k]? = some buf ∧ r = expected data buf := by
  obtain ⟨hs, hr, hall⟩ := lossless_framing hr
  obtain ⟨data, buf, hdata, hbuf, hres⟩ := hr.results k r hk
  refine ⟨data, buf, ?_, hbuf, hres⟩
  rw [hall.data hs, List.getElem?_take] at hdata
  split at hdata
  · exact hdata
  · contradiction

theorem frames_consumed (hbetween : ∀ buf total off, l.receiver ≠ .chunk buf total off) :
    l.received = (l.isends.take l.irecvDone.length).flatMap frames := by
  obtain ⟨hs, hr, hall⟩ := lossless_framing hr
  have hpos := hr.position
  have hle := hr.le_delivered
  have htake : (l.delivered.map Prod.snd).take l.irecvDone.length =
      l.isends.take l.irecvDone.length := by
    have hlen := congrArg List.length (hall.data hs)
    rw [List.length_take] at hlen
    rw [hall.data hs, List.take_take, min_eq_left (by omega)]
  rw [← htake]
  cases hreceiver : l.receiver with
  | idle | header buf =>
    rw [hreceiver] at hpos
    exact hpos.2
  | chunk buf total off => exact absurd hreceiver (hbetween buf total off)

/-- On a stream that loses nothing and fails no call: the k-th irecv to complete is the k-th posted
and has the bytes and the size of the k-th isend, or has failed with its buffer untouched if they do
not fit; either way exactly the messages of that isend were taken off the stream; and the workers
stop after finitely many steps, with as many irecvs completed as there are pairs. -/
theorem transfers_match_one_to_one :
    (∀ (k : Nat) (r : IrecvResult), l.irecvDone[k]? = some r → ∃ data buf,
      l.isends[k]? = some data ∧ l.irecvs[k]? = some buf ∧
        (data.length ≤ buf.length → r.buf = data ++ buf.drop data.length ∧
          testRequest (some r) = some (.ok data.length)) ∧
        (buf.length < data.length → r.buf = buf ∧ testRequest (some r) = some (.error ()))) ∧
    ((∀ buf total off, l.receiver ≠ .chunk buf total off) →
      l.received = (l.isends.take l.irecvDone.length).flatMap frames) ∧
    (l.step (.sender .delivered) = none → l.step (.receiver true) = none →
      l.irecvDone.length = min l.isends.length l.irecvs.length) ∧
    ∃ n, ∀ as, (run RcclLink.step (fun _ _ a => a.worker && lossless a) l h as).isSome = true →
      as.length ≤ n := by
  obtain ⟨hs, hrecv, hall⟩ := lossless_framing hr
  refine ⟨fun k r hk => ?_, frames_consumed hr, fun hsender hreceiver => ?_, l.work,
    fun as hrun => length_le_work hs hrecv hall hrun⟩
  · obtain ⟨data, buf, hdata, hbuf, rfl⟩ := result_matched hr hk
    refine ⟨data, buf, hdata, hbuf, fun hfit => ?_, fun hlarge => ?_⟩
    · rw [expected, if_pos hfit]
      exact ⟨rfl, rfl⟩
    · rw [expected, if_neg (by omega)]
      exact ⟨rfl, rfl⟩
  · exact all_matched hs hrecv hall (Option.map_eq_none_iff.mp hsender)
      (Option.map_eq_none_iff.mp hreceiver)

end Runs

def threeTransfers : List RcclAct := List.flatten
  [[.isend [], .isend [1, 2, 3], .irecv [], .irecv [0], .isend [4], .irecv [0, 0]],
    List.replicate 8 (.sender .delivered), List.replicate 8 (.receiver true)]

theorem transfers_match_threeTransfers : ∃ l h,
    Reaches RcclLink.step (fun _ _ a => lossless a = true) .connected l h ∧
      l.irecvDone = [⟨[], false, 0⟩, ⟨[0], true, 3⟩, ⟨[4, 0], false, 1⟩] ∧
      l.irecvDone.length = min l.isends.length l.irecvs.length := by
  have hr : Reaches RcclLink.step (fun _ _ a => lossless a = true) .connected _ _ :=
    .of_acts threeTransfers (by decide +kernel)
  exact ⟨_, _, hr, by decide +kernel,
    (transfers_match_one_to_one hr).2.2.1 (by decide +kernel) (by decide +kernel)⟩

end OdinLink
