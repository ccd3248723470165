import OdinLink.Daemon.SyncWire
import OdinLink.Driver.RoundTrip

/-!
# What is sent on the sync stream

The `odl_sync_send_*` functions write the structure of a message behind a header with a tag over the
header. The receiver reads the same message back, whatever its buffer held before; in between,
the streams of the driver cut the bytes into frames and put them together again.
-/

namespace OdinLink

@[simp] def odlSyncPathMax : Nat := 256

@[simp] def leBytes : Nat → Nat → List UInt8
  | 0, _ => []
  | n + 1, x => UInt8.ofNat x :: leBytes n (x / 256)

inductive Field where
  | u32 (x : Nat) | u64 (x : Nat) | path (rel : List UInt8) | bytes (bs : List UInt8)

namespace Field

/-- A path is cut so that it ends with a zero, in a structure that was cleared. -/
@[simp] def wire : Field → List UInt8
  | .u32 x => leBytes 4 x
  | .u64 x => leBytes 8 x
  | .path rel => (rel.take (odlSyncPathMax - 1)).rightpad odlSyncPathMax 0
  | .bytes bs => bs

def Fits : Field → Prop
  | .u32 x => x < 2 ^ 32
  | .u64 x => x < 2 ^ 64
  | .path rel => rel.length < odlSyncPathMax ∧ 0 ∉ rel
  | .bytes _ => True

/-- What the receiver reads at `off`. -/
@[simp] def At (mem : Mem) (off : Nat) : Field → Prop
  | .u32 x => mem.le32 off = x
  | .u64 x => mem.le64 off = x
  | .path rel => mem.cstr off strLimit = rel
  | .bytes bs => mem.read off bs.length = bs

@[simp] def AllAt (mem : Mem) : Nat → List Field → Prop
  | _, [] => True
  | off, f :: fs => f.At mem off ∧ AllAt mem (off + f.wire.length) fs

end Field

/-- From `file_size` to the field behind `mode`. -/
@[simp] def FileInfo.fields (info : FileInfo) (last : Nat) : List Field :=
  [.u64 info.fileSize, .u64 info.mtimeNs, .u32 info.mode, .u32 last]

namespace SyncMsg

/-- The type of a message, and what `odl_sync_send_file_meta` and so on put behind the header. No
handler reads the `mtime_ns` of a deletion. -/
def layout (mtimeNs : Nat) : SyncMsg → Nat × List Field
  | .fileMeta rel info n => (0x01, .path rel :: info.fields n ++ [.bytes info.sha256])
  | .fileData i data => (0x02, [.u32 i, .u32 data.length, .bytes data])
  | .fileAck rel status => (0x03, [.path rel, .u32 status, .u32 0])
  | .fileDelete rel => (0x04, [.path rel, .u64 mtimeNs])
  | .dirCreate rel mtimeNs mode => (0x05, [.path rel, .u64 mtimeNs, .u32 mode, .u32 0])
  | .dirDelete rel => (0x06, [.path rel, .u64 mtimeNs, .u32 0, .u32 0])
  | .syncReq => (0x10, [])
  | .listingEntry rel info =>
    (0x11, .path rel :: info.fields info.isDir.toNat ++ [.bytes info.sha256])
  | .listingEnd => (0x12, [])
  | .fetchReq rel => (0x20, [.path rel])
  | .fetchResp rel info n status =>
    (0x21, .path rel :: info.fields n ++ [.u32 status, .u32 0, .bytes info.sha256])
  | .removeReq rel => (0x22, [.path rel])
  | .removeAck rel status => (0x23, [.path rel, .u32 status, .u32 0])
  | .fileChanged rel info =>
    (0x30, .path rel :: info.fields info.isDir.toNat ++ [.bytes info.sha256])
  | .fileRemoved rel isDir => (0x31, [.path rel, .u32 isDir.toNat, .u32 0])

/-- What the arguments of the sending functions can say. -/
def Proper (mtimeNs : Nat) (msg : SyncMsg) : Prop :=
  (∀ f ∈ (msg.layout mtimeNs).2, f.Fits) ∧
    match msg with
    | .fileMeta _ info _ | .fetchResp _ info _ _ => info.isDir = false ∧ info.sha256.length = 32
    | .listingEntry _ info | .fileChanged _ info => info.sha256.length = 32
    | .fileData _ data => data.length ≤ odlSyncChunkSize
    | _ => True

end SyncMsg

section Send
variable (hmac : List UInt8 → List UInt8)

@[simp] def fillHeader (type payloadLen seq : Nat) : List Field :=
  let hdr : List Field :=
    [.u32 odlSyncMagic, .u32 odlSyncVersion, .u32 type, .u32 payloadLen, .u32 seq]
  hdr ++ [.bytes ((hmac (hdr.flatMap Field.wire)).take 4)]

/-- The header and the structure of the message number `seq`. -/
def SyncMsg.message (seq mtimeNs : Nat) (msg : SyncMsg) : List Field :=
  let fields := (msg.layout mtimeNs).2
  fillHeader hmac (msg.layout mtimeNs).1 (fields.flatMap Field.wire).length seq ++ fields

def SyncMsg.encode (seq mtimeNs : Nat) (msg : SyncMsg) : List UInt8 :=
  (msg.message hmac seq mtimeNs).flatMap Field.wire

/-- Messages, each with its `mtimeNs`; the last one before them had the number `seq`. -/
def odlSyncSend (seq : Nat) (msgs : List (Nat × SyncMsg)) : List (List UInt8) :=
  msgs.zipIdx.map fun (m, i) => m.2.encode hmac ((seq + i + 1) % 2 ^ 32) m.1

end Send

/-- `sync_receiver_loop`; what was received stays in the buffer. -/
def syncReceiverLoop : Mem → List (List UInt8) → List RecvAction
  | _, [] => []
  | buf, msg :: msgs => recvAction buf msg :: syncReceiverLoop (buf.dmaWrite (received msg)) msgs

section Fields
variable {mem : Mem} {a b rel : List UInt8} {f : Field}

theorem cstr_dmaWrite {n : Nat} (hn : rel.length < n) (hrel : 0 ∉ rel) :
    (mem.dmaWrite (a ++ (rel ++ 0 :: b))).cstr a.length n = rel := by
  induction rel generalizing a n with
  | nil =>
    cases n with
    | zero => contradiction
    | succ n => simp [Mem.cstr, Mem.dmaWrite]
  | cons c rel ih =>
    cases n with
    | zero => contradiction
    | succ n =>
      have h := @ih (a ++ [c]) n (Nat.lt_of_succ_lt_succ hn) (List.not_mem_of_not_mem_cons hrel)
      have hc : c ≠ 0 := fun h0 => hrel (h0 ▸ List.mem_cons_self)
      simp_all [Mem.cstr, Mem.dmaWrite]

theorem Field.Fits.at (hf : f.Fits) : f.At (mem.dmaWrite (a ++ (f.wire ++ b))) a.length := by
  cases f with
  | u32 x =>
    rw [Field.Fits] at hf
    simp [Mem.le32, Mem.dmaWrite]
    omega
  | u64 x =>
    rw [Field.Fits] at hf
    simp [Mem.le64, Mem.le32, Mem.dmaWrite, Nat.add_assoc]
    omega
  | path rel =>
    obtain ⟨hlt, hrel⟩ := hf
    obtain ⟨k, hk⟩ := Nat.exists_eq_add_of_lt hlt
    have hwire : (path rel).wire = rel ++ 0 :: List.replicate k 0 := by
      rw [wire, List.take_of_length_le (Nat.le_sub_one_of_lt hlt), List.rightpad, hk,
        Nat.add_assoc, Nat.add_sub_cancel_left, List.replicate_succ]
    rw [At, hwire, List.append_assoc]
    exact cstr_dmaWrite (hlt.trans (by decide)) hrel
  | bytes bs => simp [Mem.read_dmaWrite]

theorem allAt {fs : List Field} (hf : ∀ f ∈ fs, f.Fits) :
    Field.AllAt (mem.dmaWrite (a ++ fs.flatMap Field.wire)) a.length fs := by
  induction fs generalizing a with
  | nil => trivial
  | cons f fs ih =>
    rw [List.flatMap_cons]
    refine ⟨(hf f List.mem_cons_self).at, ?_⟩
    have h := @ih (a ++ f.wire) fun g hg => hf g (List.mem_cons_of_mem f hg)
    rwa [List.append_assoc, List.length_append] at h

end Fields

section RoundTrip
variable {hmac : List UInt8 → List UInt8} {seq mtimeNs : Nat} {msg : SyncMsg}

theorem SyncMsg.Proper.length_le (hmsg : msg.Proper mtimeNs) :
    ((msg.layout mtimeNs).2.flatMap Field.wire).length ≤ 8 + odlSyncChunkSize := by
  obtain ⟨-, hmsg⟩ := hmsg
  cases msg <;> simp_all [SyncMsg.layout, odlSyncChunkSize]
  all_goals omega

theorem SyncMsg.Proper.read {mem : Mem} (hmsg : msg.Proper mtimeNs)
    (htype : mem.le32 8 = (msg.layout mtimeNs).1)
    (hall : Field.AllAt mem 24 (msg.layout mtimeNs).2) : mem.syncMsg = some msg := by
  obtain ⟨-, hmsg⟩ := hmsg
  cases msg <;> simp [SyncMsg.layout] at htype hall hmsg
  all_goals simp_all [Mem.syncMsg, Mem.relPath, Mem.fileInfo]
  all_goals rw [← hmsg.1]

theorem SyncMsg.Proper.fits (hseq : seq < 2 ^ 32) (hmsg : msg.Proper mtimeNs) :
    ∀ f ∈ msg.message hmac seq mtimeNs, f.Fits := by
  have hle := hmsg.length_le
  have htype : (msg.layout mtimeNs).1 < 2 ^ 32 := by cases msg <;> simp [SyncMsg.layout]
  intro f hf
  rcases List.mem_append.mp hf with hf | hf
  · simp only [fillHeader, List.cons_append, List.nil_append, List.mem_cons, List.not_mem_nil,
      or_false] at hf
    rcases hf with rfl | rfl | rfl | rfl | rfl | rfl
    all_goals simp only [Field.Fits, odlSyncMagic, odlSyncVersion, odlSyncChunkSize] at *
    all_goals omega
  · exact hmsg.1 f hf

theorem SyncMsg.Proper.encode_length (hlen : ∀ bs, (hmac bs).length = 32) :
    (msg.encode hmac seq mtimeNs).length =
      24 + ((msg.layout mtimeNs).2.flatMap Field.wire).length := by
  simp [SyncMsg.encode, SyncMsg.message, hlen]
  omega

theorem SyncMsg.Proper.received (hlen : ∀ bs, (hmac bs).length = 32) (hseq : seq < 2 ^ 32)
    (hmsg : msg.Proper mtimeNs) {bs : List UInt8} (hbs : bs = msg.encode hmac seq mtimeNs)
    (buf : Mem) : recvAction buf bs = .sync msg ∧ passes hmac buf bs := by
  have hall := @allAt buf [] (msg.message hmac seq mtimeNs) (hmsg.fits hseq)
  have hsize : bs.length = _ := hbs ▸ encode_length hlen
  have hle := hmsg.length_le
  have hwhole : OdinLink.received bs = bs := List.take_of_length_le (by rw [recvBufSize]; omega)
  have hread : (buf.dmaWrite bs).read 0 20 = bs.take 20 := Mem.read_dmaWrite buf bs (by omega)
  rw [List.nil_append, ← SyncMsg.encode, ← hbs] at hall
  simp [SyncMsg.message, hlen] at hall
  obtain ⟨hmagic, hversion, htype, hpayload, -, htag, hfields⟩ := hall
  rw [recvAction, passes, hwhole]
  constructor
  · rw [syncReceive, if_neg (by omega), if_pos hmagic, if_neg (by rw [syncHeaderSize]; omega),
      hmsg.read htype hfields]
  · refine ⟨(msg.layout mtimeNs).1, ?_⟩
    simp [odlSyncRecvMsg, syncHeaderSize, hmagic, hversion, htype, hpayload, htag, hread, hsize]
    simp [hbs, SyncMsg.encode, SyncMsg.message]

theorem syncReceiverLoop_map {α : Type} {f : α → List UInt8} {g : α → RecvAction} {xs : List α}
    (h : ∀ x ∈ xs, ∀ buf, recvAction buf (f x) = g x) (buf : Mem) :
    syncReceiverLoop buf (xs.map f) = xs.map g := by
  induction xs generalizing buf with
  | nil => rfl
  | cons x xs ih =>
    exact congrArg₂ List.cons (h x List.mem_cons_self buf) (ih (fun y hy => h y (.tail x hy)) _)

/-- However many messages are sent, the receiver handles them as they were sent and in their order,
whatever its buffer held, and each passes all checks of the protocol's own receive function. -/
theorem sync_stream_round_trip (hlen : ∀ bs, (hmac bs).length = 32) (buf : Mem) (seq : Nat)
    {msgs : List (Nat × SyncMsg)} (hmsgs : ∀ m ∈ msgs, m.2.Proper m.1) :
    syncReceiverLoop buf (odlSyncSend hmac seq msgs) = msgs.map (.sync ·.2) ∧
      ∀ bs ∈ odlSyncSend hmac seq msgs, ∀ buf, passes hmac buf bs := by
  have hrecv (x) (hx : x ∈ msgs.zipIdx) :=
    (hmsgs x.1 (List.fst_mem_of_mem_zipIdx hx)).received hlen
      (Nat.mod_lt (seq + x.2 + 1) (by decide)) rfl
  constructor
  · rw [odlSyncSend, syncReceiverLoop_map (g := fun x => .sync x.1.2) fun x hx buf =>
      (hrecv x hx buf).1]
    have hfst := congrArg (List.map fun m => RecvAction.sync m.2) (List.zipIdx_map_fst 0 msgs)
    rwa [List.map_map] at hfst
  · intro bs hbs buf
    obtain ⟨x, hx, rfl⟩ := List.mem_map.mp hbs
    exact (hrecv x hx buf).2

theorem sync_stream_round_trip_fetch : ∃ bs, syncReceiverLoop (fun _ => 255) bs =
    [.sync (.fetchReq [97]), .sync (.fileData 0 [1, 2])] := by
  have hmsgs : ∀ m ∈ [(0, SyncMsg.fetchReq [97]), (0, .fileData 0 [1, 2])], m.2.Proper m.1 := by
    simp [SyncMsg.Proper, SyncMsg.layout, Field.Fits, odlSyncChunkSize]
  exact ⟨_, (@sync_stream_round_trip (fun _ => List.replicate 32 0) (by simp) _ 0 _ hmsgs).1⟩

end RoundTrip

section Link
variable {hmac : List UInt8 → List UInt8} {dev : RxDevice} {d : UInt8} {s : Stream}

/-- A send of the sync engine. -/
structure SyncSend where
  send : Send
  msg : SyncMsg
  mtimeNs : Nat
  seq : Nat

def SyncSend.Proper (hmac : List UInt8 → List UInt8) (x : SyncSend) : Prop :=
  x.msg.Proper x.mtimeNs ∧ x.seq < 2 ^ 32 ∧ x.send.data = x.msg.encode hmac x.seq x.mtimeNs

theorem SyncSend.Proper.accepted (hlen : ∀ bs, (hmac bs).length = 32) {x : SyncSend}
    (hx : x.Proper hmac) : x.send.Accepted := by
  have hle := hx.1.length_le
  rw [Send.Accepted, hx.2.2, SyncMsg.Proper.encode_length hlen]
  simp only [odlSyncChunkSize, streamPayloadMax, streamMaxFrames] at *
  omega

/-- Messages sent over the link one send after another, each completed or broken off by whatever it
meets: all are of a size that the stream accepts, and the receiver handles exactly those whose sends
completed, as they were sent and in order. -/
theorem sync_messages_cross_link (hlen : ∀ bs, (hmac bs).length = 32)
    (hs : dev.streams d = some s) (hopen : s.refcount ≠ 0) {sends : List SyncSend}
    (hsends : ∀ x ∈ sends, x.Proper hmac) {evs : List RxEvent} (hem : ∀ e ∈ evs, e.emitted)
    (halloc : ∀ e ∈ evs, e.allocOk) (hroom : dev.QueueRoom d evs)
    (harr : evs.filterMap (RxEvent.arrivedAt d) =
      ((sends.map SyncSend.send).flatMap Send.frames).map TxFrame.wire) (buf : Mem) :
    (∀ x ∈ sends, x.send.Accepted) ∧
    syncReceiverLoop buf (((dev.run evs).2.filterMap (RxAct.queuedOn d)).map RxMsg.data) =
      (sends.filter (·.send.succeeds)).map (.sync ·.msg) := by
  refine ⟨fun x hx => (hsends x hx).accepted hlen, ?_⟩
  have hacc : ∀ x ∈ sends.map SyncSend.send, x.Accepted := by
    intro x hx
    obtain ⟨y, hy, rfl⟩ := List.mem_map.mp hx
    exact (hsends y hy).accepted hlen
  have hc := carries_sendFrames hacc hem halloc harr
  obtain ⟨t, -, -, hqueued, -⟩ := hc.run hs hopen (a := ⟨0, 0, false, []⟩)
    (Or.inr (sendFrames_head _))
  rw [hqueued (hroom.stream hc.wellSized hs), run_sendFrames hacc, List.filter_map, List.map_map,
    List.map_map]
  refine syncReceiverLoop_map (fun x hx buf => ?_) buf
  obtain ⟨hmsg, hseq, hdata⟩ := hsends x (List.mem_of_mem_filter hx)
  exact (hmsg.received hlen hseq hdata buf).1

def zeroTag (_ : List UInt8) : List UInt8 := List.replicate 32 0

/-- The message number `seq`, whose send is broken off after `c` frames if it has more. -/
def syncSendOf (msg : SyncMsg) (seq c : Nat) : SyncSend :=
  ⟨latencySend 20 2 (msg.encode zeroTag seq 0) c, msg, 0, seq⟩

def chunkOf (n : Nat) : SyncMsg := .fileData 0 (List.replicate n 7)

section SyncSendOf
variable {msg : SyncMsg}

theorem chunkOf_proper {n : Nat} (hn : n ≤ odlSyncChunkSize) : (chunkOf n).Proper 0 := by
  rw [odlSyncChunkSize] at hn
  simp [SyncMsg.Proper, SyncMsg.layout, chunkOf, Field.Fits, odlSyncChunkSize, hn]
  omega

theorem chunkOf_size (n : Nat) : (((chunkOf n).layout 0).2.flatMap Field.wire).length = 8 + n := by
  simp [SyncMsg.layout, chunkOf]
  omega

theorem syncSendOf_proper {seq : Nat} (hmsg : msg.Proper 0) (hseq : seq < 2 ^ 32) (c : Nat) :
    (syncSendOf msg seq c).Proper zeroTag :=
  ⟨hmsg, hseq, rfl⟩

theorem syncSendOf_frames {seq : Nat} (hmsg : msg.Proper 0) (hseq : seq < 2 ^ 32) (c n : Nat)
    (hn : Chunks.count streamPayloadMax (24 + ((msg.layout 0).2.flatMap Field.wire).length) = n)
    (hc : c ≤ n) : (syncSendOf msg seq c).send.frames.length = c ∧
      ((syncSendOf msg seq c).send.succeeds = true ↔ c = n) := by
  have hcount : frameCount (msg.encode zeroTag seq 0) = n := by
    rw [frameCount, SyncMsg.Proper.encode_length fun _ => rfl, hn]
  have hframes : (syncSendOf msg seq c).send.frames.length = c :=
    latencySend_frameNumber 20 2 (hcount ▸ hc)
  have hacc := (syncSendOf_proper hmsg hseq c).accepted fun _ => rfl
  refine ⟨hframes, ?_⟩
  rw [(Send.frames_eq hacc).2.2, hframes]
  exact Iff.of_eq (congrArg (c = ·) hcount)

end SyncSendOf

/-- The second of three sends is broken off after the first of its two frames. -/
theorem sync_messages_cross_link_broken_off :
    let sends := [syncSendOf .syncReq 1 1, syncSendOf (chunkOf streamPayloadMax) 2 1,
      syncSendOf (.fetchReq [97]) 3 1]
    syncReceiverLoop (fun _ => 255) ((((RxDevice.opened 2).run
      (arriveAll (sendFrames (sends.map SyncSend.send)))).2.filterMap
        (RxAct.queuedOn 2)).map RxMsg.data) = [.sync .syncReq, .sync (.fetchReq [97])] := by
  intro sends
  have hreq : SyncMsg.syncReq.Proper 0 := by simp [SyncMsg.Proper, SyncMsg.layout]
  have hchunk : (chunkOf streamPayloadMax).Proper 0 := chunkOf_proper (by decide)
  have hfetch : (SyncMsg.fetchReq [97]).Proper 0 := by
    simp [SyncMsg.Proper, SyncMsg.layout, Field.Fits]
  obtain ⟨hlen₁, hok₁⟩ := syncSendOf_frames hreq (show 1 < 2 ^ 32 by decide) 1 1 (by decide) le_rfl
  obtain ⟨hlen₂, hok₂⟩ := syncSendOf_frames hchunk (show 2 < 2 ^ 32 by decide) 1 2
    (by rw [chunkOf_size]; decide) (by decide)
  obtain ⟨hlen₃, hok₃⟩ := syncSendOf_frames hfetch (show 3 < 2 ^ 32 by decide) 1 1
    (by decide +kernel) le_rfl
  have hproper : ∀ x ∈ sends, x.Proper zeroTag := by
    simp [sends, syncSendOf_proper, hreq, hchunk, hfetch]
  have hframes : sendFrames (sends.map SyncSend.send) = sends.map fun x => (x.send, 0) := by
    simp [sends, sendFrames, hlen₁, hlen₂, hlen₃, Reassembly.Family.leading, List.range_succ]
  have hacc : ∀ x ∈ sends.map SyncSend.send, x.Accepted := by
    intro x hx
    obtain ⟨y, hy, rfl⟩ := List.mem_map.mp hx
    exact (hproper y hy).accepted fun _ => rfl
  have hem := arriveAll_sendFrames_emitted hacc
  have hto : ∀ x ∈ sends.map SyncSend.send, x.dstId = 2 := by
    simp [sends, syncSendOf, latencySend]
  have hroom : (RxDevice.opened 2).QueueRoom 2 (arriveAll (sendFrames (sends.map SyncSend.send))) :=
    RxDevice.queueRoom_of_length (fun e he => (hem e he).wellSized) rfl (by rw [hframes]; decide)
  rw [(sync_messages_cross_link (fun _ => rfl) rfl (by decide) hproper hem arriveAll_allocOk hroom
    (arriveAll_sendFrames_arrived (by decide) hacc hto) fun _ => 255).2]
  simp [sends, hok₁, hok₂, hok₃]
  exact ⟨rfl, rfl⟩

end Link

end OdinLink
