import OdinLink.Driver.Wire
import OdinLink.Daemon.SyncEngine

/-!
# The receiver of the sync stream

A message is copied to the start of a buffer that is used again and again. The receiver looks at the
magic number and the length, and the handler for the type reads the structure of its message in the
buffer. The protocol has a receive function of its own, `odl_sync_recv_msg`, that makes more checks.
-/

namespace OdinLink

open Scripts

def odlSyncMagic : Nat := 0x4F444C53

def odlSyncVersion : Nat := 1

/-- The size of `struct odl_sync_header`, and of `struct odl_cli_header`. -/
def syncHeaderSize : Nat := 24

def recvBufSize : Nat := 32 + odlSyncChunkSize

def strLimit : Nat := 0x100000000

namespace Mem
variable (mem : Mem)

def le64 (off : Nat) : Nat := mem.le32 off + 4294967296 * mem.le32 (off + 4)

/-- A C string of at most `n` characters; it may go on behind the field that it starts in, and
behind the message. -/
def cstr : Nat → Nat → List UInt8
  | _, 0 => []
  | off, n + 1 => if mem off = 0 then [] else mem off :: cstr (off + 1) n

def relPath : List UInt8 := mem.cstr 24 strLimit

def fileInfo (isDir : Bool) (shaOff : Nat) : FileInfo :=
  ⟨mem.le64 280, mem.le64 288, mem.le32 296, isDir, mem.read shaOff 32⟩

/-- The message as the handler for its type reads it; `none` if there is no such handler. -/
def syncMsg : Option SyncMsg :=
  match mem.le32 8 with
  | 0x01 => some (.fileMeta mem.relPath (mem.fileInfo false 304) (mem.le32 300))
  | 0x02 => some (.fileData (mem.le32 24) (mem.read 32 (mem.le32 28)))
  | 0x03 => some (.fileAck mem.relPath (mem.le32 280))
  | 0x04 => some (.fileDelete mem.relPath)
  | 0x05 => some (.dirCreate mem.relPath (mem.le64 280) (mem.le32 288))
  | 0x06 => some (.dirDelete mem.relPath)
  | 0x10 => some .syncReq
  | 0x11 => some (.listingEntry mem.relPath (mem.fileInfo (mem.le32 300 != 0) 304))
  | 0x12 => some .listingEnd
  | 0x20 => some (.fetchReq mem.relPath)
  | 0x21 => some (.fetchResp mem.relPath (mem.fileInfo false 312) (mem.le32 300) (mem.le32 304))
  | 0x22 => some (.removeReq mem.relPath)
  | 0x23 => some (.removeAck mem.relPath (mem.le32 280))
  | 0x30 => some (.fileChanged mem.relPath (mem.fileInfo (mem.le32 300 != 0) 304))
  | 0x31 => some (.fileRemoved mem.relPath (mem.le32 280 != 0))
  | _ => none

end Mem

inductive RecvAction where
  | discard
  | sync (msg : SyncMsg)
  | cli (msg : List UInt8)
  deriving DecidableEq, Repr

/-- The body of `sync_receiver_loop`, from the buffer and the length received. -/
def syncReceive (buf : Mem) (actualLen : Nat) : RecvAction :=
  if actualLen < 4 then .discard
  else if buf.le32 0 = odlSyncMagic then
    if actualLen < syncHeaderSize then .discard
    else
      match buf.syncMsg with
      | some msg => .sync msg
      | none => .discard
  else if buf.le32 0 = odlCliMagic then
    if actualLen < syncHeaderSize then .discard else .cli (buf.read 0 actualLen)
  else .discard

def RecvAction.script (d : SyncDirs) : RecvAction → Sync Unit
  | .sync msg => syncDispatch d msg
  | .discard | .cli _ => pure ()

def received (msg : List UInt8) : List UInt8 := msg.take recvBufSize

def recvAction (buf : Mem) (msg : List UInt8) : RecvAction :=
  syncReceive (buf.dmaWrite (received msg)) (received msg).length

section Checked
variable (hmac : List UInt8 → List UInt8)

/-- `odl_sync_recv_msg`, from the buffer and the length received: the type of the message. `hmac` is
HMAC-SHA256 with the key of the protocol. -/
def odlSyncRecvMsg (buf : Mem) (actualLen : Nat) : Except Int Nat :=
  if actualLen < syncHeaderSize then .error errProto
  else if buf.le32 0 ≠ odlSyncMagic then .error errProto
  else if buf.le32 4 ≠ odlSyncVersion then .error errProto
  else if buf.read 20 4 ≠ (hmac (buf.read 0 20)).take 4 then .error errProto
  else if actualLen < syncHeaderSize + buf.le32 12 then .error errProto
  else .ok (buf.le32 8)

def passes (buf : Mem) (msg : List UInt8) : Prop :=
  ∃ type, odlSyncRecvMsg hmac (buf.dmaWrite (received msg)) (received msg).length = .ok type

end Checked

end OdinLink
