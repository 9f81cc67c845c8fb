import PacketLink.Frame.Cobs
import PacketLink.Packet.Edit
/-! # Building packets

A packet is built from its identifier, payload, type code, flags and acknowledgement number. The
identifier is checked first; then a zeroed buffer of the packet's size is edited field by field:
the data length, the type code, the internal and offset flags, the identifier with its length,
the response flag and the acknowledgement number, then the payload, and last the checksum of
everything before it. So a build fails on the identifier, then on the payload's length, then on
the type code. The packet is laid out as the three header bytes, the identifier, two zero bytes
of offset metadata when the offset flag is set, the payload, and the checksum.
-/
namespace PacketLink

/-- What a packet is built from. -/
structure Packet.Spec where
  msgId : Bytes
  payload : Bytes := []
  typeCode : Int
  internal : Bool := false
  response : Bool := false
  acknum : Int := 0
  offset : Bool := false

namespace Packet.Spec

/-- The header edits, field by field; the identifier's edit also writes its bytes. -/
def setHeader (s : Spec) (m : MessageId) : Edit Unit := do
  Edit.setDataLength s.payload.length
  Edit.setTypeCode s.typeCode
  Edit.setInternal s.internal
  Edit.setOffset s.offset
  Edit.setMsgId m.bytes
  Edit.setResponse s.response
  Edit.setAcknum s.acknum

/-- The edits that fill a zeroed buffer with the packet of identifier `m`, checksum last. -/
def fill (s : Spec) (m : MessageId) : Edit Unit := do
  s.setHeader m
  Edit.writePayload s.payload
  Edit.setChecksumComputed

def blank (s : Spec) (m : MessageId) : Packet :=
  { bytes := List.replicate (Header.frameSize m.length s.payload.length s.offset) 0 }

def build (s : Spec) : Except Fault Bytes := do
  let m ← MessageId.ofBytes s.msgId
  let (r, p) := (s.fill m).run (s.blank m)
  r.map fun _ => p.bytes

/-- The layout of a packet before its checksum, for a valid identifier and a payload and type
code that fit their fields. -/
def body (s : Spec) : Bytes :=
  [UInt8.ofNat s.payload.length,
    Header.byte1 (s.payload.length / 256) s.typeCode.toNat s.internal s.offset,
    Header.byte2 s.msgId.length s.response (s.acknum % 8).toNat] ++
  s.msgId ++ (if s.offset then [0, 0] else []) ++ s.payload

def frame (s : Spec) : Except Fault Bytes := Frame.encode <$> s.build

end Packet.Spec

end PacketLink
