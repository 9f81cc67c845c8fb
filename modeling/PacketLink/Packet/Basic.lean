import PacketLink.Checksum
import PacketLink.MessageId
import PacketLink.MessageType.Wire
import PacketLink.Packet.Header
/-! # Packets

A packet is a byte buffer read through the header layout. Reading a field needs the header
bytes that hold it; reading a span past the header needs a valid identifier length and a buffer
that reaches the span's end. A checked packet has room for its header, identifier, payload and
checksum, and its checksum matches; with strict types its type is also a named one.
-/
namespace PacketLink

/-- A packet buffer, and whether it may be written. -/
structure Packet where
  bytes : Bytes
  writable : Bool := true
  deriving DecidableEq

namespace Packet

/-- The payload size among the declared size constants, one more than the ten-bit data length
holds. -/
def maxPayloadSize : Nat := 1024

/-- The declared size of the largest packet: header, checksum, the longest identifier and
`maxPayloadSize`. -/
def maxPacketSize : Nat := Header.baseSize + MessageId.maxSize + maxPayloadSize

def length (p : Packet) : Nat := p.bytes.length

def byte (p : Packet) (i : Nat) : Except Fault UInt8 :=
  match p.bytes[i]? with
  | some b => .ok b
  | none => .error (.byteMissing i)

/-- The data length; it needs the first two bytes. -/
def dataLength (p : Packet) : Except Fault Nat :=
  match p.bytes with
  | b0 :: b1 :: _ => .ok (Header.dataLength b0 b1)
  | _ => .error .fieldShort

def typeCode (p : Packet) : Except Fault Nat := Header.typeCode <$> p.byte 1

/-- The message type; codes without a name give unknown types. -/
def typ (p : Packet) : Except Fault MessageType := do MessageType.ofWire (← p.typeCode)

def internal (p : Packet) : Except Fault Bool := Header.internal <$> p.byte 1

def offset (p : Packet) : Except Fault Bool := Header.offset <$> p.byte 1

def idLengthRaw (p : Packet) : Except Fault Nat := Header.idLength <$> p.byte 2

def response (p : Packet) : Except Fault Bool := Header.response <$> p.byte 2

def acknum (p : Packet) : Except Fault Nat := Header.acknum <$> p.byte 2

/-- The identifier length; zero is refused. -/
def idLength (p : Packet) : Except Fault Nat := do
  let l ← p.idLengthRaw
  if l = 0 then throw (.idLengthInvalid (.int 0)) else pure l

def payloadStart (p : Packet) : Except Fault Nat := do
  let l ← p.idLength
  let o ← p.offset
  pure (3 + l + if o then 2 else 0)

/-- The bytes from `start` to `stop`; the buffer must reach `stop`. -/
def span (p : Packet) (start stop : Nat) : Except Fault Bytes :=
  if p.length < stop then .error (.spanPastEnd p.length stop)
  else .ok (p.bytes.slice start stop)

def msgIdRaw (p : Packet) : Except Fault Bytes := do
  let l ← p.idLength
  p.span 3 (3 + l)

def msgId (p : Packet) : Except Fault MessageId := do MessageId.ofBytes (← p.msgIdRaw)

def offsetRaw (p : Packet) : Except Fault (Option Nat) := do
  if !(← p.offset) then return none
  let l ← p.idLength
  let w ← p.span (3 + l) (5 + l)
  pure (some (Bytes.word (w.getD 0 0) (w.getD 1 0)))

def payload (p : Packet) : Except Fault Bytes := do
  let s ← p.payloadStart
  let d ← p.dataLength
  p.span s (s + d)

def checksumStart (p : Packet) : Except Fault Nat := do
  let s ← p.payloadStart
  let d ← p.dataLength
  pure (s + d)

def checksum (p : Packet) : Except Fault Nat := do
  let s ← p.checksumStart
  let w ← p.span s (s + 2)
  pure (Bytes.word (w.getD 0 0) (w.getD 1 0))

def computeChecksum (p : Packet) : Except Fault Nat := do
  let s ← p.checksumStart
  let bs ← p.span 0 s
  pure (Checksum.crc16 bs).toNat

def wireSize (p : Packet) : Except Fault Nat := do
  let l ← p.idLength
  let d ← p.dataLength
  let o ← p.offset
  pure (Header.frameSize l d o)

/-- The first `wireSize` bytes, as a packet of its own that is not written through. -/
def copy (p : Packet) : Except Fault Packet := do
  let w ← p.wireSize
  pure { bytes := p.bytes.take w, writable := false }

def summary (p : Packet) : Except Fault String := do
  let d ← p.dataLength
  let t ← p.typeCode
  let i ← p.internal
  let o ← p.offset
  let l ← p.idLengthRaw
  let r ← p.response
  let a ← p.acknum
  pure ("\x7b DataLen(" ++ toString d ++ "), Type(" ++ toString t ++ "), Int(" ++
    toString i.toNat ++ "), Offset(" ++ toString o.toNat ++ "), IdLen(" ++ toString l ++
    "), Resp(" ++ toString r.toNat ++ "), Acknum(" ++ toString a ++ ") \x7d")

/-- Room for the header, then for the checksum. -/
def checkLength (p : Packet) : Except Fault Unit :=
  if p.length < 3 then .error (.headerMissing p.length)
  else if p.length < Header.baseSize then .error (.checksumMissing p.length)
  else .ok ()

def checkPayloadLength (p : Packet) : Except Fault Unit := do
  let w ← p.wireSize
  if p.length < w then throw (.spanPastEnd p.length w)

def checkChecksum (p : Packet) : Except Fault Unit := do
  let c ← p.checksum
  let c' ← p.computeChecksum
  if c' ≠ c then throw (.checksumMismatch c c')

def checkType (p : Packet) : Except Fault Unit := do
  let t ← p.typ
  if t.isUnknown then throw (.typeUndefined t.code)

/-- The buffer as a checked packet: room, checksum, and with `strict` a named type. -/
def new (bs : Bytes) (strict : Bool := false) (writable : Bool := true) : Except Fault Packet := do
  let p : Packet := { bytes := bs, writable }
  p.checkLength
  p.checkPayloadLength
  p.checkChecksum
  if strict then p.checkType
  pure p

end Packet

end PacketLink
