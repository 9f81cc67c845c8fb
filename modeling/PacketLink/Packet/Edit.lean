import PacketLink.Packet.Basic
/-! # Editing packets in place

An edit changes fields of a packet buffer in place. It first checks its value, then that the
buffer may be written, then the room it needs, and writes last. A header edit reads the byte
that holds its field, clears the field's mask and puts the new value in its place. Writes happen
in order: an edit that fails after a write keeps that write.
-/
namespace PacketLink

/-- An edit of a packet buffer that may fail, keeping the writes made before the failure. -/
abbrev Edit := ExceptT Fault (StateM Packet)

namespace Edit

def read {α : Type} (f : Packet → Except Fault α) : Edit α := do
  match f (← get) with
  | .ok a => pure a
  | .error e => throw e

def checkWritable : Edit Unit := do
  unless (← get).writable do throw .readOnly

def writeByte (i : Nat) (b : UInt8) : Edit Unit := do
  let p ← get
  if i < p.length then set { p with bytes := p.bytes.set i b } else throw (.byteMissing i)

/-- Writes `src` from `start` on; the buffer must already reach past it. -/
def writeSpan (start : Nat) (src : Bytes) : Edit Unit :=
  modify fun p => { p with bytes := p.bytes.overwrite start src }

/-- Replaces the bits `mask` of byte `i` by `x`, which lies within them, and keeps the byte's
other bits. -/
def writeBits (i : Nat) (mask x : UInt8) : Edit Unit := do
  let b ← read (·.byte i)
  writeByte i ((b &&& ~~~mask) ||| x)

def setFlag (i : Nat) (bit : UInt8) (v : Bool) : Edit Unit := do
  checkWritable
  writeBits i bit (if v then bit else 0)

/-- Sets the data length, from `0` to `1023`. Byte 0 is written before byte 1 is read. -/
def setDataLength (v : Int) : Edit Unit := do
  unless 0 ≤ v ∧ v ≤ Header.maxDataLength do throw (.dataLengthOutOfRange v)
  checkWritable
  writeByte 0 (UInt8.ofNat v.toNat)
  writeBits 1 Header.dataLengthHighBits (UInt8.ofNat (v.toNat / 256))

def setTypeCode (c : Int) : Edit Unit := do
  unless 0 ≤ c ∧ c ≤ 15 do throw (.typeUndefined c)
  checkWritable
  writeBits 1 Header.typeBits (UInt8.ofNat (c.toNat * 4))

def setInternal (v : Bool) : Edit Unit := setFlag 1 Header.internalBit v

def setOffset (v : Bool) : Edit Unit := setFlag 1 Header.offsetBit v

/-- Sets the identifier length, from `1` to `15`; a refused length is reported as given. -/
def setIdLength (v : IntArg) : Edit Unit := do
  unless 1 ≤ v.toInt ∧ v.toInt ≤ MessageId.maxSize do throw (.idLengthInvalid v)
  checkWritable
  writeBits 2 Header.idLengthBits (UInt8.ofNat v.toInt.toNat)

def setResponse (v : Bool) : Edit Unit := setFlag 2 Header.responseBit v

/-- Sets the acknowledgement number to `v` modulo 8. -/
def setAcknum (v : Int) : Edit Unit := do
  checkWritable
  writeBits 2 Header.acknumBits (UInt8.ofNat ((v % 8).toNat * 32))

def setMsgId (bs : Bytes) : Edit Unit := do
  let m ← read fun _ => MessageId.ofBytes bs
  checkWritable
  let _ ← read (·.span 3 (3 + m.length))
  setIdLength (.int m.length)
  writeSpan 3 m.bytes

/-- Writes the offset metadata word, `v` modulo `2 ^ 16`; the offset flag must be set. -/
def setOffsetRaw (v : Int) : Edit Unit := do
  unless ← read (·.offset) do throw .offsetFlagClear
  let l ← read (·.idLength)
  checkWritable
  let _ ← read (·.span (3 + l) (5 + l))
  writeSpan (3 + l) (Bytes.ofWord (v % 65536).toNat)

def setChecksum (v : Int) : Edit Unit := do
  let s ← read (·.checksumStart)
  checkWritable
  let _ ← read (·.span s (s + 2))
  writeSpan s (Bytes.ofWord (v % 65536).toNat)

def setChecksumComputed : Edit Unit := do
  setChecksum (← read (·.computeChecksum))

def writeMsgId (bs : Bytes) : Edit Unit := do
  checkWritable
  let cur ← read (·.msgIdRaw)
  unless cur.length = bs.length do throw .spanLengthMismatch
  writeSpan 3 bs

def writePayload (bs : Bytes) : Edit Unit := do
  checkWritable
  let cur ← read (·.payload)
  unless cur.length = bs.length do throw .spanLengthMismatch
  let s ← read (·.payloadStart)
  writeSpan s bs

def run {α : Type} (e : Edit α) (p : Packet) : Except Fault α × Packet := (ExceptT.run e).run p

end Edit

end PacketLink
