import PacketLink.Bytes
import PacketLink.IntArg
import PacketLink.MessageType
import PacketLink.Stream.Phase
/-! # Faults

Every way an operation of the codec can fail, as a cause with the data that explains it.
Packet faults concern a buffer's structure and integrity, framing faults a COBS frame, and a
storage fault the streaming decoder's buffer; the remaining causes are misuses of an operation,
such as a value out of range or a write through a read-only buffer.
-/
namespace PacketLink

/-- Why an operation failed. -/
inductive Fault where
  -- a packet's structure and integrity
  | headerMissing (length : Nat)
  | checksumMissing (length : Nat)
  /-- A span of the packet ends at `required`, past the buffer's `length`. -/
  | spanPastEnd (length required : Nat)
  | checksumMismatch (provided computed : Nat)
  | idLengthInvalid (value : IntArg)
  | idInvalid (id : Bytes)
  | dataLengthOutOfRange (value : Int)
  /-- A payload of `length` bytes that is no whole number of elements of `size` bytes. -/
  | payloadRagged (t : MessageType) (length size : Nat)
  | typeUndefined (code : Int)
  -- framing
  | delimiterMissing (length : Nat)
  | frameEmpty
  /-- A block whose code byte reaches past the delimiter at `length`. -/
  | blockTruncated (length : Nat)
  | outputTooSmall (decoded output : Nat)
  /-- The decoder's storage of `capacity` bytes is full when a byte of `phase` arrives. -/
  | storageFull (capacity : Nat) (phase : Stream.Phase)
  -- misuse of an operation
  | typeCodeInvalid (code : Int)
  /-- A named type's code, asked for as an unknown type. -/
  | typeCodeDefined (code : IntArg) (t : MessageType)
  | untyped (t : MessageType)
  | offsetFlagClear
  /-- A frame of `needed` bytes encoded into `size` bytes. -/
  | outputShort (size needed : Nat)
  | storageNegative (size : Int)
  | storageSmall (size : Int)
  | storageReadOnly
  | readOnly
  | spanLengthMismatch
  /-- An identifier ordered against text. -/
  | unordered
  | byteMissing (index : Nat)
  | fieldShort
  | unpackable
  | float32Overflow
  /-- A quotient beyond the largest binary64 number. -/
  | quotientOverflow
  | notUtf8
  /-- Text with a code point that is no scalar value. -/
  | notScalar
  | codeUnknown (code : String)
  deriving DecidableEq

end PacketLink
