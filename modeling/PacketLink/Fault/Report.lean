import PacketLink.Fault
import PacketLink.Text.CodePoints
/-! # Error reports

A fault is raised either as a report of the error catalogue, a class with a stable code, a
message, machine-readable details and a suggested resolution, or as a plain error of a general
kind with an optional text. The catalogue can also be read back from a code.
-/
namespace PacketLink

/-- The classes of the error catalogue. -/
inductive ErrorClass where
  | missingHeader
  | missingChecksum
  | incompletePayload
  | invalidChecksum
  | invalidMessageIdLength
  | invalidMessageId
  | invalidDataLength
  | unknownMessageType
  | cobsDecodeError
  | insufficientBufferSize
  deriving DecidableEq, Repr

namespace ErrorClass

def name : ErrorClass → String
  | missingHeader => "MissingHeader"
  | missingChecksum => "MissingChecksum"
  | incompletePayload => "IncompletePayload"
  | invalidChecksum => "InvalidChecksum"
  | invalidMessageIdLength => "InvalidMessageIdLength"
  | invalidMessageId => "InvalidMessageId"
  | invalidDataLength => "InvalidDataLength"
  | unknownMessageType => "UnknownMessageType"
  | cobsDecodeError => "CobsDecodeError"
  | insufficientBufferSize => "InsufficientBufferSize"

def code : ErrorClass → String
  | missingHeader => "EUI-E100"
  | missingChecksum => "EUI-E101"
  | incompletePayload => "EUI-E102"
  | invalidChecksum => "EUI-E103"
  | invalidMessageIdLength => "EUI-E104"
  | invalidMessageId => "EUI-E105"
  | invalidDataLength => "EUI-E106"
  | unknownMessageType => "EUI-E107"
  | cobsDecodeError => "EUI-E200"
  | insufficientBufferSize => "EUI-E300"

/-- The message a report of the class carries unless it is given one. -/
def message : ErrorClass → String
  | missingHeader => "Not enough bytes for a valid header"
  | missingChecksum => "Not enough bytes for a valid header and checksum"
  | incompletePayload => "Not enough bytes for a valid payload according to the data length"
  | invalidChecksum => "Invalid checksum"
  | invalidMessageIdLength => "Invalid message ID length"
  | invalidMessageId => "Invalid message ID"
  | invalidDataLength => "Invalid data length"
  | unknownMessageType => "Unknown message type"
  | cobsDecodeError => "Invalid COBS encoding"
  | insufficientBufferSize => "Not enough bytes in the decoder buffer to store the frame"

def resolution : ErrorClass → String
  | incompletePayload => "Supply the complete frame, including the trailing checksum."
  | invalidChecksum => "The frame was corrupted in transit; wait for the next one."
  | invalidMessageId => "Use 1 to 15 bytes, and never a lone null byte."
  | insufficientBufferSize =>
    "Size the decoder buffer with Framing.max_encoded_len(Packet.MAX_PACKET_SIZE)."
  | _ => ""

/-- The classes that can be created from their code alone. A type fault needs its type code,
so its class is not among them. -/
def creatable : List ErrorClass :=
  [missingHeader, missingChecksum, incompletePayload, invalidChecksum, invalidMessageIdLength,
    invalidMessageId, invalidDataLength, cobsDecodeError, insufficientBufferSize]

def ofCode? (c : String) : Option ErrorClass := creatable.find? (·.code == c)

/-- Whether the class is a packet error, of the codes `EUI-E1xx`; the others are the framing
error `EUI-E200` and the decoder error `EUI-E300`. -/
def isPacketError : ErrorClass → Bool
  | cobsDecodeError | insufficientBufferSize => false
  | _ => true

end ErrorClass

inductive Detail where
  | int (n : Int)
  | flag (b : Bool)
  | text (s : String)
  deriving DecidableEq, Repr

structure Report where
  cls : ErrorClass
  /-- The message: text that a caller may supply, so it may hold lone surrogates. -/
  message : Text.CodePoints := Text.CodePoints.ofString cls.message
  details : List (String × Detail) := []
  deriving DecidableEq

namespace Report

def withText (cls : ErrorClass) (msg : String) (details : List (String × Detail) := []) : Report :=
  { cls, message := Text.CodePoints.ofString msg, details }

/-- A report of a creatable class from its code, keeping the class message when none or an
empty one is given. -/
def ofCode (c : String) (msg : Option Text.CodePoints) : Except Fault Report :=
  match ErrorClass.ofCode? c with
  | none => .error (.codeUnknown c)
  | some cls =>
    match msg with
    | some m => if m.isEmpty then .ok { cls } else .ok { cls, message := m }
    | none => .ok { cls }

/-- The structured-log form of a report: its code and message, then its details and resolution
unless they are empty. -/
structure Entry where
  code : String
  message : Text.CodePoints
  detail : Option (List (String × Detail))
  resolution : Option String

def entry (r : Report) : Entry where
  code := r.cls.code
  message := r.message
  detail := if r.details.isEmpty then none else some r.details
  resolution := if r.cls.resolution.isEmpty then none else some r.cls.resolution

end Report

/-- The general kinds of plain errors: a bad value or operand type, an index past the end, a
value that no element holds, a number out of range, text that cannot be decoded or encoded,
and a key that names nothing. -/
inductive ErrorKind where
  | badValue
  | badType
  | indexPastEnd
  | notPackable
  | overflow
  | textDecode
  | textEncode
  | missingKey
  deriving DecidableEq, Repr

def ErrorKind.name : ErrorKind → String
  | badValue => "ValueError"
  | badType => "TypeError"
  | indexPastEnd => "IndexError"
  | notPackable => "StructError"
  | overflow => "OverflowError"
  | textDecode => "UnicodeDecodeError"
  | textEncode => "UnicodeEncodeError"
  | missingKey => "KeyError"

inductive Raised where
  | report (r : Report)
  | plain (kind : ErrorKind) (text : Option String)

def Raised.isPacketError : Raised → Bool
  | .report r => r.cls.isPacketError
  | .plain .. => false

/-- An integer argument shown back as it was given. -/
def Detail.ofArg : IntArg → Detail
  | .int n => .int n
  | .flag b => .flag b

namespace Fault

/-- The catalogue report or plain error that a fault is raised as. -/
def raised : Fault → Raised
  | headerMissing n => .report { cls := .missingHeader, details := [("length", .int n)] }
  | checksumMissing n => .report { cls := .missingChecksum, details := [("length", .int n)] }
  | spanPastEnd n m =>
    .report { cls := .incompletePayload, details := [("length", .int n), ("required", .int m)] }
  | checksumMismatch p c =>
    .report { cls := .invalidChecksum, details := [("provided", .int p), ("computed", .int c)] }
  | idLengthInvalid v => .report { cls := .invalidMessageIdLength, details := [("id_length", .ofArg v)] }
  | idInvalid id =>
    .report { cls := .invalidMessageId,
              details := [("id", .text (Bytes.hex id)), ("length", .int id.length)] }
  | dataLengthOutOfRange v =>
    .report { cls := .invalidDataLength, details := [("data_length", .int v), ("max", .int 1023)] }
  | payloadRagged t n s =>
    .report (.withText .invalidDataLength
      (toString n ++ " payload bytes is not a multiple of the " ++ t.name ++ " element size " ++
        toString s)
      [("data_length", .int n), ("element_size", .int s)])
  | typeUndefined c =>
    .report (.withText .unknownMessageType ("Unknown message type (" ++ toString c ++ ")")
      [("type", .int c)])
  | delimiterMissing n =>
    .report (.withText .cobsDecodeError "Frame is missing its delimiter" [("length", .int n)])
  | frameEmpty => .report (.withText .cobsDecodeError "Empty frame")
  | blockTruncated n =>
    .report (.withText .cobsDecodeError "Invalid COBS encoding: not enough input bytes for length code"
      [("length", .int n)])
  | outputTooSmall d o =>
    .report (.withText .cobsDecodeError "Output buffer too small for the decoded frame"
      [("decoded", .int d), ("output", .int o)])
  | storageFull c p =>
    .report { cls := .insufficientBufferSize,
              details := [("capacity", .int c), ("state", .text p.name)] }
  | typeCodeInvalid c => .plain .badValue (some (toString c ++ " is not a valid MessageType"))
  | typeCodeDefined c t => .plain .badValue (some (c.text ++ " is the wire code of " ++ t.name))
  | untyped t => .plain .badValue (some (t.name ++ " payloads carry no typed scalar data"))
  | offsetFlagClear => .plain .badValue (some "offset flag is not set")
  | outputShort m n =>
    .plain .badValue
      (some ("output buffer holds " ++ toString m ++ " bytes, frame needs " ++ toString n))
  | storageNegative _ => .plain .badValue (some "negative count")
  | storageSmall n =>
    .plain .badValue (some ("decoder buffer must hold at least 5 bytes, got " ++ toString n))
  | storageReadOnly => .plain .badType (some "decoder buffer must be writable")
  | readOnly => .plain .badType (some "packet buffer is read-only")
  | spanLengthMismatch => .plain .badValue none
  | unordered => .plain .badType none
  | byteMissing _ => .plain .indexPastEnd none
  | fieldShort => .plain .notPackable none
  | unpackable => .plain .notPackable none
  | float32Overflow => .plain .overflow none
  | quotientOverflow => .plain .overflow none
  | notUtf8 => .plain .textDecode none
  | notScalar => .plain .textEncode none
  | codeUnknown _ => .plain .missingKey none

end Fault

end PacketLink
