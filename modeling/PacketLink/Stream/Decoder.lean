import PacketLink.Packet.Basic
import PacketLink.Stream.Deframer
/-! # Streaming decoder

The decoder reads a byte stream one byte at a time into storage of a fixed capacity. A `0x00`
ends any partial frame and rearms the decoder. Any other byte goes through the de-framing
stage; the byte it stands for is stored and moves the decoder through the fields of the frame.
The frame ends with the second checksum byte: the decoder rearms itself and checks the stored
bytes as a packet, counting it as valid or invalid. A byte that finds the storage full raises a
storage fault once, and the rest of the frame up to the next `0x00` is skipped.
-/
namespace PacketLink.Stream

structure Decoder where
  capacity : Nat
  strict : Bool
  deframer : Deframer := {}
  phase : Phase := .frameOffset
  /-- The bytes stored for the current frame. -/
  stored : Bytes := []
  discarding : Bool := false
  dataLen : Nat := 0
  offset : Bool := false
  idLen : Nat := 0
  idRead : Nat := 0
  dataRead : Nat := 0
  count : Nat := 0
  invalidCount : Nat := 0
  deriving DecidableEq

namespace Decoder

/-- The decoder over new storage of `size` bytes. Storage of a negative size cannot be made;
made storage must be writable and hold the five bytes of the smallest packet. -/
def new (size : Int) (strict : Bool := false) (writable : Bool := true) : Except Fault Decoder :=
  if size < 0 then .error (.storageNegative size)
  else if !writable then .error .storageReadOnly
  else if size < Header.baseSize then .error (.storageSmall size)
  else .ok { capacity := size.toNat, strict }

/-- Drops a partial frame and waits for the next frame's first code byte; counters stay. -/
def reset (d : Decoder) : Decoder :=
  { d with phase := .frameOffset, deframer := {}, discarding := false, stored := [] }

/-- The result of one byte: a packet when it completes a valid one. -/
abbrev Result := Except Fault (Option Packet)

/-- Stores a byte and continues with `k`, or raises a storage fault and skips the rest of the
frame when the storage is full. -/
def store (d : Decoder) (b : UInt8) (k : Decoder → Decoder) : Decoder × Result :=
  if d.capacity ≤ d.stored.length then
    ({ d with discarding := true }, .error (.storageFull d.capacity d.phase))
  else (k { d with stored := d.stored ++ [b] }, .ok none)

def payloadOrCrc (d : Decoder) : Decoder :=
  if 0 < d.dataLen then { d with phase := .payload, dataRead := 0 } else { d with phase := .crcB0 }

/-- Ends a frame: rearms and checks the stored bytes. -/
def finish (d : Decoder) : Decoder × Result :=
  let d' := d.reset
  match Packet.new d.stored d.strict with
  | .ok p => ({ d' with count := d'.count + 1 }, .ok (some p))
  | .error e => ({ d' with invalidCount := d'.invalidCount + 1 }, .error e)

/-- Takes a byte that the de-framing stage passed on. -/
def parse (d : Decoder) (b : UInt8) : Decoder × Result :=
  match d.phase with
  | .frameOffset => ({ d with phase := .headerB0 }, .ok none)
  | .headerB0 => d.store b fun d => { d with dataLen := b.toNat, phase := .headerB1 }
  | .headerB1 => d.store b fun d =>
    { d with dataLen := d.dataLen + 256 * (b.toNat % 4), offset := Header.offset b,
             phase := .headerB2 }
  | .headerB2 => d.store b fun d =>
    { d with idLen := Header.idLength b, idRead := 0, phase := .msgId }
  | .msgId => d.store b fun d =>
    if d.idLen ≤ d.idRead + 1 then
      if d.offset then { d with idRead := d.idRead + 1, phase := .offsetB0 }
      else payloadOrCrc { d with idRead := d.idRead + 1 }
    else { d with idRead := d.idRead + 1 }
  | .offsetB0 => d.store b fun d => { d with phase := .offsetB1 }
  | .offsetB1 => d.store b payloadOrCrc
  | .payload => d.store b fun d =>
    if d.dataLen ≤ d.dataRead + 1 then { d with dataRead := d.dataRead + 1, phase := .crcB0 }
    else { d with dataRead := d.dataRead + 1 }
  | .crcB0 => d.store b fun d => { d with phase := .crcB1 }
  | .crcB1 =>
    match d.store b id with
    | (d, .ok _) => d.finish
    | r => r

def decode (d : Decoder) (b : UInt8) : Decoder × Result :=
  if b = 0 then (d.reset, .ok none)
  else
    let (o, df) := d.deframer.step b
    let d := { d with deframer := df }
    match o with
    | none => (d, .ok none)
    | some c => if d.discarding then (d, .ok none) else d.parse c

/-- Takes bytes in order: the decoder afterwards and each byte's result. -/
def run (d : Decoder) : Bytes → Decoder × List Result
  | [] => (d, [])
  | b :: r =>
    let s := d.decode b
    let t := s.1.run r
    (t.1, s.2 :: t.2)

theorem run_append (d : Decoder) (a b : Bytes) :
    d.run (a ++ b) = (((d.run a).1.run b).1, (d.run a).2 ++ ((d.run a).1.run b).2) := by
  induction a generalizing d with
  | nil => rfl
  | cons x r ih => simp [run, ih]

def Result.copy? (r : Result) : Option Packet :=
  match r with
  | .ok (some p) => p.copy.toOption
  | _ => none

/-- Takes bytes in order and keeps the owned copies of the valid packets. -/
def decodeAll (d : Decoder) (bs : Bytes) : Decoder × List Packet :=
  ((d.run bs).1, (d.run bs).2.filterMap Result.copy?)

def describe (d : Decoder) : String :=
  "Decoder(capacity=" ++ toString d.capacity ++ ", state=" ++ d.phase.name ++ ", count=" ++
    toString d.count ++ ", invalid_count=" ++ toString d.invalidCount ++ ")"

end Decoder

end PacketLink.Stream
