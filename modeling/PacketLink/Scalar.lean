import PacketLink.Binary.Format
import PacketLink.Fault
/-! # Typed scalar payloads

A typed payload is a run of little-endian elements of its type's kind. Integer kinds hold
exactly the integers of their range, the signed ones in two's complement. The character kind
holds single bytes. The float kinds hold binary64 and binary32 numbers: an integer is first
rounded to the nearest binary64 number, and a binary32 element takes the binary32 number
nearest to that. A finite number past the binary32 range overflows; an integer that gets there
is refused as a value the kind cannot hold. Reading widens binary32 elements back to binary64
exactly.
-/
namespace PacketLink

/-- A value offered to a typed payload or read from one. -/
inductive Scalar where
  | int (n : Int)
  /-- A binary64 number, by its bit pattern. -/
  | real (bits : UInt64)
  | bytes (bs : Bytes)
  | text (s : String)
  deriving DecidableEq, Repr

/-- The `k` little-endian bytes of `v` modulo `256 ^ k`. -/
def Bytes.ofNatLE (k v : Nat) : Bytes := (List.range k).map fun i => UInt8.ofNat (v / Nat.pow 256 i)

def Bytes.toNatLE (bs : Bytes) : Nat := bs.foldr (fun b acc => b.toNat + 256 * acc) 0

namespace Element

def range? (e : Element) : Option (Int × Int) :=
  e.signed?.map fun s =>
    if s then (-Int.pow 2 (8 * e.size - 1), Int.pow 2 (8 * e.size - 1) - 1)
    else (0, Int.pow 2 (8 * e.size) - 1)

/-- The binary32 element nearest to a binary64 number. -/
def narrow (bits : Nat) : Except Fault Bytes :=
  match Binary.Format.binary32.convert? .binary64 bits with
  | some b => .ok (Bytes.ofNatLE 4 b)
  | none => .error .float32Overflow

/-- The binary64 number nearest to an integer. -/
def realOfInt (n : Int) : Except Fault Nat :=
  match Binary.Format.binary64.ofInt? n with
  | some b => .ok b
  | none => .error .unpackable

def pack (e : Element) (v : Scalar) : Except Fault Bytes :=
  match e, v with
  | .char, .bytes [b] => .ok [b]
  | .float64, .int n => (Bytes.ofNatLE 8 ·) <$> realOfInt n
  | .float64, .real bits => .ok (Bytes.ofNatLE 8 bits.toNat)
  | .float32, .int n => do
    -- an integer that leaves the binary32 range is a value the kind cannot hold
    match narrow (← realOfInt n) with
    | .ok bs => .ok bs
    | .error _ => .error .unpackable
  | .float32, .real bits => narrow bits.toNat
  | e, .int n =>
    match e.range? with
    | some (lo, hi) =>
      if lo ≤ n ∧ n ≤ hi then .ok (Bytes.ofNatLE e.size (n % Int.pow 2 (8 * e.size)).toNat)
      else .error .unpackable
    | none => .error .unpackable
  | _, _ => .error .unpackable

def unpack (e : Element) (bs : Bytes) : Scalar :=
  match e with
  | .char => .bytes bs
  | .float64 => .real (UInt64.ofNat bs.toNatLE)
  | .float32 =>
    .real (UInt64.ofNat ((Binary.Format.binary64.convert? .binary32 bs.toNatLE).getD 0))
  | e =>
    if e.signed? = some true ∧ Nat.pow 2 (8 * e.size - 1) ≤ bs.toNatLE then
      .int ((bs.toNatLE : Int) - Int.pow 2 (8 * e.size))
    else .int bs.toNatLE

end Element

namespace MessageType

def requireElement (t : MessageType) : Except Fault Element :=
  match t.element? with
  | some e => .ok e
  | none => .error (if t.isUnknown then .typeUndefined t.code else .untyped t)

/-- The payload that holds the values, each in one element. -/
def pack (t : MessageType) (vs : List Scalar) : Except Fault Bytes := do
  let e ← t.requireElement
  List.flatten <$> vs.mapM e.pack

def unpack (t : MessageType) (data : Bytes) : Except Fault (List Scalar) :=
  if 0 < t.wireSizeHint ∧ data.length % t.wireSizeHint ≠ 0 then
    .error (.payloadRagged t data.length t.wireSizeHint)
  else do
    let e ← t.requireElement
    pure ((List.range (data.length / e.size)).map fun i =>
      e.unpack (data.slice (i * e.size) (i * e.size + e.size)))

end MessageType

end PacketLink
