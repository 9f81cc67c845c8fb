import PacketLink.IntArg
/-! # Message types

A packet's type is a wire code. Codes 0 to 12 are named; of them, 3 to 12 carry typed scalar
data, each with one element kind of fixed size. Codes 13 to 255 are kept as unknown types, so
that a packet from newer firmware still reads back its code.
-/
namespace PacketLink

/-- The scalar kinds that typed payloads hold. -/
inductive Element where
  | byte
  | char
  | int8
  | uint8
  | int16
  | uint16
  | int32
  | uint32
  | float32
  | float64
  deriving DecidableEq, Repr

namespace Element

/-- The position of a kind in the list of kinds; its wire code is three more. -/
def index : Element → Nat
  | byte => 0
  | char => 1
  | int8 => 2
  | uint8 => 3
  | int16 => 4
  | uint16 => 5
  | int32 => 6
  | uint32 => 7
  | float32 => 8
  | float64 => 9

def ofIndex? : Nat → Option Element
  | 0 => some byte
  | 1 => some char
  | 2 => some int8
  | 3 => some uint8
  | 4 => some int16
  | 5 => some uint16
  | 6 => some int32
  | 7 => some uint32
  | 8 => some float32
  | 9 => some float64
  | _ => none

/-- The name of the type that carries a kind. -/
def name : Element → String
  | byte => "BYTE"
  | char => "CHAR"
  | int8 => "INT8"
  | uint8 => "UINT8"
  | int16 => "INT16"
  | uint16 => "UINT16"
  | int32 => "INT32"
  | uint32 => "UINT32"
  | float32 => "FLOAT32"
  | float64 => "FLOAT64"

def size : Element → Nat
  | byte | char | int8 | uint8 => 1
  | int16 | uint16 => 2
  | int32 | uint32 | float32 => 4
  | float64 => 8

def letter : Element → String
  | byte => "B"
  | char => "c"
  | int8 => "b"
  | uint8 => "B"
  | int16 => "h"
  | uint16 => "H"
  | int32 => "i"
  | uint32 => "I"
  | float32 => "f"
  | float64 => "d"

/-- Whether an integer kind is signed; `none` for the character and float kinds. -/
def signed? : Element → Option Bool
  | byte | uint8 | uint16 | uint32 => some false
  | int8 | int16 | int32 => some true
  | char | float32 | float64 => none

theorem ofIndex?_index (e : Element) : ofIndex? e.index = some e := by
  cases e <;> rfl

end Element

/-- A message type: one of the named types or an unknown code of one byte. -/
inductive MessageType where
  | callback
  | custom
  | offsetMetadata
  | typed (e : Element)
  | unknown (code : Nat) (lo : 13 ≤ code) (hi : code < 256)
  deriving DecidableEq

namespace MessageType

def code : MessageType → Nat
  | callback => 0
  | custom => 1
  | offsetMetadata => 2
  | typed e => e.index + 3
  | unknown c _ _ => c

def ofCode? (c : Nat) : Option MessageType :=
  if c = 0 then some callback
  else if c = 1 then some custom
  else if c = 2 then some offsetMetadata
  else if h : 13 ≤ c then
    if h' : c < 256 then some (unknown c h h') else none
  else (Element.ofIndex? (c - 3)).map typed

def isUnknown : MessageType → Bool
  | unknown .. => true
  | _ => false

/-- The type's name; an unknown code is named `UNKNOWN_<code>`. -/
def name : MessageType → String
  | callback => "CALLBACK"
  | custom => "CUSTOM"
  | offsetMetadata => "OFFSET_METADATA"
  | typed e => e.name
  | unknown c _ _ => "UNKNOWN_" ++ toString c

def element? : MessageType → Option Element
  | typed e => some e
  | _ => none

/-- Bytes per element, zero for a type without elements. -/
def wireSizeHint (t : MessageType) : Nat := (t.element?.map Element.size).getD 0

def arrayWireSizeHint (t : MessageType) (n : Int) : Int := n * t.wireSizeHint

/-- The whole elements in `n` bytes, rounded toward minus infinity; zero without elements. -/
def arrayWireLengthHint (t : MessageType) (n : Int) : Int :=
  if t.wireSizeHint = 0 then 0 else Int.fdiv n t.wireSizeHint

/-- The bytes of `n` elements, counting at least one. -/
def dataWireSize (t : MessageType) (n : Int) : Int := t.arrayWireSizeHint (max 1 n)

/-- The little-endian packing format of `n` elements, or `none` without elements; the count is
written as it was given. -/
def structFormat (t : MessageType) (n : IntArg) : Option String :=
  t.element?.map fun e => "<" ++ n.text ++ e.letter

theorem ofCode?_code (t : MessageType) : ofCode? t.code = some t := by
  cases t with
  | typed e => cases e <;> rfl
  | unknown c lo hi =>
    have h0 : c ≠ 0 := by omega
    have h1 : c ≠ 1 := by omega
    have h2 : c ≠ 2 := by omega
    simp [code, ofCode?, h0, h1, h2, lo, hi]
  | _ => rfl

end MessageType

end PacketLink
