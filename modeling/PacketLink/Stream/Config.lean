import PacketLink.Frame.Buffer
import PacketLink.Stream.Decoder
/-! # Decoder configuration

A configuration gives the storage size of a decoder and whether it refuses unknown types.
Fields are checked strictly: the size must be an integer, not a flag or a number with a
fraction, and at least five; the flag must be a flag. Every field is checked, in order, and all
problems are reported together. Fields of other names are ignored.
-/
namespace PacketLink.Stream

/-- A configuration field's value as given. -/
inductive Setting where
  | int (n : Int)
  | bool (b : Bool)
  /-- Any other value: text, a number with a fraction, nothing, a list or a record. -/
  | other
  deriving DecidableEq

inductive Issue where
  | intType
  | boolType
  | greaterThanEqual
  deriving DecidableEq

def Issue.name : Issue → String
  | .intType => "int_type"
  | .boolType => "bool_type"
  | .greaterThanEqual => "greater_than_equal"

/-- The default storage size: the buffer size for framing the declared largest packet. -/
def Config.defaultBufferSize : Nat :=
  match Frame.maxEncodedLen Packet.maxPacketSize with
  | .ok n => n.toNat
  | .error _ => 0

structure Config where
  bufferSize : Nat := Config.defaultBufferSize
  strictTypes : Bool := false
  size_ge : Header.baseSize ≤ bufferSize := by decide

namespace Config

def sizeOf (s : Setting) : Except Issue { n : Nat // Header.baseSize ≤ n } :=
  match s with
  | .int n =>
    if h : (Header.baseSize : Int) ≤ n then .ok ⟨n.toNat, by omega⟩ else .error .greaterThanEqual
  | _ => .error .intType

def flagOf (s : Setting) : Except Issue Bool :=
  match s with
  | .bool b => .ok b
  | _ => .error .boolType

def issues {α : Type} (name : String) : Except Issue α → List (String × Issue)
  | .ok _ => []
  | .error i => [(name, i)]

/-- The configuration that named fields give, or every field's issue. -/
def ofFields (fields : List (String × Setting)) : Except (List (String × Issue)) Config :=
  let size := ((fields.lookup "buffer_size").map sizeOf).getD (.ok ⟨defaultBufferSize, by decide⟩)
  let strict := ((fields.lookup "strict_types").map flagOf).getD (.ok false)
  match size, strict with
  | .ok n, .ok s => .ok { bufferSize := n.1, strictTypes := s, size_ge := n.2 }
  | _, _ => .error (issues "buffer_size" size ++ issues "strict_types" strict)

end Config

def Decoder.ofConfig (c : Config) : Decoder := { capacity := c.bufferSize, strict := c.strictTypes }

end PacketLink.Stream
