import PacketLink.Fault
import PacketLink.Text.Utf8
/-! # Message identifiers

A message identifier is one to fifteen bytes and never the single byte `0x00`. Identifiers are
equal and ordered as their bytes are, lexicographically, a proper prefix coming first. Their
text is the strict UTF-8 reading of the bytes; bytes that are no UTF-8 text are displayed as a
bracketed list of their values in hexadecimal. An identifier hashes as its bytes do, and a hash
set of identifiers finds a member by its hash, then by equality.
-/
namespace PacketLink

/-- Whether bytes form an identifier: one to fifteen of them, and not a lone `0x00`. -/
def MessageId.Valid (bs : Bytes) : Prop := 0 < bs.length ∧ bs.length ≤ 15 ∧ bs ≠ [0]

instance (bs : Bytes) : Decidable (MessageId.Valid bs) := by
  unfold MessageId.Valid; infer_instance

structure MessageId where
  bytes : Bytes
  valid : MessageId.Valid bytes
  deriving DecidableEq

namespace MessageId

def maxSize : Nat := 15

def ofBytes (bs : Bytes) : Except Fault MessageId :=
  if h : Valid bs then .ok ⟨bs, h⟩ else .error (.idInvalid bs)

/-- The identifier whose bytes are the UTF-8 encoding of a sequence of code points. -/
def ofText (ps : Text.CodePoints) : Except Fault MessageId :=
  match Text.Utf8.encodePoints? ps with
  | some bs => ofBytes bs
  | none => .error .notScalar

def length (m : MessageId) : Nat := m.bytes.length

def asString (m : MessageId) : Except Fault String :=
  match Text.Utf8.decode? m.bytes with
  | some s => .ok s
  | none => .error .notUtf8

/-- The display form: the text, or else the bytes in upper-case hexadecimal, comma-separated
within brackets. -/
def display (m : MessageId) : String :=
  match Text.Utf8.decode? m.bytes with
  | some s => s
  | none => "[" ++ ", ".intercalate (m.bytes.map Bytes.hexUpper) ++ "]"

instance : LT MessageId := ⟨fun a b => a.bytes < b.bytes⟩

instance (a b : MessageId) : Decidable (a < b) := inferInstanceAs (Decidable (a.bytes < b.bytes))

instance : LE MessageId := ⟨fun a b => a.bytes ≤ b.bytes⟩

instance (a b : MessageId) : Decidable (a ≤ b) := inferInstanceAs (Decidable (a.bytes ≤ b.bytes))

/-- Identifiers in ascending order, equal ones kept in their given order. -/
def sort (ms : List MessageId) : List MessageId := ms.mergeSort fun a b => decide (a ≤ b)

/-- An identifier hashes as its bytes do. -/
instance : Hashable MessageId := ⟨fun m => hash m.bytes⟩

/-- Adds an identifier to a hash set: it is there already when a member of the same hash
compares equal to it. -/
def insertHashed (s : List MessageId) (m : MessageId) : List MessageId :=
  if s.any (fun x => hash x == hash m && x == m) then s else s ++ [m]

/-- The number of different identifiers: the size of the hash set built from them. -/
def distinct (ms : List MessageId) : Nat := (ms.foldl insertHashed []).length

/-- The identifiers of a list of byte strings, the first invalid one refused. -/
def ofBytesList (bss : List Bytes) : Except Fault (List MessageId) := bss.mapM ofBytes

inductive Operand where
  | id (m : MessageId)
  | bytes (bs : Bytes)
  | text (s : Text.CodePoints)

def Operand.bytes? : Operand → Option Bytes
  | .id m => some m.bytes
  | .bytes bs => some bs
  | .text _ => none

/-- The six comparisons of an identifier with an operand. Equality with text is false; the
orderings refuse text. -/
structure Comparison where
  eq : Bool
  ne : Bool
  lt : Except Fault Bool
  le : Except Fault Bool
  gt : Except Fault Bool
  ge : Except Fault Bool

def compareWith (a : MessageId) (b : Operand) : Comparison :=
  let eq := decide (b.bytes? = some a.bytes)
  let lt : Except Fault Bool :=
    match b.bytes? with
    | some bs => .ok (decide (a.bytes < bs))
    | none => .error .unordered
  { eq, ne := !eq
    lt
    le := lt.map (· || eq)
    gt := lt.map (fun l => !l && !eq)
    ge := lt.map (!·) }

end MessageId

end PacketLink
