import PacketLink.Fault
/-! # Message types from wire codes

Any code of one byte reads as a message type, the undefined ones as unknown types; a code
outside one byte is refused. Asking for an unknown type by a named type's code is refused too.
-/
namespace PacketLink.MessageType

def ofWire (c : Int) : Except Fault MessageType :=
  match (if 0 ≤ c then ofCode? c.toNat else none) with
  | some t => .ok t
  | none => .error (.typeCodeInvalid c)

/-- The unknown type of a code that no named type has. -/
def ofUnknownCode (c : IntArg) : Except Fault MessageType := do
  let t ← ofWire c.toInt
  if t.isUnknown then pure t else throw (.typeCodeDefined c t)

theorem ofWire_code (t : MessageType) : ofWire t.code = .ok t := by
  simp [ofWire, ofCode?_code]

end PacketLink.MessageType
