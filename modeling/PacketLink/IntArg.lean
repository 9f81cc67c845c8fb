/-! # Integer arguments

An integer argument as the caller gave it. A flag may stand where an integer is asked for: it
counts as 0 or 1, and where the argument is shown back, in a message or a report's details, it
is shown as the flag it was.
-/
namespace PacketLink

/-- An integer argument: an integer, or a flag standing for 0 or 1. -/
inductive IntArg where
  | int (n : Int)
  | flag (b : Bool)
  deriving DecidableEq, Repr

namespace IntArg

def toInt : IntArg → Int
  | int n => n
  | flag b => if b then 1 else 0

/-- The text an argument is shown by: decimal digits, or `True` and `False`. -/
def text : IntArg → String
  | int n => toString n
  | flag b => if b then "True" else "False"

@[simp] theorem toInt_int (n : Int) : (int n).toInt = n := rfl

end IntArg

end PacketLink
