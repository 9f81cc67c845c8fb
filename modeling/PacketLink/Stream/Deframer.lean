import PacketLink.Bytes
/-! # Online de-framing

The streaming decoder undoes COBS one byte at a time. It counts down to the next code byte;
a code byte becomes the new count and stands for the zero that encoding removed, unless the
block before it was a full block of code `0xFF`, after which no zero was removed. The first
code byte of a frame stands for a zero too, which the decoder's first phase consumes.
-/
namespace PacketLink.Stream

/-- The de-framing state: the distance to the next code byte, and whether the current block is
a full one. -/
structure Deframer where
  countdown : Nat := 0
  fullBlock : Bool := false
  deriving DecidableEq, Repr

namespace Deframer

def start : Deframer := {}

/-- Takes a nonzero byte: the byte it stands for, if any, and the next state. -/
def step (d : Deframer) (b : UInt8) : Option UInt8 × Deframer :=
  if 1 < d.countdown then (some b, { d with countdown := d.countdown - 1 })
  else ((if d.fullBlock then none else some 0), { countdown := b.toNat, fullBlock := b == 0xFF })

/-- The bytes that a zero-free string stands for, from a state. -/
def run (d : Deframer) : Bytes → Bytes × Deframer
  | [] => ([], d)
  | b :: r =>
    let (o, d') := d.step b
    let (out, d'') := d'.run r
    (o.toList ++ out, d'')

theorem run_append (d : Deframer) (a b : Bytes) :
    d.run (a ++ b) = ((d.run a).1 ++ ((d.run a).2.run b).1, ((d.run a).2.run b).2) := by
  induction a generalizing d with
  | nil => rfl
  | cons x r ih => simp [run, ih]

end Deframer

end PacketLink.Stream
