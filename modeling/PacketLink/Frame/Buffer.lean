import PacketLink.Binary.Format
import PacketLink.Frame.Cobs
/-! # Frames in caller buffers

Encoding into a buffer writes the frame at its start and keeps the bytes after it; the buffer
must hold the frame. Decoding into a buffer does the same with the decoded bytes, and decoding
in place writes them over the frame itself, which is never shorter. A buffer of
`maxEncodedLen n` bytes holds the frame of any `n` bytes: one code byte per started block of
254 bytes, at least one, and the delimiter. The number of blocks is the ceiling of the
binary64 number nearest to `n / 254`.
-/
namespace PacketLink.Frame

/-- The frame of `data` written over the start of `out`, and its length. -/
def encodeInto (data out : Bytes) (c : Codec := standard) : Except Fault (Nat × Bytes) :=
  let f := encode data c
  if out.length < f.length then .error (.outputShort out.length f.length)
  else .ok (f.length, f ++ out.drop f.length)

def decodeInto (data out : Bytes) (c : Codec := standard) : Except Fault (Nat × Bytes) := do
  let d ← decode data c
  if out.length < d.length then throw (.outputTooSmall d.length out.length)
  pure (d.length, d ++ out.drop d.length)

def decodeInPlace (buf : Bytes) (c : Codec := standard) : Except Fault (Nat × Bytes) :=
  decodeInto buf buf c

/-- The least integer at or above the binary64 number of pattern `bits`, for a finite one. -/
def ceilOfBits (bits : Nat) : Int :=
  match Binary.Format.binary64.decode bits with
  | .finite neg m e =>
    let (num, den) := Binary.scaled m 1 (-e)
    if neg then -((num / den : Nat) : Int) else (((num + den - 1) / den : Nat) : Int)
  | _ => 0

/-- The buffer size that holds the frame of any `n` bytes. The quotient `n / 254` must lie
within the binary64 range. -/
def maxEncodedLen (n : Int) : Except Fault Int :=
  match Binary.Format.binary64.ofRatio? (decide (n < 0)) n.natAbs 254 with
  | some bits => .ok (n + max 1 (ceilOfBits bits) + 1)
  | none => .error .quotientOverflow

end PacketLink.Frame
