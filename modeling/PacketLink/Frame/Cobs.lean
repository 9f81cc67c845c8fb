import PacketLink.Fault
/-! # COBS framing

Consistent overhead byte stuffing removes every `0x00` from a byte string, so that a single
`0x00` can end each frame on the wire. The encoding is a chain of blocks: a code byte `c`
followed by `c - 1` nonzero bytes. A block with a code below `0xFF` stands for its bytes and a
zero, the last block's zero apart; a block with code `0xFF` holds 254 bytes and stands for no
zero.

Framing takes its stuffing codec as a parameter: an encoder, and a decoder that refuses what is
no encoding. What framing relies on is `Codec.Lawful`: an encoding is never empty, holds no
`0x00` and decodes back. The codec framing uses unless told otherwise is `standard`, COBS with
the block rules above. A frame is the encoding followed by the delimiter; decoding a byte string
reads the frame that ends at its first `0x00`.
-/
namespace PacketLink.Frame

/-- A byte-stuffing codec: the encoding of a byte string, and the bytes an encoding stands for. -/
structure Codec where
  encode : Bytes → Bytes
  decode : Bytes → Option Bytes

/-- What framing needs of its codec. -/
structure Codec.Lawful (c : Codec) : Prop where
  encode_ne_nil (data : Bytes) : c.encode data ≠ []
  zero_not_mem (data : Bytes) : 0 ∉ c.encode data
  decode_encode (data : Bytes) : c.decode (c.encode data) = some data

/-- The encoding of `rest` when the current block already holds `block`, fewer than 254 nonzero
bytes. A block is closed at a zero, when it reaches 254 bytes with input left over, and at the
end of the input. -/
def encodeFrom (block : Bytes) : Bytes → Bytes
  | [] => UInt8.ofNat (block.length + 1) :: block
  | b :: r =>
    if b = 0 then UInt8.ofNat (block.length + 1) :: block ++ encodeFrom [] r
    else if block.length + 1 = 254 ∧ r ≠ [] then 0xFF :: block ++ b :: encodeFrom [] r
    else encodeFrom (block ++ [b]) r

def cobs (data : Bytes) : Bytes := encodeFrom [] data

/-- The bytes that a chain of blocks stands for, or `none` when a code byte reaches past the
end. The zero after a block is written only when another block follows. -/
def decodeBlocks (bs : Bytes) : Option Bytes :=
  match bs with
  | [] => some []
  | c :: rest =>
    if rest.length < c.toNat - 1 then none
    else if rest.drop (c.toNat - 1) = [] then some (rest.take (c.toNat - 1))
    else
      (decodeBlocks (rest.drop (c.toNat - 1))).map fun tail =>
        rest.take (c.toNat - 1) ++ (if c.toNat < 0xFF then [0] else []) ++ tail
termination_by bs.length
decreasing_by simp only [List.length_drop, List.length_cons]; omega

def standard : Codec := ⟨cobs, decodeBlocks⟩

@[simp] theorem standard_encode : standard.encode = cobs := rfl

@[simp] theorem standard_decode : standard.decode = decodeBlocks := rfl

def encode (data : Bytes) (c : Codec := standard) : Bytes := c.encode data ++ [0]

/-- The frame as a byte-wise writer yields it: each byte of the encoding in turn, then the
delimiter. -/
def encodeIter (data : Bytes) (c : Codec := standard) : Bytes := (c.encode data).foldr (· :: ·) [0]

def body (data : Bytes) : Bytes := data.takeWhile (· ≠ 0)

def decode (data : Bytes) (c : Codec := standard) : Except Fault Bytes :=
  let b := body data
  if b.length = data.length then .error (.delimiterMissing data.length)
  else if b = [] then .error .frameEmpty
  else
    match c.decode b with
    | some d => .ok d
    | none => .error (.blockTruncated b.length)

end PacketLink.Frame
