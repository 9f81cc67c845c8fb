/-! # Byte strings

A byte string is a list of octets. Sixteen-bit words are stored little-endian, and a byte string
is shown as lower-case hexadecimal with two digits per byte.
-/
namespace PacketLink

abbrev Bytes := List UInt8

namespace Bytes

def word (lo hi : UInt8) : Nat := lo.toNat + 256 * hi.toNat

/-- The two little-endian bytes of `v` modulo `2 ^ 16`. -/
def ofWord (v : Nat) : Bytes := [UInt8.ofNat v, UInt8.ofNat (v / 256)]

def hexDigit (n : Nat) : Char :=
  if n < 10 then Char.ofNat (48 + n) else Char.ofNat (87 + n)

def hexPair (b : UInt8) : List Char := [hexDigit (b.toNat / 16), hexDigit (b.toNat % 16)]

def hex (bs : Bytes) : String := String.ofList (bs.flatMap hexPair)

/-- Upper-case hexadecimal of one byte without a leading zero. -/
def hexUpper (b : UInt8) : String :=
  let up (c : Char) : Char := if c.isLower then Char.ofNat (c.toNat - 32) else c
  if b.toNat < 16 then String.singleton (up (hexDigit b.toNat))
  else String.ofList ((hexPair b).map up)

/-- The bytes from `start` up to `stop`, both clamped to the string. -/
def slice (bs : Bytes) (start stop : Nat) : Bytes := (bs.take stop).drop start

/-- Replaces the bytes from `start` on by `src`, keeping the length of `bs`. -/
def overwrite (bs : Bytes) (start : Nat) (src : Bytes) : Bytes :=
  bs.take start ++ (src ++ bs.drop (start + src.length)).take (bs.length - start)

end Bytes

end PacketLink
