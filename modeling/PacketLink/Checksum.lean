import PacketLink.Bytes
/-! # Frame checksum

The checksum is CRC-16/CCITT-FALSE: polynomial `0x1021`, initial value `0xFFFF`, bits taken
most significant first, no reflection and no final xor. It is a left fold of one byte step.
-/
namespace PacketLink

namespace Checksum

/-- One bit of the shift register: shift left, and add the polynomial when a one falls out. -/
def shiftBit (crc : UInt16) : UInt16 :=
  if crc &&& 0x8000 = 0 then crc <<< 1 else (crc <<< 1) ^^^ 0x1021

/-- Feeds one byte, most significant bit first. -/
def step (crc : UInt16) (b : UInt8) : UInt16 :=
  Nat.repeat shiftBit 8 (crc ^^^ (b.toUInt16 <<< 8))

def init : UInt16 := 0xFFFF

/-- CRC-16/CCITT-FALSE of a byte string. -/
def crc16 (bs : Bytes) : UInt16 := bs.foldl step init

theorem crc16_append (a b : Bytes) : crc16 (a ++ b) = b.foldl step (crc16 a) := by
  simp [crc16, List.foldl_append]

end Checksum

end PacketLink
