import PacketLink.Bytes
/-! # Packet header layout

A packet starts with three header bytes that hold seven fields and no other bit:

* bytes 0 and 1, little-endian, bits 0 to 9: the data length, the payload's size;
* byte 1, bits 2 to 5: the type code; bit 6: the internal flag; bit 7: the offset flag;
* byte 2, bits 0 to 3: the identifier length; bit 4: the response flag; bits 5 to 7: the
  acknowledgement number.

The identifier follows, then two bytes of offset metadata when the offset flag is set, the
payload, and the little-endian checksum of everything before it. A header byte built from its
fields reads them back, and every byte is built from its own fields.
-/
namespace PacketLink.Header

def dataLength (b0 b1 : UInt8) : Nat := b0.toNat + 256 * (b1.toNat % 4)

def typeCode (b1 : UInt8) : Nat := b1.toNat / 4 % 16

def internal (b1 : UInt8) : Bool := b1.toNat / 64 % 2 == 1

def offset (b1 : UInt8) : Bool := b1.toNat / 128 == 1

def idLength (b2 : UInt8) : Nat := b2.toNat % 16

def response (b2 : UInt8) : Bool := b2.toNat / 16 % 2 == 1

def acknum (b2 : UInt8) : Nat := b2.toNat / 32

/-! The masks of the fields in bytes 1 and 2; byte 0 holds the low eight bits of the data length
alone. -/

def dataLengthHighBits : UInt8 := 0x03

def typeBits : UInt8 := 0x3C

def internalBit : UInt8 := 0x40

def offsetBit : UInt8 := 0x80

def idLengthBits : UInt8 := 0x0F

def responseBit : UInt8 := 0x10

def acknumBits : UInt8 := 0xE0

/-- Byte 1 from the top two bits of the data length, the type code and the two flags. -/
def byte1 (high code : Nat) (internal offset : Bool) : UInt8 :=
  UInt8.ofNat (high + 4 * code + 64 * internal.toNat + 128 * offset.toNat)

def byte2 (idLength : Nat) (response : Bool) (acknum : Nat) : UInt8 :=
  UInt8.ofNat (idLength + 16 * response.toNat + 32 * acknum)

theorem toNat_byte1 (h c : Nat) (i o : Bool) (hh : h < 4) (hc : c < 16) :
    (byte1 h c i o).toNat = h + 4 * c + 64 * i.toNat + 128 * o.toNat := by
  cases i <;> cases o <;> simp [byte1, UInt8.toNat_ofNat] <;> omega

theorem typeCode_byte1 (h c : Nat) (i o : Bool) (hh : h < 4) (hc : c < 16) :
    typeCode (byte1 h c i o) = c := by
  rw [typeCode, toNat_byte1 h c i o hh hc]; cases i <;> cases o <;> simp <;> omega

theorem internal_byte1 (h c : Nat) (i o : Bool) (hh : h < 4) (hc : c < 16) :
    internal (byte1 h c i o) = i := by
  rw [internal, toNat_byte1 h c i o hh hc]; cases i <;> cases o <;> simp <;> omega

theorem offset_byte1 (h c : Nat) (i o : Bool) (hh : h < 4) (hc : c < 16) :
    offset (byte1 h c i o) = o := by
  rw [offset, toNat_byte1 h c i o hh hc]; cases i <;> cases o <;> simp <;> omega

theorem high_byte1 (h c : Nat) (i o : Bool) (hh : h < 4) (hc : c < 16) :
    (byte1 h c i o).toNat % 4 = h := by
  rw [toNat_byte1 h c i o hh hc]; cases i <;> cases o <;> simp <;> omega

theorem byte1_fields (b : UInt8) :
    byte1 (b.toNat % 4) (typeCode b) (internal b) (offset b) = b := by
  have hb := b.toNat_lt
  apply UInt8.toNat_inj.mp
  rw [toNat_byte1 _ _ _ _ (by omega) (by unfold typeCode; omega)]
  simp only [typeCode, internal, offset]
  have h1 : b.toNat / 64 % 2 = 0 ∨ b.toNat / 64 % 2 = 1 := by omega
  have h2 : b.toNat / 128 = 0 ∨ b.toNat / 128 = 1 := by omega
  rcases h1 with h1 | h1 <;> rcases h2 with h2 | h2 <;> simp [h1, h2] <;> omega

theorem toNat_byte2 (l : Nat) (r : Bool) (a : Nat) (hl : l < 16) (ha : a < 8) :
    (byte2 l r a).toNat = l + 16 * r.toNat + 32 * a := by
  cases r <;> simp [byte2, UInt8.toNat_ofNat] <;> omega

theorem idLength_byte2 (l : Nat) (r : Bool) (a : Nat) (hl : l < 16) (ha : a < 8) :
    idLength (byte2 l r a) = l := by
  rw [idLength, toNat_byte2 l r a hl ha]; cases r <;> simp <;> omega

theorem response_byte2 (l : Nat) (r : Bool) (a : Nat) (hl : l < 16) (ha : a < 8) :
    response (byte2 l r a) = r := by
  rw [response, toNat_byte2 l r a hl ha]; cases r <;> simp <;> omega

theorem acknum_byte2 (l : Nat) (r : Bool) (a : Nat) (hl : l < 16) (ha : a < 8) :
    acknum (byte2 l r a) = a := by
  rw [acknum, toNat_byte2 l r a hl ha]; cases r <;> simp <;> omega

theorem byte2_fields (b : UInt8) : byte2 (idLength b) (response b) (acknum b) = b := by
  have hb := b.toNat_lt
  apply UInt8.toNat_inj.mp
  rw [toNat_byte2 _ _ _ (by unfold idLength; omega) (by unfold acknum; omega)]
  simp only [idLength, response, acknum]
  have h1 : b.toNat / 16 % 2 = 0 ∨ b.toNat / 16 % 2 = 1 := by omega
  rcases h1 with h1 | h1 <;> simp [h1] <;> omega

def baseSize : Nat := 5

def frameSize (idLength dataLength : Nat) (offset : Bool) : Nat :=
  baseSize + idLength + dataLength + if offset then 2 else 0

/-- The same size for lengths of any sign. -/
def bufferLen (idLength dataLength : Int) (offset : Bool) : Int :=
  baseSize + idLength + dataLength + if offset then 2 else 0

def maxDataLength : Nat := 1023

theorem bufferLen_ofNat (l d : Nat) (o : Bool) :
    bufferLen l d o = (frameSize l d o : Int) := by
  cases o <;> simp [bufferLen, frameSize]

end PacketLink.Header
