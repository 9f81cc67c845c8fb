import PacketLink.Fault.Report
import PacketLink.Packet.Basic
/-! # What the packet check accepts

Once a buffer holds its three header bytes, every field and span the check reads is a plain
function of them, and `Packet.new` comes down to four tests: room for header and checksum, a
nonzero identifier length, room for everything the header describes, and a matching
checksum, then the type test when types are strict. Every way it can fail is a packet error.
-/
namespace PacketLink

@[simp] theorem ok_bind {ε α β : Type} (a : α) (f : α → Except ε β) : (Except.ok a >>= f) = f a :=
  rfl

@[simp] theorem error_bind {ε α β : Type} (e : ε) (f : α → Except ε β) :
    (Except.error e >>= f) = Except.error e :=
  rfl

namespace MessageType

theorem ofCode?_map_code : ∀ c < 256, (ofCode? c).map code = some c := by
  set_option maxRecDepth 4000 in decide

theorem ofWire_of_lt {c : Nat} (h : c < 256) : ∃ t, ofWire c = .ok t ∧ t.code = c := by
  obtain ⟨t, ht, hc⟩ := Option.map_eq_some_iff.mp (ofCode?_map_code c h)
  exact ⟨t, by simp [ofWire, ht], hc⟩

theorem isUnknown_iff (t : MessageType) : t.isUnknown = true ↔ 13 ≤ t.code := by
  cases t with
  | typed e => cases e <;> decide
  | unknown c lo hi => simpa [isUnknown, code] using lo
  | _ => decide

end MessageType

namespace Packet

variable {p : Packet} {b0 b1 b2 : UInt8} {rest : Bytes}

/-- The little-endian word stored at `i`. -/
def wordAt (bs : Bytes) (i : Nat) : Nat :=
  Bytes.word ((bs.slice i (i + 2)).getD 0 0) ((bs.slice i (i + 2)).getD 1 0)

theorem span_of_le {start stop : Nat} (h : stop ≤ p.length) :
    p.span start stop = .ok (p.bytes.slice start stop) := by
  simp [span, Nat.not_lt.2 h]

theorem checkType_eq {t : Nat} (ht : p.typeCode = .ok t) (h : t < 256) :
    p.checkType = if 13 ≤ t then .error (.typeUndefined t) else .ok () := by
  obtain ⟨m, hm, rfl⟩ := MessageType.ofWire_of_lt h
  have hu := MessageType.isUnknown_iff m
  simp only [checkType, typ, ht]
  show (do let t ← MessageType.ofWire (m.code : Int); if t.isUnknown = true then
    throw (Fault.typeUndefined t.code) else pure () : Except Fault Unit) = _
  rw [hm]
  change (if m.isUnknown = true then throw (Fault.typeUndefined m.code) else pure ()) = _
  by_cases h13 : 13 ≤ m.code
  · rw [if_pos (hu.mpr h13), if_pos h13]; rfl
  · rw [if_neg (fun h' => h13 (hu.mp h')), if_neg h13]; rfl

section Header

variable (hp : p.bytes = b0 :: b1 :: b2 :: rest)
include hp

theorem byte_one : p.byte 1 = .ok b1 := by simp [byte, hp]

theorem byte_two : p.byte 2 = .ok b2 := by simp [byte, hp]

theorem dataLength_eq : p.dataLength = .ok (Header.dataLength b0 b1) := by simp [dataLength, hp]

theorem typeCode_eq : p.typeCode = .ok (Header.typeCode b1) := by
  simp only [typeCode, byte_one hp]; rfl

theorem offset_eq : p.offset = .ok (Header.offset b1) := by simp only [offset, byte_one hp]; rfl

theorem idLengthRaw_eq : p.idLengthRaw = .ok (Header.idLength b2) := by
  simp only [idLengthRaw, byte_two hp]; rfl

theorem idLength_eq : p.idLength =
    if Header.idLength b2 = 0 then .error (.idLengthInvalid (.int 0)) else .ok (Header.idLength b2) := by
  simp only [idLength, idLengthRaw_eq hp]; rfl

variable (hid : Header.idLength b2 ≠ 0)
include hid

theorem idLength_ok : p.idLength = .ok (Header.idLength b2) := by
  rw [idLength_eq hp, if_neg hid]

theorem payloadStart_eq :
    p.payloadStart = .ok (3 + Header.idLength b2 + if Header.offset b1 then 2 else 0) := by
  simp only [payloadStart, idLength_ok hp hid, offset_eq hp]; rfl

theorem checksumStart_eq : p.checksumStart =
    .ok (3 + Header.idLength b2 + (if Header.offset b1 then 2 else 0) + Header.dataLength b0 b1) := by
  simp only [checksumStart, payloadStart_eq hp hid, dataLength_eq hp]; rfl

theorem wireSize_eq : p.wireSize =
    .ok (Header.frameSize (Header.idLength b2) (Header.dataLength b0 b1) (Header.offset b1)) := by
  simp only [wireSize, idLength_ok hp hid, dataLength_eq hp, offset_eq hp]; rfl

/-- Where the checksum starts, as the header describes it. -/
abbrev crcStart (b0 b1 b2 : UInt8) : Nat :=
  3 + Header.idLength b2 + (if Header.offset b1 then 2 else 0) + Header.dataLength b0 b1

theorem checksum_eq (h : crcStart b0 b1 b2 + 2 ≤ p.length) :
    p.checksum = .ok (wordAt p.bytes (crcStart b0 b1 b2)) := by
  simp only [checksum, checksumStart_eq hp hid, ok_bind, span_of_le h]; rfl

theorem computeChecksum_eq (h : crcStart b0 b1 b2 ≤ p.length) :
    p.computeChecksum = .ok (Checksum.crc16 (p.bytes.take (crcStart b0 b1 b2))).toNat := by
  simp only [computeChecksum, checksumStart_eq hp hid, ok_bind, span_of_le h, Bytes.slice,
    List.drop_zero]
  rfl

end Header

theorem typeCode_lt (b1 : UInt8) : Header.typeCode b1 < 16 := by
  unfold Header.typeCode; omega

/-- The size the header describes. -/
abbrev sizeOf (b0 b1 b2 : UInt8) : Nat :=
  Header.frameSize (Header.idLength b2) (Header.dataLength b0 b1) (Header.offset b1)

theorem crcStart_add_two (b0 b1 b2 : UInt8) : crcStart b0 b1 b2 + 2 = sizeOf b0 b1 b2 := by
  simp only [crcStart, sizeOf, Header.frameSize, Header.baseSize]; split <;> omega

theorem new_of_lt_three {bs : Bytes} (s w : Bool) (h : bs.length < 3) :
    Packet.new bs s w = .error (.headerMissing bs.length) := by
  simp only [Packet.new, checkLength, length, h, if_true]; rfl

theorem new_eq {bs : Bytes} (s w : Bool) (hp : bs = b0 :: b1 :: b2 :: rest) :
    Packet.new bs s w =
      if bs.length < 5 then .error (.checksumMissing bs.length)
      else if Header.idLength b2 = 0 then .error (.idLengthInvalid (.int 0))
      else if bs.length < sizeOf b0 b1 b2 then .error (.spanPastEnd bs.length (sizeOf b0 b1 b2))
      else if (Checksum.crc16 (bs.take (crcStart b0 b1 b2))).toNat ≠ wordAt bs (crcStart b0 b1 b2)
      then .error (.checksumMismatch (wordAt bs (crcStart b0 b1 b2))
        (Checksum.crc16 (bs.take (crcStart b0 b1 b2))).toNat)
      else if s ∧ 13 ≤ Header.typeCode b1 then .error (.typeUndefined (Header.typeCode b1))
      else .ok ⟨bs, w⟩ := by
  have hp' : ({ bytes := bs, writable := w } : Packet).bytes = b0 :: b1 :: b2 :: rest := hp
  have h3 : 3 ≤ bs.length := by simp [hp]
  have hlen : ({ bytes := bs, writable := w } : Packet).length = bs.length := rfl
  simp only [Packet.new, checkLength, hlen, Header.baseSize, Nat.not_lt.2 h3, if_false]
  by_cases h5 : bs.length < 5
  · simp only [h5, if_true, error_bind]
  simp only [h5, if_false, ok_bind]
  by_cases hid : Header.idLength b2 = 0
  · simp only [checkPayloadLength, wireSize, idLength_eq hp', hid, if_true, error_bind]
  simp only [hid, if_false, checkPayloadLength, wireSize_eq hp' hid, ok_bind]
  by_cases hsize : bs.length < sizeOf b0 b1 b2
  · simp only [hlen, hsize, if_true]; rfl
  have hn := crcStart_add_two b0 b1 b2
  simp only [hlen, hsize, if_false, ok_bind, checkChecksum,
    checksum_eq hp' hid (by rw [hlen]; omega), computeChecksum_eq hp' hid (by rw [hlen]; omega)]
  by_cases hcrc :
      (Checksum.crc16 (bs.take (crcStart b0 b1 b2))).toNat ≠ wordAt bs (crcStart b0 b1 b2)
  · rw [if_pos hcrc, pure_bind, if_pos hcrc]; rfl
  rw [if_neg hcrc, pure_bind, if_neg hcrc, pure_bind]
  cases s with
  | false => rfl
  | true =>
    simp only [↓reduceIte, true_and,
      checkType_eq (typeCode_eq hp') (by have := typeCode_lt b1; omega)]
    split <;> rfl

/-- Every way the check fails is a packet error. -/
theorem new_error_isPacketError {bs : Bytes} {s w : Bool} {e : Fault}
    (h : Packet.new bs s w = .error e) : e.raised.isPacketError = true := by
  match bs, h with
  | [], h | [_], h | [_, _], h => rw [new_of_lt_three s w (by simp)] at h; cases h; rfl
  | b0 :: b1 :: b2 :: rest, h =>
    rw [new_eq s w rfl] at h
    repeat' split at h
    all_goals (cases h <;> rfl)

theorem eq_of_new {bs : Bytes} {s w : Bool} {p : Packet} (h : Packet.new bs s w = .ok p) :
    p = ⟨bs, w⟩ := by
  match bs, h with
  | [], h | [_], h | [_, _], h => rw [new_of_lt_three s w (by simp)] at h; cases h
  | b0 :: b1 :: b2 :: rest, h =>
    rw [new_eq s w rfl] at h
    repeat' split at h
    all_goals (cases h <;> rfl)

end Packet

end PacketLink
