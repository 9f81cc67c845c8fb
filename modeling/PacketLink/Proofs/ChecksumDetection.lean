import PacketLink.Proofs.ChecksumSyndrome
import PacketLink.Proofs.SpanLayout
/-! # The checksum catches small corruptions

Flip bits of a checked packet anywhere before its checksum, but none of the bits that say where
the checksum lies: the data length, the offset flag and the identifier length. The corrupted
buffer keeps the layout, the length and the stored checksum, so the check gets as far as the
checksum, and the checksum it computes differs from the stored one by the syndrome of the flipped
bits. For at most three flipped bits, or flips inside two adjacent bytes, that syndrome is nonzero,
so the check fails on the checksum, whatever the strictness and before the type is looked at.
-/
namespace PacketLink.Packet

variable {b0 b1 b2 e1 e2 : UInt8} {rest : Bytes}

/-! ## Bits that keep the layout -/

theorem low_bits_of_and {e : UInt8} (h : e &&& 0x83 = 0) : e.toNat % 4 = 0 ∧ e.toNat < 128 := by
  have key : ∀ n < 256, n &&& 131 = 0 → n % 4 = 0 ∧ n < 128 := by decide +kernel
  exact key e.toNat e.toNat_lt (by simpa using congrArg UInt8.toNat h)

theorem id_bits_of_and {e : UInt8} (h : e &&& 0x0F = 0) : e.toNat % 16 = 0 := by
  have key : ∀ n < 256, n &&& 15 = 0 → n % 16 = 0 := by decide +kernel
  exact key e.toNat e.toNat_lt (by simpa using congrArg UInt8.toNat h)

theorem dataLength_xor (h : e1 &&& 0x83 = 0) :
    Header.dataLength b0 (b1 ^^^ e1) = Header.dataLength b0 b1 := by
  have hm : (b1.toNat ^^^ e1.toNat) % 4 = b1.toNat % 4 ^^^ e1.toNat % 4 := by
    simpa using @Nat.xor_mod_two_pow b1.toNat e1.toNat 2
  simp only [Header.dataLength, UInt8.toNat_xor, hm, (low_bits_of_and h).1, Nat.xor_zero]

theorem offset_xor (h : e1 &&& 0x83 = 0) : Header.offset (b1 ^^^ e1) = Header.offset b1 := by
  have hd : (b1.toNat ^^^ e1.toNat) / 128 = b1.toNat / 128 ^^^ e1.toNat / 128 := by
    simpa using @Nat.xor_div_two_pow b1.toNat e1.toNat 7
  have h0 : e1.toNat / 128 = 0 := Nat.div_eq_of_lt (low_bits_of_and h).2
  simp only [Header.offset, UInt8.toNat_xor, hd, h0, Nat.xor_zero]

theorem idLength_xor (h : e2 &&& 0x0F = 0) : Header.idLength (b2 ^^^ e2) = Header.idLength b2 := by
  have hm : (b2.toNat ^^^ e2.toNat) % 16 = b2.toNat % 16 ^^^ e2.toNat % 16 := by
    simpa using @Nat.xor_mod_two_pow b2.toNat e2.toNat 4
  simp only [Header.idLength, UInt8.toNat_xor, hm, id_bits_of_and h, Nat.xor_zero]

theorem crcStart_xor (h1 : e1 &&& 0x83 = 0) (h2 : e2 &&& 0x0F = 0) :
    crcStart b0 (b1 ^^^ e1) (b2 ^^^ e2) = crcStart b0 b1 b2 := by
  simp only [crcStart, dataLength_xor h1, offset_xor h1, idLength_xor h2]

theorem sizeOf_xor (h1 : e1 &&& 0x83 = 0) (h2 : e2 &&& 0x0F = 0) :
    sizeOf b0 (b1 ^^^ e1) (b2 ^^^ e2) = sizeOf b0 b1 b2 := by
  simp only [sizeOf, dataLength_xor h1, offset_xor h1, idLength_xor h2]

/-- The checksum covers at most 1043 bytes: header, identifier, offset metadata and payload. -/
theorem crcStart_le (b0 b1 b2 : UInt8) : crcStart b0 b1 b2 ≤ 1043 := by
  have h0 := b0.toNat_lt
  have hl := idLength_le b2
  simp only [crcStart, Header.dataLength]
  split <;> omega

/-! ## Corrupted buffers -/

theorem wordAt_eq_getD (bs : Bytes) (i : Nat) :
    wordAt bs i = Bytes.word (bs.getD i 0) (bs.getD (i + 1) 0) := by
  simp [wordAt, Bytes.slice, List.getD_eq_getElem?_getD]

theorem getD_zipWith_xor {b e : Bytes} (h : e.length = b.length) (i : Nat) :
    (List.zipWith (· ^^^ ·) b e).getD i 0 = b.getD i 0 ^^^ e.getD i 0 := by
  by_cases hi : i < b.length
  · simp [List.getD_eq_getElem?_getD, hi, h]
  · have hz : (List.zipWith (· ^^^ ·) b e)[i]? = none := List.getElem?_eq_none (by rw [List.length_zipWith]; omega)
    simp [List.getD_eq_getElem?_getD, hz, List.getElem?_eq_none (Nat.le_of_not_lt hi),
      List.getElem?_eq_none (h ▸ Nat.le_of_not_lt hi : e.length ≤ i)]

theorem zipWith_xor_header {b e : Bytes} {erest : Bytes} (hb : b = b0 :: b1 :: b2 :: rest)
    (he : e = 0 :: e1 :: e2 :: erest) :
    List.zipWith (· ^^^ ·) b e =
      b0 :: (b1 ^^^ e1) :: (b2 ^^^ e2) :: List.zipWith (· ^^^ ·) rest erest := by
  simp [hb, he]

/-- Flips from `n` on only leave the word stored at `n` as it is. -/
theorem wordAt_zipWith_xor {b e : Bytes} {n : Nat} (hlen : e.length = b.length)
    (htail : ∀ i, n ≤ i → e.getD i 0 = 0) :
    wordAt (List.zipWith (· ^^^ ·) b e) n = wordAt b n := by
  rw [wordAt_eq_getD, wordAt_eq_getD, getD_zipWith_xor hlen, getD_zipWith_xor hlen,
    htail n (Nat.le_refl n), htail (n + 1) (Nat.le_succ n), UInt8.xor_zero, UInt8.xor_zero]

/-- A buffer with room for what its header describes and a checksum that does not match fails
on the checksum, with the stored and the computed checksum. -/
theorem new_of_checksum_ne {bs : Bytes} {s w : Bool} (hb : bs = b0 :: b1 :: b2 :: rest)
    (hid : Header.idLength b2 ≠ 0) (hsize : sizeOf b0 b1 b2 ≤ bs.length)
    (hne : (Checksum.crc16 (bs.take (crcStart b0 b1 b2))).toNat ≠ wordAt bs (crcStart b0 b1 b2)) :
    Packet.new bs s w = .error (.checksumMismatch (wordAt bs (crcStart b0 b1 b2))
      (Checksum.crc16 (bs.take (crcStart b0 b1 b2))).toNat) := by
  have h5 : ¬bs.length < 5 := Nat.not_lt.mpr (Nat.le_trans (five_le_sizeOf b0 b1 b2) hsize)
  rw [new_eq s w hb, if_neg h5, if_neg hid, if_neg (Nat.not_lt.mpr hsize), if_pos hne]

/-! ## Detection -/

open Checksum in
/-- The checksum catches every small error that keeps the layout: up to three flipped bits, or
a burst within two adjacent bytes. -/
theorem checksum_detects_small_errors {b e : Bytes} {s w : Bool} {p : Packet}
    (hb : Packet.new b s w = .ok p) (hlen : e.length = b.length) (hne : ∃ x ∈ e, x ≠ 0)
    (hhead : e.getD 0 0 = 0 ∧ e.getD 1 0 &&& 0x83 = 0 ∧ e.getD 2 0 &&& 0x0F = 0)
    (htail : ∀ n, p.wireSize = .ok n → ∀ i, n - 2 ≤ i → e.getD i 0 = 0)
    (hsmall : weight e ≤ 3 ∨ ∃ q, ∀ i, e.getD i 0 ≠ 0 → i = q ∨ i = q + 1) (s' w' : Bool) :
    ∃ c c', c ≠ c' ∧ p.checksum = .ok c ∧
      Packet.new (List.zipWith (· ^^^ ·) b e) s' w' = .error (.checksumMismatch c c') := by
  obtain ⟨b0, b1, b2, rest, hb3⟩ := header_of_new hb
  obtain rfl := eq_of_new hb
  obtain ⟨-, hid, hsize, hcrc, -⟩ := (new_ok_iff hb3).mp hb
  obtain ⟨e0, e1, e2, erest, he⟩ : ∃ e0 e1 e2 erest, e = e0 :: e1 :: e2 :: erest := by
    match e, hlen with
    | e0 :: e1 :: e2 :: erest, _ => exact ⟨e0, e1, e2, erest, rfl⟩
    | [], h | [_], h | [_, _], h => simp [hb3] at h
  obtain ⟨h0, h1, h2⟩ := hhead
  simp only [he, List.getD_cons_zero, List.getD_cons_succ] at h0 h1 h2
  subst h0
  -- the flips lie before the checksum, and the layout bits keep it where it was
  have hn := crcStart_add_two b0 b1 b2
  have htail' : ∀ i, crcStart b0 b1 b2 ≤ i → e.getD i 0 = 0 :=
    fun i hi => htail _ (wireSize_eq hb3 hid) i (by show sizeOf b0 b1 b2 - 2 ≤ i; omega)
  have hstart : crcStart b0 (b1 ^^^ e1) (b2 ^^^ e2) = crcStart b0 b1 b2 := crcStart_xor h1 h2
  -- the computed checksum moves by the syndrome of the flips, which is nonzero
  have hdiff : wordAt b (crcStart b0 b1 b2) ≠
      (crc16 ((List.zipWith (· ^^^ ·) b e).take (crcStart b0 b1 b2))).toNat := by
    rw [← hcrc, List.take_zipWith]
    exact fun h => crc16_zipWith_xor_ne (by simp [hlen])
      (foldl_step_take_ne_zero (crcStart_le b0 b1 b2) hne htail' hsmall) (UInt16.toNat_inj.mp h).symm
  refine ⟨_, _, hdiff, checksum_eq hb3 hid (by show _ ≤ b.length; omega), ?_⟩
  have hnew := new_of_checksum_ne (s := s') (w := w') (zipWith_xor_header hb3 he)
    (by rwa [idLength_xor h2])
    (by rw [sizeOf_xor h1 h2, List.length_zipWith, hlen, Nat.min_self]; exact hsize)
    (by rw [hstart, wordAt_zipWith_xor hlen htail']; exact Ne.symm hdiff)
  rwa [hstart, wordAt_zipWith_xor hlen htail'] at hnew

set_option maxRecDepth 4000 in
/-- A flip of three type-code bits, to the unknown type `13`, fails on the checksum, also with
strict types. -/
theorem checksum_detects_small_errors_type_flip :
    let b : Bytes := [1, 128, 1, 7, 0, 0, 9, 218, 247]
    let e : Bytes := [0, 52, 0, 0, 0, 0, 0, 0, 0]
    Packet.new b false true = .ok ⟨b, true⟩ ∧ e.length = b.length ∧ (∃ x ∈ e, x ≠ 0) ∧
      (e.getD 0 0 = 0 ∧ e.getD 1 0 &&& 0x83 = 0 ∧ e.getD 2 0 &&& 0x0F = 0) ∧
      (∀ n, (Packet.mk b true).wireSize = .ok n → ∀ i, n - 2 ≤ i → e.getD i 0 = 0) ∧
      Checksum.weight e = 3 ∧ Header.typeCode (128 ^^^ 52) = 13 ∧
      ∃ c c', c ≠ c' ∧ (Packet.mk b true).checksum = .ok c ∧
        Packet.new (List.zipWith (· ^^^ ·) b e) true false = .error (.checksumMismatch c c') := by
  intro b e
  have hb : Packet.new b false true = .ok ⟨b, true⟩ :=
    (new_ok_iff rfl).mpr ⟨by decide, by decide, by decide, by decide, by decide⟩
  have hne : ∃ x ∈ e, x ≠ 0 := ⟨52, by decide, by decide⟩
  have hhead : e.getD 0 0 = 0 ∧ e.getD 1 0 &&& 0x83 = 0 ∧ e.getD 2 0 &&& 0x0F = 0 := by decide
  have hws : (Packet.mk b true).wireSize = .ok 9 := rfl
  have htail : ∀ n, (Packet.mk b true).wireSize = .ok n → ∀ i, n - 2 ≤ i → e.getD i 0 = 0 := by
    intro n hn i hi
    rw [hws] at hn
    cases hn
    obtain ⟨j, rfl⟩ : ∃ j, i = j + 2 := ⟨i - 2, by omega⟩
    show (List.replicate 7 (0 : UInt8)).getD j 0 = 0
    rw [List.getD_eq_getElem?_getD, List.getElem?_replicate]
    split <;> rfl
  have hw : Checksum.weight e = 3 := by decide
  exact ⟨hb, rfl, hne, hhead, htail, hw, by decide,
    checksum_detects_small_errors (e := e) hb rfl hne hhead htail (.inl (Nat.le_of_eq hw)) true false⟩

end PacketLink.Packet
