import PacketLink.Text.Utf8
/-! # Strict UTF-8 against the standard encoding

The encoder writes every scalar value as the library's `String.utf8EncodeChar` does, and the
decoder accepts exactly the concatenations of such encodings. Hence it agrees with
`String.fromUTF8?` on every byte string: it refuses precisely the bytes that are no valid UTF-8,
among them overlong forms, surrogates, values above `U+10FFFF`, truncated sequences and stray
continuation bytes.
-/
namespace PacketLink.Text.Utf8

variable {n : Nat}

/-! ## Scalar values and characters -/

theorem isScalar_toNat (c : Char) : IsScalar c.toNat := c.valid

theorem toNat_ofNat (h : IsScalar n) : (Char.ofNat n).toNat = n := by
  have h' : n.isValidChar := h
  calc (Char.ofNat n).toNat = (Char.ofNatAux n h').toNat := by rw [Char.ofNat, dif_pos h']
    _ = n := rfl

/-- The encoding of a character's value is the standard UTF-8 encoding of the character. -/
theorem encodeScalar_toNat (c : Char) : encodeScalar c.toNat = String.utf8EncodeChar c := by
  have hc := isScalar_toNat c
  unfold IsScalar at hc
  simp only [encodeScalar, String.utf8EncodeChar, Char.toNat_val]
  -- the library masks the lead byte's payload, which the bounds on the value make idle
  split
  · rw [if_pos (by omega)]
  split
  · rw [if_neg (by omega), if_pos (by omega)]
    simp only [List.cons.injEq, and_true]
    constructor <;> congr 1 <;> omega
  split
  · rw [if_neg (by omega), if_neg (by omega), if_pos (by omega)]
    simp only [List.cons.injEq, and_true]
    refine ⟨?_, ?_, ?_⟩ <;> congr 1 <;> omega
  · rw [if_neg (by omega), if_neg (by omega), if_neg (by omega)]
    simp only [List.cons.injEq, and_true]
    refine ⟨?_, ?_, ?_, ?_⟩ <;> congr 1 <;> omega

theorem flatMap_encodeScalar_toNat (l : List Char) :
    (l.map Char.toNat).flatMap encodeScalar = l.flatMap String.utf8EncodeChar := by
  induction l with
  | nil => rfl
  | cons c l ih => rw [List.map_cons, List.flatMap_cons, List.flatMap_cons, ih, encodeScalar_toNat]

theorem toUTF8_bytes (s : String) : s.toUTF8.data.toList = s.toList.flatMap String.utf8EncodeChar := by
  rw [String.toUTF8_eq_toByteArray, ← String.utf8Encode_toList, List.utf8Encode,
    List.toList_data_toByteArray]

theorem eq_of_toByteArray_eq {bs bs' : Bytes} (h : bs.toByteArray = bs'.toByteArray) : bs = bs' := by
  rw [← List.toList_data_toByteArray (l := bs), h, List.toList_data_toByteArray]

/-- The code points of a string are all scalar values, encoded as the library encodes the
string. -/
theorem encodePoints?_ofString (s : String) :
    encodePoints? (CodePoints.ofString s) = some (s.toList.flatMap String.utf8EncodeChar) := by
  have hm : ∀ l : List Char, (l.map Char.toNat).mapM
      (fun p => if IsScalar p then some (encodeScalar p) else none) = some (l.map String.utf8EncodeChar) := by
    intro l
    induction l with
    | nil => rfl
    | cons c l ih => simp [List.mapM_cons, isScalar_toNat c, ih, encodeScalar_toNat]
  rw [encodePoints?, CodePoints.ofString, hm, Option.map_some, List.flatMap_def]

/-! ## Reading one sequence -/

theorem within_iff {lo hi : Nat} {c : UInt8} :
    within (lo, hi) c = true ↔ lo ≤ c.toNat ∧ c.toNat ≤ hi := by
  simp [within]

/-- The second byte's bounds, as the exceptions they make to a continuation byte. -/
theorem within_secondRange_iff {b : Nat} {c : UInt8} :
    within (secondRange b) c = true ↔ 0x80 ≤ c.toNat ∧ c.toNat ≤ 0xBF ∧
      (b = 0xE0 → 0xA0 ≤ c.toNat) ∧ (b = 0xED → c.toNat ≤ 0x9F) ∧
      (b = 0xF0 → 0x90 ≤ c.toNat) ∧ (b = 0xF4 → c.toNat ≤ 0x8F) := by
  unfold secondRange
  repeat' split
  all_goals rw [within_iff]; omega

theorem ofNat_eq_iff {x : Nat} {b : UInt8} : UInt8.ofNat x = b ↔ x % 256 = b.toNat := by
  simp only [← UInt8.toNat_inj, UInt8.toNat_ofNat', Nat.reducePow]

theorem decodeScalars?_ascii {b : UInt8} (hb : b.toNat < 0x80) (r : Bytes) :
    decodeScalars? (b :: r) = (decodeScalars? r).map (b.toNat :: ·) := by
  rw [decodeScalars?.eq_def]
  simp only [if_pos hb]

theorem decodeScalars?_two {b c : UInt8} (hb : 0xC2 ≤ b.toNat) (hb' : b.toNat < 0xE0)
    (hc : within (0x80, 0xBF) c = true) (r : Bytes) :
    decodeScalars? (b :: c :: r) = (decodeScalars? r).map (((b.toNat - 0xC0) * 64 + low c) :: ·) := by
  rw [decodeScalars?.eq_2, if_neg (by omega), if_neg (by omega), if_pos hb', if_pos hc]

theorem decodeScalars?_three {b c₁ c₂ : UInt8} (hb : 0xE0 ≤ b.toNat) (hb' : b.toNat < 0xF0)
    (hc : (within (secondRange b.toNat) c₁ && within (0x80, 0xBF) c₂) = true) (r : Bytes) :
    decodeScalars? (b :: c₁ :: c₂ :: r) =
      (decodeScalars? r).map (((b.toNat - 0xE0) * 4096 + low c₁ * 64 + low c₂) :: ·) := by
  rw [decodeScalars?.eq_2, if_neg (by omega), if_neg (by omega), if_neg (by omega), if_pos hb']
  simp only [hc, if_true]

theorem decodeScalars?_four {b c₁ c₂ c₃ : UInt8} (hb : 0xF0 ≤ b.toNat) (hb' : b.toNat < 0xF5)
    (hc : (within (secondRange b.toNat) c₁ && within (0x80, 0xBF) c₂ &&
      within (0x80, 0xBF) c₃) = true) (r : Bytes) :
    decodeScalars? (b :: c₁ :: c₂ :: c₃ :: r) =
      (decodeScalars? r).map
        (((b.toNat - 0xF0) * 262144 + low c₁ * 4096 + low c₂ * 64 + low c₃) :: ·) := by
  rw [decodeScalars?.eq_2, if_neg (by omega), if_neg (by omega), if_neg (by omega), if_neg (by omega),
    if_pos hb']
  simp only [hc, if_true]

theorem map_cons_of_eq {o : Option (List Nat)} {v : Nat} (h : v = n) :
    o.map (v :: ·) = o.map (n :: ·) := by
  rw [h]

/-- The decoder reads a scalar value's encoding back as the value. -/
theorem decodeScalars?_encodeScalar_append (h : IsScalar n) (r : Bytes) :
    decodeScalars? (encodeScalar n ++ r) = (decodeScalars? r).map (n :: ·) := by
  unfold IsScalar at h
  unfold encodeScalar
  -- each byte's value is known, and the decoder's guards are linear facts about them
  split
  · have hb := UInt8.toNat_ofNat_of_lt' (n := n) (show _ < 256 by omega)
    rw [List.singleton_append, decodeScalars?_ascii (by omega), hb]
  split
  · have hb := UInt8.toNat_ofNat_of_lt' (n := 0xC0 + n / 64) (show _ < 256 by omega)
    have hc := UInt8.toNat_ofNat_of_lt' (n := 0x80 + n % 64) (show _ < 256 by omega)
    rw [List.cons_append, List.singleton_append,
      decodeScalars?_two (by omega) (by omega) (within_iff.2 (by omega))]
    exact map_cons_of_eq (by unfold low; omega)
  split
  · have hb := UInt8.toNat_ofNat_of_lt' (n := 0xE0 + n / 4096) (show _ < 256 by omega)
    have hc₁ := UInt8.toNat_ofNat_of_lt' (n := 0x80 + n / 64 % 64) (show _ < 256 by omega)
    have hc₂ := UInt8.toNat_ofNat_of_lt' (n := 0x80 + n % 64) (show _ < 256 by omega)
    have hc : (within (secondRange (UInt8.ofNat (0xE0 + n / 4096)).toNat)
        (UInt8.ofNat (0x80 + n / 64 % 64)) && within (0x80, 0xBF) (UInt8.ofNat (0x80 + n % 64))) = true := by
      rw [Bool.and_eq_true, within_secondRange_iff, within_iff, hb]
      omega
    rw [List.cons_append, List.cons_append, List.singleton_append,
      decodeScalars?_three (by omega) (by omega) hc]
    exact map_cons_of_eq (by unfold low; omega)
  · have hb := UInt8.toNat_ofNat_of_lt' (n := 0xF0 + n / 262144) (show _ < 256 by omega)
    have hc₁ := UInt8.toNat_ofNat_of_lt' (n := 0x80 + n / 4096 % 64) (show _ < 256 by omega)
    have hc₂ := UInt8.toNat_ofNat_of_lt' (n := 0x80 + n / 64 % 64) (show _ < 256 by omega)
    have hc₃ := UInt8.toNat_ofNat_of_lt' (n := 0x80 + n % 64) (show _ < 256 by omega)
    have hc : (within (secondRange (UInt8.ofNat (0xF0 + n / 262144)).toNat)
        (UInt8.ofNat (0x80 + n / 4096 % 64)) &&
        within (0x80, 0xBF) (UInt8.ofNat (0x80 + n / 64 % 64)) &&
        within (0x80, 0xBF) (UInt8.ofNat (0x80 + n % 64))) = true := by
      rw [Bool.and_eq_true, Bool.and_eq_true, within_secondRange_iff, within_iff, within_iff, hb]
      omega
    rw [List.cons_append, List.cons_append, List.cons_append, List.singleton_append,
      decodeScalars?_four (by omega) (by omega) hc]
    exact map_cons_of_eq (by unfold low; omega)

/-! Each sequence the decoder accepts is the encoding of the value it reads. -/

theorem encodeScalar_one {b : UInt8} (hb : b.toNat < 0x80) :
    IsScalar b.toNat ∧ encodeScalar b.toNat = [b] := by
  refine ⟨.inl (by omega), ?_⟩
  rw [encodeScalar, if_pos hb, List.cons.injEq, ofNat_eq_iff]
  exact ⟨by omega, rfl⟩

theorem encodeScalar_two {b c : UInt8} (hb : 0xC2 ≤ b.toNat) (hb' : b.toNat < 0xE0)
    (hc : within (0x80, 0xBF) c = true) :
    IsScalar ((b.toNat - 0xC0) * 64 + low c) ∧
      encodeScalar ((b.toNat - 0xC0) * 64 + low c) = [b, c] := by
  rw [within_iff] at hc
  unfold low
  refine ⟨.inl (by omega), ?_⟩
  rw [encodeScalar, if_neg (by omega), if_pos (by omega)]
  simp only [List.cons.injEq, ofNat_eq_iff, and_true]
  omega

theorem encodeScalar_three {b c₁ c₂ : UInt8} (hb : 0xE0 ≤ b.toNat) (hb' : b.toNat < 0xF0)
    (hc : (within (secondRange b.toNat) c₁ && within (0x80, 0xBF) c₂) = true) :
    IsScalar ((b.toNat - 0xE0) * 4096 + low c₁ * 64 + low c₂) ∧
      encodeScalar ((b.toNat - 0xE0) * 4096 + low c₁ * 64 + low c₂) = [b, c₁, c₂] := by
  rw [Bool.and_eq_true, within_secondRange_iff, within_iff] at hc
  unfold IsScalar low
  refine ⟨by omega, ?_⟩
  rw [encodeScalar, if_neg (by omega), if_neg (by omega), if_pos (by omega)]
  simp only [List.cons.injEq, ofNat_eq_iff, and_true]
  omega

theorem encodeScalar_four {b c₁ c₂ c₃ : UInt8} (hb : 0xF0 ≤ b.toNat) (hb' : b.toNat < 0xF5)
    (hc : (within (secondRange b.toNat) c₁ && within (0x80, 0xBF) c₂ &&
      within (0x80, 0xBF) c₃) = true) :
    IsScalar ((b.toNat - 0xF0) * 262144 + low c₁ * 4096 + low c₂ * 64 + low c₃) ∧
      encodeScalar ((b.toNat - 0xF0) * 262144 + low c₁ * 4096 + low c₂ * 64 + low c₃) =
        [b, c₁, c₂, c₃] := by
  rw [Bool.and_eq_true, Bool.and_eq_true, within_secondRange_iff, within_iff, within_iff] at hc
  unfold IsScalar low
  refine ⟨by omega, ?_⟩
  rw [encodeScalar, if_neg (by omega), if_neg (by omega), if_neg (by omega)]
  simp only [List.cons.injEq, ofNat_eq_iff, and_true]
  omega

/-! ## Reading a whole byte string -/

theorem cons_of_map {o : Option (List Nat)} {v : Nat} {pre r : Bytes} {ns : List Nat}
    (h : o.map (v :: ·) = some ns)
    (ih : ∀ {ns'}, o = some ns' → (∀ m ∈ ns', IsScalar m) ∧ r = ns'.flatMap encodeScalar)
    (hv : IsScalar v ∧ encodeScalar v = pre) :
    (∀ m ∈ ns, IsScalar m) ∧ pre ++ r = ns.flatMap encodeScalar := by
  obtain ⟨ns', ho, rfl⟩ := Option.map_eq_some_iff.1 h
  obtain ⟨hs, rfl⟩ := ih ho
  refine ⟨?_, ?_⟩
  · simpa [hv.1] using hs
  · rw [List.flatMap_cons, hv.2]

theorem scalars_of_decodeScalars? {bs : Bytes} {ns : List Nat} (h : decodeScalars? bs = some ns) :
    (∀ m ∈ ns, IsScalar m) ∧ bs = ns.flatMap encodeScalar := by
  -- one case per sequence length the decoder accepts; every other branch refuses
  fun_induction decodeScalars? bs generalizing ns
  case case1 =>
    cases h
    exact ⟨by simp, rfl⟩
  case case2 b r hb ih => exact cons_of_map h ih (encodeScalar_one hb)
  case case4 b h₁ h₂ h₃ c r hc ih => exact cons_of_map h ih (encodeScalar_two (by omega) h₃ hc)
  case case7 b h₁ h₂ h₃ h₄ c₁ c₂ r hc ih =>
    exact cons_of_map h ih (encodeScalar_three (by omega) h₄ hc)
  case case10 b h₁ h₂ h₃ h₄ h₅ c₁ c₂ c₃ r hc ih =>
    exact cons_of_map h ih (encodeScalar_four (by omega) h₅ hc)
  all_goals cases h

theorem decodeScalars?_flatMap {ns : List Nat} (h : ∀ m ∈ ns, IsScalar m) :
    decodeScalars? (ns.flatMap encodeScalar) = some ns := by
  induction ns with
  | nil => rfl
  | cons n ns ih =>
    rw [List.flatMap_cons, decodeScalars?_encodeScalar_append (h n List.mem_cons_self),
      ih fun m hm => h m (List.mem_cons_of_mem n hm), Option.map_some]

/-- The decoder accepts exactly the concatenated encodings of scalar values. -/
theorem decodeScalars?_eq_some_iff {bs : Bytes} {ns : List Nat} :
    decodeScalars? bs = some ns ↔ (∀ m ∈ ns, IsScalar m) ∧ bs = ns.flatMap encodeScalar :=
  ⟨scalars_of_decodeScalars?, fun ⟨h, hbs⟩ => hbs ▸ decodeScalars?_flatMap h⟩

/-- The text read from bytes is the one whose standard encoding they are. -/
theorem decode?_eq_some_iff {bs : Bytes} {s : String} :
    decode? bs = some s ↔ bs = s.toList.flatMap String.utf8EncodeChar := by
  constructor
  · intro h
    obtain ⟨ns, hns, rfl⟩ := Option.map_eq_some_iff.1 h
    obtain ⟨hs, rfl⟩ := decodeScalars?_eq_some_iff.1 hns
    have hc : (ns.map Char.ofNat).map Char.toNat = ns := by
      rw [List.map_map]
      exact (List.map_congr_left fun m hm => toNat_ofNat (hs m hm)).trans (List.map_id ns)
    rw [String.toList_ofList, ← flatMap_encodeScalar_toNat, hc]
  · intro h
    have hs : ∀ m ∈ s.toList.map Char.toNat, IsScalar m := by
      simp only [List.mem_map]
      rintro _ ⟨c, -, rfl⟩
      exact isScalar_toNat c
    have hc : Char.ofNat ∘ Char.toNat = id := funext Char.ofNat_toNat
    rw [decode?, h, ← flatMap_encodeScalar_toNat, decodeScalars?_flatMap hs, Option.map_some,
      List.map_map, hc, List.map_id, String.ofList_toList]

/-- The decoder is the library's strict UTF-8 decoder. -/
theorem decode?_eq_fromUTF8? (bs : Bytes) : decode? bs = String.fromUTF8? bs.toByteArray := by
  cases h : decode? bs with
  | some s =>
    have hv : bs.toByteArray = s.toByteArray := by
      rw [decode?_eq_some_iff.1 h, ← String.utf8Encode_toList, List.utf8Encode]
    rw [String.fromUTF8?, dif_pos (hv ▸ s.isValidUTF8)]
    exact congrArg some (String.toByteArray_inj.1 hv.symm)
  | none =>
    -- valid bytes are the encoding of some characters, which the decoder reads
    have hv : ¬bs.toByteArray.IsValidUTF8 := by
      rintro ⟨m, hm⟩
      have hbs : bs = (String.ofList m).toList.flatMap String.utf8EncodeChar := by
        rw [String.toList_ofList]
        exact eq_of_toByteArray_eq hm
      rw [decode?_eq_some_iff.2 hbs] at h
      cases h
    rw [String.fromUTF8?, dif_neg hv]

theorem exists_decode?_iff (bs : Bytes) :
    (∃ s, decode? bs = some s) ↔ bs.toByteArray.IsValidUTF8 := by
  rw [decode?_eq_fromUTF8?, String.fromUTF8?]
  by_cases hv : bs.toByteArray.IsValidUTF8 <;> simp [hv]

end PacketLink.Text.Utf8
