import PacketLink.Proofs.Utf8Codec
import PacketLink.MessageId
/-! # The text of an identifier

An identifier built from a text has that text as its text and as its display form. An identifier
has a text exactly when its bytes are valid UTF-8, and that text builds it back; the other
identifiers are displayed as their bytes in upper-case hexadecimal without leading zeros.
-/
namespace PacketLink

/-- Upper-case hexadecimal without a leading zero is the base-16 numeral, upper-cased. -/
theorem Bytes.hexUpper_eq (b : UInt8) :
    Bytes.hexUpper b = String.ofList ((Nat.toDigits 16 b.toNat).map Char.toUpper) := by
  have hup : ∀ d < 16, (if (Bytes.hexDigit d).isLower then Char.ofNat ((Bytes.hexDigit d).toNat - 32)
      else Bytes.hexDigit d) = (Nat.digitChar d).toUpper := by decide
  have hb := b.toNat_lt
  unfold Bytes.hexUpper Bytes.hexPair
  dsimp only
  split
  · rw [Nat.toDigits_of_lt_base ‹_›, List.map_singleton, hup _ ‹_›, String.singleton_eq_ofList]
  · rw [Nat.toDigits_of_base_le (by decide) (by omega), Nat.toDigits_of_lt_base (by omega)]
    simp only [List.map_cons, List.map_nil, List.singleton_append,
      hup _ (Nat.mod_lt _ (by decide : 16 > 0)), hup (b.toNat / 16) (by omega)]

namespace MessageId

open Text

variable {m : MessageId} {s : String}

theorem asString_of_decode? (h : Utf8.decode? m.bytes = some s) : m.asString = .ok s := by
  simp only [asString, h]

theorem asString_of_decode?_none (h : Utf8.decode? m.bytes = none) :
    m.asString = .error .notUtf8 := by
  simp only [asString, h]

theorem asString_eq_ok_iff : m.asString = .ok s ↔ Utf8.decode? m.bytes = some s := by
  cases h : Utf8.decode? m.bytes with
  | none => simp [asString_of_decode?_none h]
  | some s' => simp [asString_of_decode? h]

theorem display_of_decode? (h : Utf8.decode? m.bytes = some s) : m.display = s := by
  simp only [display, h]

theorem display_of_decode?_none (h : Utf8.decode? m.bytes = none) :
    m.display = "[" ++ ", ".intercalate (m.bytes.map Bytes.hexUpper) ++ "]" := by
  simp only [display, h]

example : (⟨[0xFF, 0x01], by decide⟩ : MessageId).display = "[FF, 1]" := by decide

/-- A text whose UTF-8 encoding is a valid identifier builds the identifier of those bytes. -/
theorem ofText_ofString (h : Valid (s.toList.flatMap String.utf8EncodeChar)) :
    ofText (CodePoints.ofString s) = .ok ⟨_, h⟩ := by
  simp only [ofText, Utf8.encodePoints?_ofString, ofBytes, dif_pos h]

/-- The text view of an identifier inverts building it from text. -/
theorem text_view_inverts_utf8_encoding :
    (∀ t : String, Valid t.toUTF8.data.toList →
      ∃ m, ofText (CodePoints.ofString t) = .ok m ∧ m.asString = .ok t ∧ m.display = t) ∧
    ∀ m : MessageId,
      ((∃ s, m.asString = .ok s) ↔ m.bytes.toByteArray.IsValidUTF8) ∧
      (∀ s, m.asString = .ok s → ofText (CodePoints.ofString s) = .ok m ∧ m.display = s) ∧
      (¬m.bytes.toByteArray.IsValidUTF8 → m.asString = .error .notUtf8 ∧
        m.display = "[" ++ ", ".intercalate (m.bytes.map fun b =>
          String.ofList ((Nat.toDigits 16 b.toNat).map Char.toUpper)) ++ "]") := by
  refine ⟨fun t ht => ?_, fun m => ⟨?_, fun s hs => ?_, fun hv => ?_⟩⟩
  · rw [Utf8.toUTF8_bytes] at ht
    have hd : Utf8.decode? (t.toList.flatMap String.utf8EncodeChar) = some t :=
      Utf8.decode?_eq_some_iff.2 rfl
    exact ⟨_, ofText_ofString ht, asString_of_decode? hd, display_of_decode? hd⟩
  · simp only [asString_eq_ok_iff, Utf8.exists_decode?_iff]
  · obtain ⟨bs, hb⟩ := m
    have hd := asString_eq_ok_iff.1 hs
    obtain rfl := Utf8.decode?_eq_some_iff.1 hd
    exact ⟨ofText_ofString hb, display_of_decode? hd⟩
  · have hd : Utf8.decode? m.bytes = none :=
      Option.eq_none_iff_forall_ne_some.2 fun s h => hv ((Utf8.exists_decode?_iff _).1 ⟨s, h⟩)
    have hx : Bytes.hexUpper = fun b => String.ofList ((Nat.toDigits 16 b.toNat).map Char.toUpper) :=
      funext Bytes.hexUpper_eq
    rw [asString_of_decode?_none hd, display_of_decode?_none hd, hx]
    exact ⟨rfl, rfl⟩

theorem text_view_inverts_utf8_encoding_mixed_widths :
    Valid "a€😀".toUTF8.data.toList ∧
      ∃ m, ofText (CodePoints.ofString "a€😀") = .ok m ∧ m.asString = .ok "a€😀" ∧
        m.display = "a€😀" :=
  have h : Valid "a€😀".toUTF8.data.toList := by decide
  ⟨h, text_view_inverts_utf8_encoding.1 _ h⟩

end MessageId

end PacketLink
