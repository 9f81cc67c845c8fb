import PacketLink.Frame.Buffer
/-! # Framing with any lawful codec

Framing asks three things of its codec: an encoding is never empty, holds no `0x00` and decodes
back. From these alone a frame ends at its delimiter, decoding it gives back the data whatever
follows, and a buffer that holds the frame, or the data, takes it at its start and keeps the rest.
Decoding any byte string fails for a missing delimiter, an empty frame, or as the codec fails on
the bytes before the first `0x00`, which hold no zero.
-/
namespace PacketLink.Frame

/-! ## The bytes before the delimiter -/

theorem length_body (data : Bytes) : (body data).length = data.idxOf 0 := by
  induction data with
  | nil => rfl
  | cons b r ih =>
    by_cases hb : b = 0
    · subst hb; simp [body]
    · rw [body, List.takeWhile_cons_of_pos (by simpa using hb), List.length_cons, List.idxOf_cons,
        ← body, ih, beq_eq_false_iff_ne.mpr hb]
      rfl

theorem body_append_zero {f : Bytes} (hz : 0 ∉ f) (r : Bytes) : body (f ++ 0 :: r) = f := by
  rw [body, List.takeWhile_append_of_pos (by
    intro a ha; simp only [ne_eq, decide_eq_true_eq]; rintro rfl; exact hz ha)]
  simp

theorem body_eq_nil {data : Bytes} : body data = [] ↔ data = [] ∨ data.head? = some 0 := by
  cases data with
  | nil => simp [body]
  | cons b r => by_cases hb : b = 0 <;> simp [body, hb]

theorem body_ne_nil {data : Bytes} (hm : 0 ∈ data) (hh : data.head? ≠ some 0) : body data ≠ [] := by
  intro h
  rcases body_eq_nil.mp h with rfl | h0
  · simp at hm
  · exact hh h0

theorem zero_not_mem_body (data : Bytes) : 0 ∉ body data := by
  intro h
  simpa using List.all_eq_true.mp List.all_takeWhile 0 h

theorem length_body_eq_iff {data : Bytes} : (body data).length = data.length ↔ 0 ∉ data := by
  rw [length_body]
  constructor
  · intro h hm
    exact absurd h (Nat.ne_of_lt (List.idxOf_lt_length_of_mem hm))
  · exact List.idxOf_eq_length

/-! ## The outcomes of decoding -/

section Outcomes

variable {c : Codec}

theorem decode_of_not_mem {data : Bytes} (h : 0 ∉ data) :
    decode data c = .error (.delimiterMissing data.length) := by
  rw [decode, if_pos (length_body_eq_iff.mpr h)]

theorem decode_of_head {data : Bytes} (h : data.head? = some 0) : decode data c = .error .frameEmpty := by
  have hm : 0 ∈ data := List.mem_of_head? h
  rw [decode, if_neg (mt length_body_eq_iff.mp fun h' => h' hm),
    if_pos (body_eq_nil.mpr (Or.inr h))]

theorem decode_of_delimited {data : Bytes} (hm : 0 ∈ data) (hh : data.head? ≠ some 0) :
    decode data c = match c.decode (body data) with
      | some d => .ok d
      | none => .error (.blockTruncated (data.idxOf 0)) := by
  have hlen : (body data).length ≠ data.length := mt length_body_eq_iff.mp fun h' => h' hm
  rw [decode, if_neg hlen, if_neg (body_ne_nil hm hh)]
  cases c.decode (body data) <;> simp only [length_body]

theorem decode_error {data : Bytes} {f : Fault} (h : decode data c = .error f) :
    f = .delimiterMissing data.length ∨ f = .frameEmpty ∨ f = .blockTruncated (data.idxOf 0) := by
  by_cases hm : 0 ∈ data
  · by_cases hh : data.head? = some 0
    · rw [decode_of_head hh] at h; cases h; exact .inr (.inl rfl)
    · rw [decode_of_delimited hm hh] at h
      split at h
      · cases h
      · cases h; exact .inr (.inr rfl)
  · rw [decode_of_not_mem hm] at h; cases h; exact .inl rfl

/-- A nonempty zero-free string before a delimiter decodes as the codec decodes it. -/
theorem decode_append_zero {f : Bytes} (hz : 0 ∉ f) (hf : f ≠ []) (r : Bytes) :
    decode (f ++ 0 :: r) c = match c.decode f with
      | some d => .ok d
      | none => .error (.blockTruncated f.length) := by
  have hb := body_append_zero hz r
  have hh : (f ++ 0 :: r).head? ≠ some 0 := by
    obtain ⟨b, t, rfl⟩ := List.exists_cons_of_ne_nil hf
    have hb : b ≠ 0 := fun h => hz (h ▸ List.mem_cons_self)
    simpa using hb
  rw [decode_of_delimited (by simp) hh, ← length_body, hb]

theorem codec_decode_of_decode {f x : Bytes} (hz : 0 ∉ f) (h : decode (f ++ [0]) c = .ok x) :
    f ≠ [] ∧ c.decode f = some x := by
  have hf : f ≠ [] := by
    rintro rfl
    rw [decode_of_head rfl] at h
    cases h
  rw [decode_append_zero hz hf] at h
  refine ⟨hf, ?_⟩
  split at h
  · cases h; assumption
  · cases h

end Outcomes

/-! ## Frames of a lawful codec -/

theorem encodeIter_eq (c : Codec) (data : Bytes) : encodeIter data c = encode data c := by
  rw [encodeIter, encode, List.foldr_cons_eq_append, List.map_id']

section Lawful

variable {c : Codec}

/-- Decoding a frame gives back the bytes it encodes, whatever follows its delimiter. -/
theorem decode_encode (hc : c.Lawful) (data r : Bytes) : decode (encode data c ++ r) c = .ok data := by
  rw [encode, List.append_assoc, List.singleton_append,
    decode_append_zero (hc.zero_not_mem data) (hc.encode_ne_nil data), hc.decode_encode]

theorem encodeInto_of_le {data out : Bytes} (h : (encode data c).length ≤ out.length) :
    encodeInto data out c =
      .ok ((encode data c).length, encode data c ++ out.drop (encode data c).length) := by
  simp [encodeInto, Nat.not_lt.2 h]

theorem encodeInto_of_lt {data out : Bytes} (h : out.length < (encode data c).length) :
    encodeInto data out c = .error (.outputShort out.length (encode data c).length) := by
  simp [encodeInto, h]

theorem decodeInto_encode (hc : c.Lawful) {data out : Bytes} (h : data.length ≤ out.length) :
    decodeInto (encode data c) out c = .ok (data.length, data ++ out.drop data.length) := by
  have hd := decode_encode hc data []
  rw [List.append_nil] at hd
  rw [decodeInto, hd]
  show (if out.length < data.length then _ else _) = _
  rw [if_neg (Nat.not_lt.2 h)]
  rfl

end Lawful

end PacketLink.Frame
