import PacketLink.Proofs.FrameCodec
/-! # Decoding never grows a frame

A chain of blocks stands for fewer bytes than it takes: a block of code `c` stands for its
`c - 1` bytes and at most one zero, which the code byte pays for, and the last block stands for
no zero. The bytes before a frame's first `0x00` hold no zero, so decoding them can fail only by
a code byte that reaches past the delimiter. Decoding therefore fails for three framing reasons
only, and otherwise yields fewer bytes than precede the delimiter. Decoding in place always has
room: it fails as decoding fails, before anything is written, or writes the decoded bytes over
the start of the buffer and keeps the rest.
-/
namespace PacketLink.Frame

/-- A nonempty chain of blocks stands for fewer bytes than it has. -/
theorem length_decodeBlocks_lt {bs d : Bytes} (h : decodeBlocks bs = some d) (hne : bs ≠ []) :
    d.length < bs.length := by
  induction bs using decodeBlocks.induct generalizing d with
  | case1 => exact absurd rfl hne
  | case2 c r hshort => rw [decodeBlocks, if_pos hshort] at h; cases h
  | case3 c r hlong hlast =>
    rw [decodeBlocks, if_neg hlong, if_pos hlast] at h
    cases h
    simp only [List.length_take, List.length_cons]
    omega
  | case4 c r hlong hmore ih =>
    rw [decodeBlocks, if_neg hlong, if_neg hmore] at h
    obtain ⟨tail, htail, rfl⟩ := Option.map_eq_some_iff.mp h
    have ht := ih htail hmore
    -- the block's elided zero is the one byte it may add to its data
    have hz : (if c.toNat < 0xFF then [(0 : UInt8)] else []).length ≤ 1 := by split <;> simp
    simp only [List.length_append, List.length_take, List.length_drop, List.length_cons] at ht hz ⊢
    omega

/-! ## The outcomes of decoding -/

/-- Decoding yields fewer bytes than precede the delimiter. -/
theorem length_decode_lt {data d : Bytes} (h : decode data = .ok d) : d.length < data.idxOf 0 := by
  by_cases hm : 0 ∈ data
  · by_cases hh : data.head? = some 0
    · rw [decode_of_head hh] at h; cases h
    · rw [decode_of_delimited hm hh] at h
      split at h
      · rename_i hd
        cases h
        rw [← length_body]
        exact length_decodeBlocks_lt hd (body_ne_nil hm hh)
      · cases h
  · rw [decode_of_not_mem hm] at h; cases h

/-! ## Decoding in place -/

theorem decodeInPlace_eq (buf : Bytes) :
    decodeInPlace buf = (decode buf).map fun d => (d.length, d ++ buf.drop d.length) := by
  rw [decodeInPlace, decodeInto]
  cases hd : decode buf with
  | error f => rfl
  | ok d =>
    -- the decoded bytes are fewer than those before the delimiter, so they fit the buffer
    have hfit : d.length ≤ buf.length :=
      Nat.le_of_lt (Nat.lt_of_lt_of_le (length_decode_lt hd) List.idxOf_le_length)
    show (if buf.length < d.length then _ else _) = _
    rw [if_neg (Nat.not_lt.mpr hfit)]
    rfl

/-- Decoding fails only for the three framing reasons and never grows a frame, so decoding in
place never finds its buffer too small. -/
theorem decode_fails_only_by_framing (data buf : Bytes) :
    (decode data = .error (.delimiterMissing data.length) ↔ 0 ∉ data) ∧
    (decode data = .error .frameEmpty ↔ data.head? = some 0) ∧
    (0 ∈ data → data.head? ≠ some 0 → 0 ∉ body data ∧
      ((∃ d, decode data = .ok d ∧ d.length < data.idxOf 0) ∨
        decode data = .error (.blockTruncated (data.idxOf 0)))) ∧
    decodeInPlace buf = (decode buf).map (fun d => (d.length, d ++ buf.drop d.length)) ∧
    ∀ n m, decodeInPlace buf ≠ .error (.outputTooSmall n m) := by
  refine ⟨⟨fun h hm => ?_, decode_of_not_mem⟩, ⟨fun h => ?_, decode_of_head⟩, ?_,
    decodeInPlace_eq buf, ?_⟩
  · -- with a delimiter, decoding reports an empty frame, a result or a truncated block
    by_cases hh : data.head? = some 0
    · rw [decode_of_head hh] at h; cases h
    · rw [decode_of_delimited hm hh] at h
      split at h <;> cases h
  · by_cases hm : 0 ∈ data
    · refine Classical.byContradiction fun hh => ?_
      rw [decode_of_delimited hm hh] at h
      split at h <;> cases h
    · rw [decode_of_not_mem hm] at h; cases h
  · intro hm hh
    refine ⟨zero_not_mem_body data, ?_⟩
    rw [decode_of_delimited hm hh]
    cases hd : standard.decode (body data) with
    | none => exact .inr rfl
    | some d =>
      refine .inl ⟨d, rfl, ?_⟩
      rw [← length_body]
      exact length_decodeBlocks_lt hd (body_ne_nil hm hh)
  · intro n m h
    rw [decodeInPlace_eq] at h
    cases hd : decode buf with
    | ok d => rw [hd] at h; cases h
    | error f =>
      rw [hd] at h
      cases h
      rcases decode_error hd with h' | h' | h' <;> cases h'

/-- A frame whose first code byte asks for two bytes where only one precedes the delimiter. -/
theorem decode_fails_only_by_framing_short_block :
    let data : Bytes := [3, 7, 0, 9]
    (0 ∈ data ∧ data.head? ≠ some 0) ∧ 0 ∉ body data ∧
      ((∃ d, decode data = .ok d ∧ d.length < data.idxOf 0) ∨
        decode data = .error (.blockTruncated (data.idxOf 0))) := by
  intro data
  have hm : 0 ∈ data := by decide
  have hh : data.head? ≠ some 0 := by decide
  exact ⟨⟨hm, hh⟩, (decode_fails_only_by_framing data data).2.2.1 hm hh⟩

end PacketLink.Frame
