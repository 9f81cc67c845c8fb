import PacketLink.Proofs.BlockCount
import PacketLink.Proofs.Deframing
/-! # Frames round trip

The standard codec's encoding of any byte string is nonempty, holds no `0x00` and decodes back,
so the codec is lawful and every framing result for lawful codecs holds of it: the frame ends at
its only zero, and decoding it gives the bytes back whatever follows. The encoding adds one code
byte per started block of 254 bytes, one at least, and a run of nonzero bytes needs exactly that
many; a buffer of that size therefore holds every frame, and a buffer as long as the data holds
its decoding.
The size that `maxEncodedLen` computes is exactly that up to `254 * 2 ^ 46` bytes. It takes the
ceiling of the binary64 quotient `n / 254`, which from `254 * 2 ^ 46 + 1` bytes on can round
down to the integer below and fall one byte short of the frame.
-/
namespace PacketLink.Frame

/-- The code bytes that `n` bytes need at most: one per started block of 254 bytes, at least
one. -/
def blocks (n : Nat) : Nat := max 1 ((n + 253) / 254)

/-! ## Decoding the encoding -/

/-- A block of the code byte `c` and `c - 1` bytes, then the rest of the chain. -/
theorem decodeBlocks_block {c : UInt8} {ys rest : Bytes} (hc : ys.length + 1 = c.toNat) :
    decodeBlocks (c :: (ys ++ rest)) = if rest = [] then some ys
      else (decodeBlocks rest).map fun tail => ys ++ (if c.toNat < 0xFF then [0] else []) ++ tail := by
  have hy : c.toNat - 1 = ys.length := by omega
  rw [decodeBlocks, hy, List.drop_left, List.take_left, if_neg (by simp)]

/-- The encoder's block is full only at the end of the data. -/
theorem le_253_of_not_full {blk r : Bytes} (hb : blk.length ≤ 254)
    (hfull : blk.length = 254 → r = []) (hr : r ≠ []) : blk.length ≤ 253 := by
  have := mt hfull hr
  omega

theorem full_snoc {blk r : Bytes} {b : UInt8} (hcut : ¬(blk.length + 1 = 254 ∧ r ≠ [])) :
    (blk ++ [b]).length = 254 → r = [] :=
  fun h => Classical.byContradiction fun hr => hcut ⟨by simpa using h, hr⟩

theorem decodeBlocks_encodeFrom (blk r : Bytes) (hb : blk.length ≤ 254)
    (hfull : blk.length = 254 → r = []) : decodeBlocks (encodeFrom blk r) = some (blk ++ r) := by
  -- one case per branch of the encoder: the last block, a zero byte, a full block, a data byte
  induction blk, r using encodeFrom.induct with
  | case1 blk =>
    have h := @decodeBlocks_block _ blk [] (Stream.Deframer.toNat_ofNat_succ hb).symm
    rw [List.append_nil] at h
    rw [encodeFrom, h, if_pos rfl, List.append_nil]
  | case2 blk r ih =>
    have hb' := le_253_of_not_full hb hfull (List.cons_ne_nil 0 r)
    have hc := Stream.Deframer.toNat_ofNat_succ hb
    rw [encodeFrom, if_pos rfl, List.cons_append, decodeBlocks_block hc.symm,
      if_neg (Stream.Deframer.encodeFrom_ne_nil [] r), ih (by simp) (by simp), hc,
      if_pos (by omega)]
    simp
  | case3 blk b r hb0 hfull' ih =>
    have hsplit : 0xFF :: blk ++ b :: encodeFrom [] r = 0xFF :: ((blk ++ [b]) ++ encodeFrom [] r) := by
      simp
    rw [encodeFrom, if_neg hb0, if_pos hfull', hsplit, decodeBlocks_block (by simp; omega),
      if_neg (Stream.Deframer.encodeFrom_ne_nil [] r), ih (by simp) (by simp)]
    simp
  | case4 blk b r hb0 hfull' ih =>
    rw [encodeFrom, if_neg hb0, if_neg hfull']
    have hlen := le_253_of_not_full hb hfull (List.cons_ne_nil b r)
    rw [ih (by simp; omega) (full_snoc hfull')]
    simp

theorem decodeBlocks_cobs (data : Bytes) : decodeBlocks (cobs data) = some data :=
  decodeBlocks_encodeFrom [] data (by simp) (by simp)

/-- The standard codec has what framing needs of a codec. -/
theorem standard_lawful : standard.Lawful :=
  ⟨Stream.Deframer.encodeFrom_ne_nil [], Stream.Deframer.zero_not_mem_cobs, decodeBlocks_cobs⟩

/-! ## The overhead -/

theorem length_encodeFrom_le (blk r : Bytes) (hb : blk.length ≤ 254)
    (hfull : blk.length = 254 → r = []) :
    (encodeFrom blk r).length ≤ blk.length + r.length + blocks (blk.length + r.length) := by
  induction blk, r using encodeFrom.induct with
  | case1 blk => simp only [encodeFrom, List.length_cons, blocks]; omega
  | case2 blk r ih =>
    have h := ih (by simp) (by simp)
    rw [encodeFrom, if_pos rfl]
    simp only [List.length_append, List.length_cons, List.length_nil, blocks] at h ⊢
    omega
  | case3 blk b r hb0 hfull' ih =>
    have h := ih (by simp) (by simp)
    have hr : r.length ≠ 0 := by simpa using hfull'.2
    rw [encodeFrom, if_neg hb0, if_pos hfull']
    simp only [List.length_append, List.length_cons, List.length_nil, blocks] at h ⊢
    omega
  | case4 blk b r hb0 hfull' ih =>
    have hlen := le_253_of_not_full hb hfull (List.cons_ne_nil b r)
    have h := ih (by simp; omega) (full_snoc hfull')
    rw [encodeFrom, if_neg hb0, if_neg hfull']
    simp only [List.length_append, List.length_cons, List.length_nil, blocks] at h ⊢
    omega

/-- A run of nonzero bytes needs the whole overhead: the encoding of `k` more bytes `0x01` after
a block of `blk` adds exactly one code byte per started block. -/
theorem length_encodeFrom_replicate (k : Nat) (blk : Bytes) (hb : blk.length ≤ 254)
    (hfull : blk.length = 254 → k = 0) :
    (encodeFrom blk (List.replicate k 1)).length = blk.length + k + blocks (blk.length + k) := by
  induction k generalizing blk with
  | zero => simp only [List.replicate_zero, encodeFrom, List.length_cons, blocks]; omega
  | succ k ih =>
    rw [List.replicate_succ, encodeFrom, if_neg (by decide)]
    by_cases hcut : blk.length + 1 = 254 ∧ List.replicate k (1 : UInt8) ≠ []
    · have hk : k ≠ 0 := by simpa using hcut.2
      rw [if_pos hcut]
      have h := ih [] (by simp) (by simp)
      simp only [List.length_append, List.length_cons, List.length_nil, blocks] at h ⊢
      omega
    · rw [if_neg hcut]
      have hlen : blk.length ≤ 253 := by
        have := mt hfull (Nat.succ_ne_zero k); omega
      have h := ih (blk ++ [1]) (by simp; omega) (fun h => Classical.byContradiction fun hk =>
        hcut ⟨by simpa using h, by simpa using hk⟩)
      simp only [List.length_append, List.length_singleton, blocks] at h ⊢
      omega

theorem length_encode_le (data : Bytes) :
    (encode data).length ≤ data.length + blocks data.length + 1 := by
  have h := length_encodeFrom_le [] data (by simp) (by simp)
  simp only [encode, standard_encode, cobs, List.length_append, List.length_singleton,
    List.length_nil, Nat.zero_add] at h ⊢
  omega

theorem length_encode_replicate (n : Nat) :
    (encode (List.replicate n 1)).length = n + blocks n + 1 := by
  have h := length_encodeFrom_replicate n [] (by simp) (by simp)
  simp only [List.length_nil, Nat.zero_add] at h
  rw [encode, standard_encode, cobs, List.length_append, h, List.length_singleton]

/-! ## The round trip -/

/-- COBS framing round trips, and `maxEncodedLen` sizes its buffer up to `254 * 2 ^ 46` bytes. -/
theorem encode_round_trip (data r out : Bytes) :
    encode data = cobs data ++ [0] ∧ 0 ∉ cobs data ∧ encodeIter data = encode data ∧
    decode (encode data ++ r) = .ok data ∧
    (data.length ≤ 17873661021126656 → ∃ m : Nat, maxEncodedLen data.length = .ok m ∧
      (encode data).length ≤ m ∧ (encode (List.replicate data.length 1)).length = m ∧
      (m ≤ out.length →
        encodeInto data out = .ok ((encode data).length, encode data ++ out.drop (encode data).length))) ∧
    (data.length ≤ out.length →
      decodeInto (encode data) out = .ok (data.length, data ++ out.drop data.length)) :=
  ⟨rfl, Stream.Deframer.zero_not_mem_cobs data, encodeIter_eq standard data,
    decode_encode standard_lawful data r,
    fun h => ⟨data.length + blocks data.length + 1, maxEncodedLen_of_le h, length_encode_le data,
      length_encode_replicate data.length,
      fun hm => encodeInto_of_le (Nat.le_trans (length_encode_le data) hm)⟩,
    decodeInto_encode standard_lawful⟩

theorem encode_round_trip_zeros :
    let data : Bytes := [0, 0, 7]
    let out : Bytes := [238, 238, 238, 238, 238]
    (data.length ≤ 17873661021126656 ∧ maxEncodedLen data.length = .ok 5 ∧ 5 ≤ out.length ∧
      data.length ≤ out.length) ∧
    encode data = cobs data ++ [0] ∧ 0 ∉ cobs data ∧ encodeIter data = encode data ∧
    decode (encode data ++ [9]) = .ok data ∧
    (encode data).length ≤ 5 ∧ (encode (List.replicate data.length 1)).length = 5 ∧
    encodeInto data out = .ok ((encode data).length, encode data ++ out.drop (encode data).length) ∧
    decodeInto (encode data) out = .ok (data.length, data ++ out.drop data.length) := by
  intro data out
  have hn : data.length ≤ 17873661021126656 := by decide
  have hout : data.length ≤ out.length := by decide
  obtain ⟨h1, h2, h3, h4, hsize, h8⟩ := encode_round_trip data [9] out
  obtain ⟨m, hm, h5, h6, h7⟩ := hsize hn
  -- three bytes take one block: the size is five
  have hm5 : m = 5 := by
    have h := hm.symm.trans (maxEncodedLen_of_le hn)
    injection h with h
    rw [Int.ofNat_inj.1 h]
    decide
  subst hm5
  exact ⟨⟨hn, hm, by decide, hout⟩, h1, h2, h3, h4, h5, h6, h7 (by decide), h8 hout⟩

/-- The buffer size computed for `254 * 2 ^ 46 + 1` bytes is one byte short of their frame when
they are all nonzero: `n / 254` rounds down to `2 ^ 46` in binary64, whose ceiling counts one
block too few, and encoding into a buffer of that size is refused. -/
theorem maxEncodedLen_falls_short :
    maxEncodedLen 17873661021126657 = .ok 17944029765304322 ∧
    (encode (List.replicate 17873661021126657 1)).length = 17944029765304323 ∧
    encodeInto (List.replicate 17873661021126657 1) (List.replicate 17944029765304322 238) =
      .error (.outputShort 17944029765304322 17944029765304323) := by
  have hlen : (encode (List.replicate 17873661021126657 1)).length = 17944029765304323 := by
    rw [length_encode_replicate]; decide
  have hout : (List.replicate 17944029765304322 (238 : UInt8)).length = 17944029765304322 :=
    List.length_replicate
  refine ⟨by rfl, hlen, ?_⟩
  rw [encodeInto_of_lt (by rw [hout, hlen]; decide), hout, hlen]

end PacketLink.Frame
