import PacketLink.Frame.Buffer
/-! # Counting blocks through binary64

`maxEncodedLen n` counts the blocks of `n` bytes as the ceiling of the binary64 number nearest to
`n / 254`. Below `2 ^ 46` the binary64 numbers lie at most `2 ^ -7` apart, closer than the
smallest fractional part `1 / 254` that a quotient by 254 can have, so the rounded quotient never
reaches the integer below and its ceiling is the exact number of started blocks. That holds for
every `n` up to `254 * 2 ^ 46`.
-/
namespace PacketLink.Binary

theorem scaled_neg (num den j : Nat) : scaled num den (-(j : Int)) = (num * Nat.pow 2 j, den) := by
  simp [scaled]

theorem scaled_pos {j : Nat} (hj : 0 < j) (num den : Nat) :
    scaled num den (j : Int) = (num, den * Nat.pow 2 j) := by
  rw [scaled, if_neg (by omega), Int.natAbs_natCast]

/-- Scaling by `2 ^ -floorLog2` puts the quotient into `[1, 2)`. -/
theorem floorLog2_window {num den : Nat} (hn : 0 < num) (hd : 0 < den) :
    (scaled num den (floorLog2 num den)).2 ≤ (scaled num den (floorLog2 num den)).1 ∧
      (scaled num den (floorLog2 num den)).1 < 2 * (scaled num den (floorLog2 num den)).2 := by
  have hn1 := Nat.log2_self_le (Nat.pos_iff_ne_zero.1 hn)
  have hn2 := Nat.lt_log2_self (n := num)
  have hd1 := Nat.log2_self_le (Nat.pos_iff_ne_zero.1 hd)
  have hd2 := Nat.lt_log2_self (n := den)
  rw [Nat.pow_succ] at hn2 hd2
  unfold floorLog2
  rcases Nat.lt_or_ge den.log2 num.log2 with hlt | hle
  · -- above 1: the first guess scales the denominator up by `j + 1` places, the second by `j`
    obtain ⟨j, hj⟩ := Nat.exists_eq_add_of_lt hlt
    have hk : (num.log2 : Int) - den.log2 = ((j + 1 : Nat) : Int) := by omega
    have hpow : 2 ^ num.log2 = 2 ^ den.log2 * 2 ^ j * 2 := by rw [hj, Nat.pow_succ, Nat.pow_add]
    rw [hpow] at hn1 hn2
    have hlo := Nat.mul_le_mul_right (2 ^ j) hd1
    have hhi := Nat.mul_lt_mul_of_pos_right hd2 (Nat.two_pow_pos j)
    rw [Nat.mul_right_comm] at hhi
    simp only [hk, scaled_pos (Nat.succ_pos j), Nat.pow_eq, Nat.pow_succ, ← Nat.mul_assoc]
    split
    · rw [scaled_pos (Nat.succ_pos j), Nat.pow_eq, Nat.pow_succ, ← Nat.mul_assoc]
      omega
    · next hc =>
      have he : ((j + 1 : Nat) : Int) - 1 = (j : Int) := by omega
      rw [he]
      rcases Nat.eq_zero_or_pos j with rfl | hj0
      · rw [show ((0 : Nat) : Int) = -((0 : Nat) : Int) by omega, scaled_neg, Nat.pow_eq]
        simp only [Nat.pow_zero, Nat.mul_one] at hn1 hhi hc ⊢
        omega
      · rw [scaled_pos hj0, Nat.pow_eq]
        omega
  · -- below 1: the first guess scales the numerator up by `j` places, the second by `j + 1`
    obtain ⟨j, hj⟩ := Nat.exists_eq_add_of_le hle
    have hk : (num.log2 : Int) - den.log2 = -(j : Int) := by omega
    have hpow : 2 ^ den.log2 = 2 ^ num.log2 * 2 ^ j := by rw [hj, Nat.pow_add]
    rw [hpow] at hd1 hd2
    have hlo := Nat.mul_le_mul_right (2 ^ j) hn1
    have hhi := Nat.mul_lt_mul_of_pos_right hn2 (Nat.two_pow_pos j)
    rw [Nat.mul_right_comm] at hhi
    simp only [hk, scaled_neg, Nat.pow_eq]
    split
    · rw [scaled_neg, Nat.pow_eq]
      omega
    · rw [show -(j : Int) - 1 = -((j + 1 : Nat) : Int) by omega, scaled_neg, Nat.pow_eq,
        Nat.pow_succ, ← Nat.mul_assoc]
      omega

/-- The rounded quotient lies within half a unit of the quotient. -/
theorem roundHalfEven_bounds (n : Nat) {d : Nat} (hd : 0 < d) :
    2 * n ≤ 2 * (roundHalfEven n d * d) + d ∧ 2 * (roundHalfEven n d * d) ≤ 2 * n + d := by
  have hdm := Nat.div_add_mod n d
  have hlt := Nat.mod_lt n hd
  rw [Nat.mul_comm] at hdm
  unfold roundHalfEven
  repeat' split
  all_goals simp only [Nat.succ_mul]; omega

/-! ## Quotients by 254 -/

/-- The quotient `n / 254` scaled into `[2 ^ 52, 2 ^ 53)`, the range of a binary64 significand:
below `254 * 2 ^ 46` bytes that takes at least six doublings. -/
theorem quotient_window {n : Nat} (h0 : 0 < n) (hn : n ≤ 17873661021126656) :
    ∃ s : Nat, floorLog2 n 254 = 52 - (s : Int) ∧
      254 * 4503599627370496 ≤ n * Nat.pow 2 s ∧ n * Nat.pow 2 s < 508 * 4503599627370496 := by
  have hw := floorLog2_window h0 (by decide : 0 < 254)
  by_cases hk : floorLog2 n 254 ≤ 0
  · obtain ⟨j, hj⟩ : ∃ j : Nat, floorLog2 n 254 = -(j : Int) := ⟨(floorLog2 n 254).natAbs, by omega⟩
    simp only [hj, scaled_neg, Nat.pow_eq] at hw
    refine ⟨52 + j, by omega, ?_⟩
    have hsplit : n * 2 ^ (52 + j) = n * 2 ^ j * 4503599627370496 := by
      rw [Nat.pow_add, Nat.mul_comm (2 ^ 52), ← Nat.mul_assoc]
    rw [Nat.pow_eq, hsplit]
    omega
  · obtain ⟨j, hj⟩ : ∃ j : Nat, floorLog2 n 254 = (j : Int) := ⟨(floorLog2 n 254).toNat, by omega⟩
    have hj0 : 0 < j := by omega
    simp only [hj, scaled_pos hj0, Nat.pow_eq] at hw
    have hj46 : j ≤ 46 := by
      have h46 : 2 ^ j ≤ 2 ^ 46 := by
        have : (2 : Nat) ^ 46 = 70368744177664 := rfl
        omega
      exact (Nat.pow_le_pow_iff_right (by decide)).1 h46
    refine ⟨52 - j, by omega, ?_⟩
    have hp : 2 ^ j * 2 ^ (52 - j) = 4503599627370496 := by
      rw [← Nat.pow_add, Nat.add_sub_cancel' (by omega)]
    have hlo := Nat.mul_le_mul_right (2 ^ (52 - j)) hw.1
    have hhi := Nat.mul_lt_mul_of_pos_right hw.2 (Nat.two_pow_pos (52 - j))
    rw [Nat.mul_assoc, hp] at hlo
    rw [Nat.mul_assoc, Nat.mul_assoc, hp] at hhi
    rw [Nat.pow_eq]
    omega

theorem binary64_minExp : Format.binary64.minExp = -1074 := rfl

theorem binary64_fracBits : Format.binary64.fracBits = 52 := rfl

theorem binary64_signBit : Format.binary64.signBit = 9223372036854775808 := rfl

theorem pow_two_52 : Nat.pow 2 52 = 4503599627370496 := rfl

theorem pow_two_expBits : Nat.pow 2 Format.binary64.expBits = 2048 := rfl

theorem roundRatio_quotient {n s : Nat} (h0 : 0 < n) (hk : floorLog2 n 254 = 52 - (s : Int))
    (hs : s ≤ 1074) :
    Format.binary64.roundRatio n 254 =
      (1074 - s) * 4503599627370496 + roundHalfEven (n * Nat.pow 2 s) 254 := by
  have he : max (floorLog2 n 254 - ((52 : Nat) : Int)) (-1074) = -(s : Int) := by
    rw [hk]
    omega
  simp only [Format.roundRatio, if_neg (Nat.pos_iff_ne_zero.1 h0), binary64_minExp,
    binary64_fracBits]
  rw [he, scaled_neg, pow_two_52, show (-(s : Int) - -1074).toNat = 1074 - s by omega]

/-- A pattern with the biased exponent `E` of a normal number and the fraction `F`. -/
theorem decode_normal {E F : Nat} (h1 : 1 ≤ E) (h2 : E ≤ 2046) (hF : F < 4503599627370496) :
    Format.binary64.decode (E * 4503599627370496 + F) =
      .finite false (F + 4503599627370496) ((E : Int) - 1075) := by
  have hneg : (E * 4503599627370496 + F) / 9223372036854775808 % 2 = 0 := by omega
  have hE : (E * 4503599627370496 + F) % 9223372036854775808 / 4503599627370496 = E := by omega
  have hM : (E * 4503599627370496 + F) % 4503599627370496 = F := by omega
  simp only [Format.decode, binary64_signBit, binary64_fracBits, pow_two_52, pow_two_expBits,
    binary64_minExp, hneg, hE, hM]
  rw [if_neg (by omega), if_neg (by omega)]
  congr 1
  omega

end PacketLink.Binary

namespace PacketLink.Frame

theorem ceilOfBits_of_decode {bits m : Nat} {e : Int}
    (h : Binary.Format.binary64.decode bits = .finite false m e) (he : e < 0) :
    ceilOfBits bits = (((m + Nat.pow 2 e.natAbs - 1) / Nat.pow 2 e.natAbs : Nat) : Int) := by
  rw [ceilOfBits, h]
  dsimp only
  rw [Binary.scaled, if_neg (show ¬(-e ≤ 0) by omega), Nat.one_mul, Int.natAbs_neg]
  simp only [Bool.false_eq_true, if_false]

/-- How many doublings bring `n / 254` into the significand range: at least six, seven unless
`n` is `254 * 2 ^ 46` itself, and at most sixty. -/
theorem doublings_bounds {n s : Nat} (h0 : 0 < n) (hn : n ≤ 17873661021126656)
    (hlo : 254 * 4503599627370496 ≤ n * Nat.pow 2 s) (hhi : n * Nat.pow 2 s < 508 * 4503599627370496) :
    6 ≤ s ∧ s ≤ 60 ∧ (n < 17873661021126656 → 7 ≤ s) := by
  rw [Nat.pow_eq] at hlo hhi
  refine ⟨Nat.le_of_not_lt fun hs => ?_, Nat.le_of_not_lt fun hs => ?_, fun hlt => Nat.le_of_not_lt fun hs => ?_⟩
  · have hp : 2 ^ s ≤ 2 ^ 5 := Nat.pow_le_pow_right (by decide) (by omega)
    have := Nat.mul_le_mul hn hp
    simp only [Nat.reducePow] at this
    omega
  · have hp : 2 ^ 61 ≤ 2 ^ s := Nat.pow_le_pow_right (by decide) (by omega)
    have := Nat.le_mul_of_pos_left (2 ^ s) h0
    simp only [Nat.reducePow] at hp
    omega
  · have hp : 2 ^ s ≤ 2 ^ 6 := Nat.pow_le_pow_right (by decide) (by omega)
    have := Nat.mul_le_mul (show n ≤ 17873661021126655 by omega) hp
    simp only [Nat.reducePow] at this
    omega

/-- The ceiling of a significand `m` over `2 ^ k` when `m` lies in `(Q * 2 ^ k, (Q + 1) * 2 ^ k]`. -/
theorem ceil_div_eq {m k Q : Nat} (hlo : Q * Nat.pow 2 k < m)
    (hhi : m ≤ Q * Nat.pow 2 k + Nat.pow 2 k) : (m + Nat.pow 2 k - 1) / Nat.pow 2 k = Q + 1 := by
  apply Nat.div_eq_of_lt_le <;> simp only [Nat.succ_mul] <;> omega

/-- Rounding moves the scaled quotient by at most half a unit, less than its distance to the
block boundary below: it stays in `(Q * 2 ^ s, (Q + 1) * 2 ^ s]`. -/
theorem rounded_in_block {n s Q : Nat} (hn : n ≤ 17873661021126656)
    (hs7 : n < 17873661021126656 → 7 ≤ s)
    (hQ : (n + 253) / 254 = Q + 1) :
    Q * Nat.pow 2 s < Binary.roundHalfEven (n * Nat.pow 2 s) 254 ∧
      Binary.roundHalfEven (n * Nat.pow 2 s) 254 ≤ Q * Nat.pow 2 s + Nat.pow 2 s := by
  have hround := Binary.roundHalfEven_bounds (n * Nat.pow 2 s) (by decide : 0 < 254)
  generalize Binary.roundHalfEven (n * Nat.pow 2 s) 254 = M at hround ⊢
  rw [Nat.pow_eq] at hround ⊢
  have hp := Nat.two_pow_pos s
  have hQn : 254 * Q + 1 ≤ n ∧ n ≤ 254 * Q + 254 := by omega
  have hlow := Nat.mul_le_mul_right (2 ^ s) hQn.1
  have hup := Nat.mul_le_mul_right (2 ^ s) hQn.2
  rw [Nat.add_mul, Nat.mul_assoc, Nat.one_mul] at hlow
  rw [Nat.add_mul, Nat.mul_assoc] at hup
  refine ⟨?_, by omega⟩
  by_cases hdiv : n = 254 * Q + 254
  · -- a whole number of blocks: the quotient is exact
    have : n * 2 ^ s = 254 * (Q * 2 ^ s) + 254 * 2 ^ s := by
      rw [hdiv, Nat.add_mul, Nat.mul_assoc]
    omega
  · -- the quotient is at least `1 / 254` above `Q`, and a unit is at most `2 ^ -7`
    have h7 : 2 ^ 7 ≤ 2 ^ s := Nat.pow_le_pow_right (by decide) (hs7 (by omega))
    simp only [Nat.reducePow] at h7
    omega

/-- The ceiling of the normal number with significand `M` and exponent `-s`, when `M / 2 ^ s`
lies in `(Q, Q + 1]`. A significand rounded up to `2 ^ 53` carries into the exponent. -/
theorem ceilOfBits_normal {s M Q : Nat} (hs : 6 ≤ s) (hs' : s ≤ 60)
    (hM : 4503599627370496 ≤ M) (hM' : M ≤ 9007199254740992)
    (hlo : Q * Nat.pow 2 s < M) (hhi : M ≤ Q * Nat.pow 2 s + Nat.pow 2 s) :
    ceilOfBits ((1074 - s) * 4503599627370496 + M) = ((Q + 1 : Nat) : Int) := by
  rcases Nat.lt_or_ge M 9007199254740992 with hlt | hge
  · rw [show (1074 - s) * 4503599627370496 + M =
        (1075 - s) * 4503599627370496 + (M - 4503599627370496) by omega,
      ceilOfBits_of_decode (Binary.decode_normal (by omega) (by omega) (by omega)) (by omega),
      show (((1075 - s : Nat) : Int) - 1075).natAbs = s by omega,
      Nat.sub_add_cancel hM, ceil_div_eq hlo hhi]
  · obtain ⟨t, rfl⟩ : ∃ t, s = t + 1 := ⟨s - 1, by omega⟩
    rw [Nat.pow_eq, Nat.pow_succ, ← Nat.mul_assoc] at hlo hhi
    rw [show (1074 - (t + 1)) * 4503599627370496 + M =
        (1076 - (t + 1)) * 4503599627370496 + 0 by omega,
      ceilOfBits_of_decode (Binary.decode_normal (by omega) (by omega) (by omega)) (by omega),
      show (((1076 - (t + 1) : Nat) : Int) - 1075).natAbs = t by omega,
      Nat.zero_add, ceil_div_eq (Q := Q) (by rw [Nat.pow_eq]; omega) (by rw [Nat.pow_eq]; omega)]

/-- Up to `254 * 2 ^ 46` bytes, the binary64 quotient `n / 254` is finite and its ceiling is the
number of started blocks. -/
theorem ceil_quotient {n : Nat} (h0 : 0 < n) (hn : n ≤ 17873661021126656) :
    ∃ bits, Binary.Format.binary64.ofRatio? false n 254 = some bits ∧
      ceilOfBits bits = (((n + 253) / 254 : Nat) : Int) := by
  obtain ⟨s, hk, hlo, hhi⟩ := Binary.quotient_window h0 hn
  obtain ⟨hs6, hs60, hs7⟩ := doublings_bounds h0 hn hlo hhi
  obtain ⟨Q, hQ⟩ : ∃ Q, (n + 253) / 254 = Q + 1 := ⟨(n - 1) / 254, by omega⟩
  obtain ⟨hM1, hM2⟩ := rounded_in_block hn hs7 hQ
  have hround := Binary.roundHalfEven_bounds (n * Nat.pow 2 s) (by decide : 0 < 254)
  have hr := Binary.roundRatio_quotient h0 hk (by omega)
  generalize Binary.roundHalfEven (n * Nat.pow 2 s) 254 = M at hM1 hM2 hround hr
  -- the rounded significand lies in `[2 ^ 52, 2 ^ 53]`
  have hfin : (1074 - s) * 4503599627370496 + M < Binary.Format.binary64.infBits := by
    show _ < 9218868437227405312
    omega
  refine ⟨_, ?_, (ceilOfBits_normal hs6 hs60 (by omega) (by omega) hM1 hM2).trans (by rw [hQ])⟩
  rw [Binary.Format.ofRatio?, hr, if_pos hfin, show Binary.Format.binary64.signOf false = 0 from rfl,
    Nat.zero_add]

/-- The size `maxEncodedLen` computes is the data, one code byte per started block of 254 bytes
(one at least) and the delimiter, for every length up to `254 * 2 ^ 46`. -/
theorem maxEncodedLen_of_le {n : Nat} (hn : n ≤ 17873661021126656) :
    maxEncodedLen n = .ok ((n + max 1 ((n + 253) / 254) + 1 : Nat) : Int) := by
  have hneg : decide ((n : Int) < 0) = false := decide_eq_false (by omega)
  rw [maxEncodedLen, hneg, Int.natAbs_natCast]
  rcases Nat.eq_zero_or_pos n with rfl | h0
  · -- no data: the quotient is zero, and one code byte is counted all the same
    have hd0 : Binary.Format.binary64.decode 0 = .finite false 0 (-1074) := rfl
    have hc0 : ceilOfBits 0 = 0 := by
      rw [ceilOfBits_of_decode hd0 (by decide), Nat.zero_add]
      have hp := Nat.two_pow_pos (-1074 : Int).natAbs
      rw [← Nat.pow_eq] at hp
      generalize Nat.pow 2 (-1074 : Int).natAbs = p at hp ⊢
      rw [Nat.div_eq_of_lt (by omega)]
      rfl
    have hof : Binary.Format.binary64.ofRatio? false 0 254 = some 0 := by
      rw [Binary.Format.ofRatio?, Binary.Format.roundRatio, if_pos rfl, if_pos (by decide)]
      rfl
    rw [hof]
    dsimp only
    rw [hc0]
    rfl
  · obtain ⟨bits, hof, hceil⟩ := ceil_quotient h0 hn
    rw [hof]
    dsimp only
    rw [hceil]
    congr 1
    omega

end PacketLink.Frame
