import PacketLink.Checksum
/-! # The checksum register is linear

One shift of the register moves it left and adds the polynomial `0x1021` when a one falls out.
The shift distributes over exclusive or and sends no nonzero register to zero. So the checksum
of a message with some bits flipped is the message's checksum xor the checksum of the flipped
bits alone, started from a zero register: their syndrome. In a message of at most 1043 bytes the
syndrome of a nonzero pattern is nonzero when the pattern has at most three bits or lies inside
two adjacent bytes:

* an odd number of flips changes the parity of the register, which no shift changes (the
  polynomial has four terms, so `x + 1` divides it);
* two flips `d` bits apart cancel only if `d` shifts bring the top bit back to itself, and the
  register's orbit from its top bit does not come back within 8343 shifts;
* a burst inside sixteen bits leaves sixteen shifts of a nonzero register.
-/
namespace PacketLink.Checksum

/-! ## Linearity -/

theorem top_clear_iff (c : UInt16) : c &&& 0x8000 = 0 ↔ c.toBitVec.getLsbD 15 = false := by
  have h : (c &&& 0x8000).toBitVec = c.toBitVec &&& BitVec.twoPow 16 15 := rfl
  rw [← UInt16.toBitVec_inj, h, BitVec.and_twoPow]
  cases c.toBitVec.getLsbD 15 <;> decide

theorem top_eq (c : UInt16) : c.toBitVec.getLsbD 15 = decide (32768 ≤ c.toNat) := by
  have hc := c.toNat_lt
  rw [BitVec.getLsbD, UInt16.toNat_toBitVec, Nat.testBit_eq_decide_div_mod_eq]
  apply decide_eq_decide.mpr
  omega

theorem top_clear_iff_lt (c : UInt16) : c &&& 0x8000 = 0 ↔ c.toNat < 32768 := by
  rw [top_clear_iff, top_eq]
  simp

theorem xor_xor_cancel (a b p : UInt16) : a ^^^ p ^^^ (b ^^^ p) = a ^^^ b := by
  rw [UInt16.xor_assoc, ← UInt16.xor_assoc p, UInt16.xor_comm p b, UInt16.xor_assoc b,
    UInt16.xor_self, UInt16.xor_zero]

theorem shiftBit_xor (a b : UInt16) : shiftBit (a ^^^ b) = shiftBit a ^^^ shiftBit b := by
  have htop : (a ^^^ b).toBitVec.getLsbD 15 = (a.toBitVec.getLsbD 15 ^^ b.toBitVec.getLsbD 15) := by
    simp
  simp only [shiftBit, top_clear_iff, htop, UInt16.shiftLeft_xor]
  -- the polynomial is added once for each top bit that is set, so twice cancels
  cases a.toBitVec.getLsbD 15 <;> cases b.toBitVec.getLsbD 15 <;> simp
  · ac_rfl
  · ac_rfl
  · exact (xor_xor_cancel _ _ _).symm

@[simp] theorem shiftBit_zero : shiftBit 0 = 0 := by decide

theorem toNat_shiftLeft_one (c : UInt16) : (c <<< 1).toNat = c.toNat * 2 % 65536 := by
  simp [Nat.shiftLeft_eq]

theorem shiftBit_of_lt {c : UInt16} (h : c.toNat < 32768) : shiftBit c = c <<< 1 :=
  if_pos ((top_clear_iff_lt c).mpr h)

theorem shiftBit_of_le {c : UInt16} (h : 32768 ≤ c.toNat) : shiftBit c = c <<< 1 ^^^ 0x1021 :=
  if_neg (fun h' => absurd ((top_clear_iff_lt c).mp h') (by omega))

/-- Only the zero register shifts to zero: a shifted register is even, and the polynomial is
odd. -/
theorem shiftBit_eq_zero {c : UInt16} (h : shiftBit c = 0) : c = 0 := by
  have hc := c.toNat_lt
  have h2 := toNat_shiftLeft_one c
  by_cases htop : c.toNat < 32768
  · rw [shiftBit_of_lt htop] at h
    rw [h] at h2
    apply UInt16.toNat_inj.mp
    simp at h2 ⊢
    omega
  · rw [shiftBit_of_le (by omega), UInt16.xor_eq_zero_iff] at h
    rw [h] at h2
    simp at h2
    omega

theorem repeat_add {α : Type} (f : α → α) (m n : Nat) (a : α) :
    Nat.repeat f (m + n) a = Nat.repeat f m (Nat.repeat f n a) := by
  induction m with
  | zero => simp [Nat.repeat]
  | succ m ih => rw [Nat.add_right_comm, Nat.repeat, ih, Nat.repeat]

theorem repeat_succ' {α : Type} (f : α → α) (n : Nat) (a : α) :
    Nat.repeat f (n + 1) a = Nat.repeat f n (f a) :=
  repeat_add f n 1 a

theorem repeat_xor (n : Nat) (a b : UInt16) :
    Nat.repeat shiftBit n (a ^^^ b) = Nat.repeat shiftBit n a ^^^ Nat.repeat shiftBit n b := by
  induction n with
  | zero => rfl
  | succ n ih => simp only [Nat.repeat, ih, shiftBit_xor]

@[simp] theorem repeat_zero (n : Nat) : Nat.repeat shiftBit n 0 = 0 := by
  induction n with
  | zero => rfl
  | succ n ih => simp only [Nat.repeat, ih, shiftBit_zero]

theorem repeat_eq_zero {n : Nat} {c : UInt16} (h : Nat.repeat shiftBit n c = 0) : c = 0 := by
  induction n with
  | zero => exact h
  | succ n ih => exact ih (shiftBit_eq_zero h)

theorem step_xor (a a' : UInt16) (b b' : UInt8) :
    step (a ^^^ a') (b ^^^ b') = step a b ^^^ step a' b' := by
  simp only [step, UInt8.toUInt16_xor, UInt16.shiftLeft_xor, ← repeat_xor]
  congr 1
  ac_rfl

section Linear

variable {β : Type} {f : UInt16 → β → UInt16} {op : β → β → β}

/-- An update linear in register and input together: its run over the pointwise sum of two
inputs, from the sum of two registers, is the sum of the two runs. -/
theorem foldl_zipWith (hf : ∀ a a' b b', f (a ^^^ a') (op b b') = f a b ^^^ f a' b')
    {xs ys : List β} (h : xs.length = ys.length) (a a' : UInt16) :
    (List.zipWith op xs ys).foldl f (a ^^^ a') = xs.foldl f a ^^^ ys.foldl f a' := by
  induction xs generalizing ys a a' with
  | nil => cases ys with
    | nil => rfl
    | cons => simp at h
  | cons x xs ih => cases ys with
    | nil => simp at h
    | cons y ys =>
      simp only [List.zipWith_cons_cons, List.foldl_cons, hf]
      exact ih (by simpa using h) _ _

end Linear

/-- The checksum of a message with the bits of `e` flipped. -/
theorem crc16_zipWith_xor {m e : Bytes} (h : m.length = e.length) :
    crc16 (List.zipWith (· ^^^ ·) m e) = crc16 m ^^^ e.foldl step 0 := by
  have := foldl_zipWith step_xor h init 0
  rwa [UInt16.xor_zero] at this

theorem crc16_zipWith_xor_ne {m e : Bytes} (h : m.length = e.length) (hD : e.foldl step 0 ≠ 0) :
    crc16 (List.zipWith (· ^^^ ·) m e) ≠ crc16 m := by
  rw [crc16_zipWith_xor h]
  intro h'
  apply hD
  simpa [← UInt16.xor_assoc] using congrArg (crc16 m ^^^ ·) h'

/-! ## Bit by bit -/

/-- One message bit into the register: it is added at the top, then the register shifts. -/
def bitStep (c : UInt16) (x : Bool) : UInt16 := shiftBit (if x then c ^^^ 0x8000 else c)

/-- The bits of a byte, most significant first. -/
def byteBits (b : UInt8) : List Bool := (List.range 8).reverse.map b.toNat.testBit

/-- The bits of a byte string, byte after byte. -/
def bits (bs : Bytes) : List Bool := bs.flatMap byteBits

/-- The Hamming weight: how many bits are set. -/
def weight (bs : Bytes) : Nat := (bits bs).count true

theorem bitStep_xor (a a' : UInt16) (x x' : Bool) :
    bitStep (a ^^^ a') (x ^^ x') = bitStep a x ^^^ bitStep a' x' := by
  simp only [bitStep, ← shiftBit_xor]
  congr 1
  cases x <;> cases x' <;> simp
  · ac_rfl
  · ac_rfl
  · exact (xor_xor_cancel _ _ _).symm

theorem foldl_bitStep_replicate (n : Nat) (c : UInt16) :
    (List.replicate n false).foldl bitStep c = Nat.repeat shiftBit n c := by
  induction n with
  | zero => rfl
  | succ n ih => simp [List.replicate_succ', ih, bitStep, Nat.repeat]

@[simp] theorem length_byteBits (b : UInt8) : (byteBits b).length = 8 := by simp [byteBits]

theorem length_bits (e : Bytes) : (bits e).length = 8 * e.length := by
  induction e with
  | nil => rfl
  | cons x e ih => simp [bits] at ih ⊢; omega

@[simp] theorem weight_append (xs ys : Bytes) : weight (xs ++ ys) = weight xs + weight ys := by
  simp [weight, bits, List.count_append]

theorem zipWith_replicate_false (l : List Bool) :
    List.zipWith (· ^^ ·) (List.replicate l.length false) l = l := by
  induction l with
  | nil => rfl
  | cons x l ih => simp [List.replicate_succ, ih]

theorem step_zero_byte (c : UInt16) : step c 0 = Nat.repeat shiftBit 8 c := by
  simp [step]

theorem step_zero_zero : step 0 0 = 0 := by
  rw [step_zero_byte, repeat_zero]

theorem step_zero_bits : ∀ n < 256,
    step 0 (UInt8.ofNat n) = (byteBits (UInt8.ofNat n)).foldl bitStep 0 := by
  decide +kernel

/-- A byte step is eight bit steps. -/
theorem step_eq_foldl_bitStep (c : UInt16) (b : UInt8) :
    step c b = (byteBits b).foldl bitStep c := by
  -- both sides are linear in the pair of register and byte: split off the register's part
  have hb : step 0 b = (byteBits b).foldl bitStep 0 := by
    simpa using step_zero_bits b.toNat b.toNat_lt
  have hsplit : step c b = step c 0 ^^^ step 0 b := by
    simpa using step_xor c 0 0 b
  have hbits : (List.zipWith (· ^^ ·) (byteBits 0) (byteBits b)).foldl bitStep (c ^^^ 0) =
      (byteBits 0).foldl bitStep c ^^^ (byteBits b).foldl bitStep 0 :=
    foldl_zipWith bitStep_xor (by simp) c 0
  have hzero : byteBits 0 = List.replicate (byteBits b).length false := by
    rw [length_byteBits]; decide
  rw [UInt16.xor_zero, hzero, zipWith_replicate_false, ← hzero] at hbits
  rw [hsplit, hb, hbits, hzero, length_byteBits, foldl_bitStep_replicate, step_zero_byte]

theorem foldl_step_eq_bits (bs : Bytes) (c : UInt16) :
    bs.foldl step c = (bits bs).foldl bitStep c := by
  simp only [bits, List.foldl_flatMap, ← step_eq_foldl_bitStep]

/-! ## Parity -/

/-- The xor of the register's low `k` bits. -/
def lowParity : Nat → UInt16 → Bool
  | 0, _ => false
  | k + 1, c => c.toBitVec.getLsbD k ^^ lowParity k c

/-- The xor of all sixteen bits of the register: its remainder modulo `x + 1`. -/
def parity (c : UInt16) : Bool := lowParity 16 c

theorem lowParity_xor (k : Nat) (a b : UInt16) :
    lowParity k (a ^^^ b) = (lowParity k a ^^ lowParity k b) := by
  induction k with
  | zero => rfl
  | succ k ih =>
    simp only [lowParity, ih, UInt16.toBitVec_xor, BitVec.getLsbD_xor, Bool.xor_assoc]
    rw [Bool.xor_left_comm (b.toBitVec.getLsbD k)]

theorem lowParity_shiftLeft (c : UInt16) :
    ∀ k, k < 16 → lowParity (k + 1) (c <<< 1) = lowParity k c
  | 0, _ => by simp [lowParity]
  | k + 1, hk => by
    rw [lowParity, lowParity_shiftLeft c k (by omega), lowParity]
    simp [hk, BitVec.getLsbD_eq_getElem (Nat.lt_of_succ_lt hk)]

theorem parity_xor (a b : UInt16) : parity (a ^^^ b) = (parity a ^^ parity b) :=
  lowParity_xor 16 a b

theorem parity_shiftLeft (c : UInt16) :
    parity (c <<< 1) = (parity c ^^ c.toBitVec.getLsbD 15) := by
  have h16 : lowParity 16 c = (c.toBitVec.getLsbD 15 ^^ lowParity 15 c) := rfl
  rw [parity, parity, lowParity_shiftLeft c 15 (by omega), h16]
  cases c.toBitVec.getLsbD 15 <;> simp

/-- No shift changes the parity: the top bit that falls out is paid back by the polynomial's
three other terms. -/
theorem parity_shiftBit (c : UInt16) : parity (shiftBit c) = parity c := by
  by_cases h : c.toNat < 32768
  · rw [shiftBit_of_lt h, parity_shiftLeft, top_eq]
    simp [Nat.not_le.mpr h]
  · have hp : parity 0x1021 = true := by decide
    rw [shiftBit_of_le (by omega), parity_xor, parity_shiftLeft, top_eq, hp]
    simp [Nat.le_of_not_lt h]

theorem parity_bitStep (c : UInt16) (x : Bool) : parity (bitStep c x) = (parity c ^^ x) := by
  have hp : parity 0x8000 = true := by decide
  cases x <;> simp [bitStep, parity_shiftBit, parity_xor, hp]

theorem parity_foldl_bitStep (xs : List Bool) (c : UInt16) :
    parity (xs.foldl bitStep c) = (parity c ^^ decide (xs.count true % 2 = 1)) := by
  induction xs generalizing c with
  | nil => simp
  | cons x xs ih =>
    have hodd : decide ((xs.count true + 1) % 2 = 1) = !decide (xs.count true % 2 = 1) := by
      by_cases h : xs.count true % 2 = 1 <;> simp [h] <;> omega
    rw [List.foldl_cons, ih, parity_bitStep, List.count_cons]
    cases x <;> simp [hodd]

theorem foldl_bitStep_ne_zero_of_odd {xs : List Bool} (h : xs.count true % 2 = 1) :
    xs.foldl bitStep 0 ≠ 0 := by
  intro h0
  have hp := parity_foldl_bitStep xs 0
  have hz : parity 0 = false := by decide
  simp [h0, hz, h] at hp

/-! ## Two flipped bits -/

theorem eq_replicate_of_count_true_eq_zero {xs : List Bool} (h : xs.count true = 0) :
    xs = List.replicate xs.length false :=
  List.eq_replicate_iff.mpr ⟨rfl, fun x hx => by
    cases x
    · rfl
    · exact absurd h (Nat.ne_of_gt (List.count_pos_iff.mpr hx))⟩

theorem exists_of_count_true_eq_one {xs : List Bool} (h : xs.count true = 1) :
    ∃ a c, xs = List.replicate a false ++ true :: List.replicate c false := by
  induction xs with
  | nil => simp at h
  | cons x xs ih =>
    cases x with
    | true =>
      exact ⟨0, xs.length, by simpa using eq_replicate_of_count_true_eq_zero (by simpa using h)⟩
    | false =>
      obtain ⟨a, c, rfl⟩ := ih (by simpa using h)
      exact ⟨a + 1, c, by simp [List.replicate_succ]⟩

theorem exists_of_count_true_eq_two {xs : List Bool} (h : xs.count true = 2) :
    ∃ a d c, xs = List.replicate a false ++ true ::
      (List.replicate d false ++ true :: List.replicate c false) := by
  induction xs with
  | nil => simp at h
  | cons x xs ih =>
    cases x with
    | true =>
      obtain ⟨d, c, rfl⟩ := exists_of_count_true_eq_one (by simpa using h)
      exact ⟨0, d, c, rfl⟩
    | false =>
      obtain ⟨a, d, c, rfl⟩ := ih (by simpa using h)
      exact ⟨a + 1, d, c, by simp [List.replicate_succ]⟩

/-- Two flips `d + 1` bits apart leave the top bit, shifted `d + 1` times, xor itself. -/
theorem foldl_bitStep_two (a d c : Nat) :
    (List.replicate a false ++ true :: (List.replicate d false ++ true ::
      List.replicate c false)).foldl bitStep 0 =
      Nat.repeat shiftBit (c + 1) (Nat.repeat shiftBit (d + 1) 0x8000 ^^^ 0x8000) := by
  simp only [List.foldl_append, List.foldl_cons, foldl_bitStep_replicate, repeat_zero, bitStep,
    if_true, UInt16.zero_xor, repeat_succ']

/-- The shift on the register's value. -/
def shiftNat (n : Nat) : Nat := if n < 32768 then 2 * n else (2 * n - 65536) ^^^ 4129

theorem toNat_shiftBit (c : UInt16) : (shiftBit c).toNat = shiftNat c.toNat := by
  have hc := c.toNat_lt
  have h2 := toNat_shiftLeft_one c
  by_cases h : c.toNat < 32768
  · rw [shiftBit_of_lt h, h2, shiftNat, if_pos h]
    omega
  · have e : c.toNat * 2 % 65536 = 2 * c.toNat - 65536 := by omega
    rw [shiftBit_of_le (by omega), UInt16.toNat_xor, h2, shiftNat, if_neg h, e]
    rfl

theorem toNat_repeat (k : Nat) (c : UInt16) :
    (Nat.repeat shiftBit k c).toNat = Nat.repeat shiftNat k c.toNat := by
  induction k with
  | zero => rfl
  | succ k ih => rw [Nat.repeat, toNat_shiftBit, ih]; rfl

/-- Whether the first `n` shifts of `r` all differ from `x`. -/
def orbitAvoids (x : Nat) : Nat → Nat → Bool
  | 0, _ => true
  | n + 1, r => shiftNat r != x && orbitAvoids x n (shiftNat r)

theorem repeat_ne_of_orbitAvoids {x n : Nat} :
    ∀ {r : Nat}, orbitAvoids x n r = true → ∀ k, 0 < k → k ≤ n → Nat.repeat shiftNat k r ≠ x := by
  induction n with
  | zero => intro r _ k h0 hk; omega
  | succ n ih =>
    intro r h k h0 hk
    simp only [orbitAvoids, Bool.and_eq_true, bne_iff_ne] at h
    match k, h0 with
    | 1, _ => exact h.1
    | k + 2, _ =>
      rw [repeat_succ']
      exact ih h.2 (k + 1) (by omega) (by omega)

-- The orbit of the top bit has period 32767; 8343 shifts are what a packet's bits need.
theorem orbitAvoids_top : orbitAvoids 32768 8343 32768 = true := by decide +kernel

theorem repeat_top_ne {k : Nat} (h0 : 0 < k) (hk : k ≤ 8343) :
    Nat.repeat shiftBit k 0x8000 ≠ 0x8000 := fun h => by
  have h' := congrArg UInt16.toNat h
  rw [toNat_repeat] at h'
  exact repeat_ne_of_orbitAvoids orbitAvoids_top k h0 hk h'

theorem foldl_bitStep_ne_zero_of_two {xs : List Bool} (h : xs.count true = 2)
    (hlen : xs.length ≤ 8344) : xs.foldl bitStep 0 ≠ 0 := by
  obtain ⟨a, d, c, rfl⟩ := exists_of_count_true_eq_two h
  rw [foldl_bitStep_two]
  intro h0
  have hback := UInt16.xor_eq_zero_iff.mp (repeat_eq_zero h0)
  simp at hlen
  exact repeat_top_ne (by omega) (by omega) hback

/-! ## Bursts -/

theorem toNat_repeat_of_lt (c : UInt16) : ∀ k, c.toNat * Nat.pow 2 k < 65536 →
    (Nat.repeat shiftBit k c).toNat = c.toNat * Nat.pow 2 k
  | 0, _ => by simp [Nat.repeat, Nat.pow]
  | k + 1, h => by
    have hp : c.toNat * Nat.pow 2 (k + 1) = c.toNat * Nat.pow 2 k * 2 :=
      (Nat.mul_assoc _ _ 2).symm
    have ih := toNat_repeat_of_lt c k (by omega)
    rw [Nat.repeat, shiftBit_of_lt (by omega), toNat_shiftLeft_one, ih, hp]
    omega

/-- Eight shifts of a byte lose nothing: they move it to the high half. -/
theorem repeat_byte (b : UInt8) : Nat.repeat shiftBit 8 b.toUInt16 = b.toUInt16 <<< 8 := by
  have hb := b.toNat_lt
  apply UInt16.toNat_inj.mp
  rw [toNat_repeat_of_lt _ 8 (by simp [Nat.pow]; omega)]
  simp [Nat.shiftLeft_eq, Nat.pow]
  omega

theorem step_eq (c : UInt16) (b : UInt8) :
    step c b = Nat.repeat shiftBit 8 c ^^^ Nat.repeat shiftBit 16 b.toUInt16 := by
  rw [step, repeat_xor, ← repeat_byte, ← repeat_add]

/-- Two bytes from a zero register: sixteen shifts of the word they make. -/
theorem step_step_zero (a b : UInt8) :
    step (step 0 a) b = Nat.repeat shiftBit 16 (a.toUInt16 <<< 8 ^^^ b.toUInt16) := by
  rw [step_eq, step_eq, repeat_zero, UInt16.zero_xor, ← repeat_add, repeat_xor, ← repeat_byte,
    ← repeat_add]

theorem foldl_step_replicate (n : Nat) (c : UInt16) :
    (List.replicate n 0).foldl step c = Nat.repeat shiftBit (8 * n) c := by
  induction n with
  | zero => rfl
  | succ n ih =>
    rw [List.replicate_succ', List.foldl_append, ih, List.foldl_cons, List.foldl_nil,
      step_zero_byte, ← repeat_add, Nat.mul_succ, Nat.add_comm]

theorem word_ne_zero {a b : UInt8} (h : a ≠ 0 ∨ b ≠ 0) : a.toUInt16 <<< 8 ^^^ b.toUInt16 ≠ 0 := by
  intro h0
  have hw := congrArg UInt16.toNat (UInt16.xor_eq_zero_iff.mp h0)
  have ha := a.toNat_lt
  have hb := b.toNat_lt
  simp [Nat.shiftLeft_eq] at hw
  rcases h with h | h
  · exact h (UInt8.toNat_inj.mp (by show a.toNat = 0; omega))
  · exact h (UInt8.toNat_inj.mp (by show b.toNat = 0; omega))

theorem foldl_step_short_ne_zero {mid : Bytes} (hlen : mid.length ≤ 2)
    (hne : ∃ x ∈ mid, x ≠ 0) : mid.foldl step 0 ≠ 0 := by
  match mid, hlen with
  | [], _ => simp at hne
  | [a], _ =>
    -- a lone byte is the word with a zero high byte
    have : [a].foldl step 0 = step (step 0 0) a := by rw [step_zero_zero]; rfl
    rw [this, step_step_zero]
    intro h
    exact word_ne_zero (.inr (by simpa using hne)) (repeat_eq_zero h)
  | [a, b], _ =>
    intro h
    have hab : a ≠ 0 ∨ b ≠ 0 := by
      obtain ⟨x, hx, hx0⟩ := hne
      simp at hx
      rcases hx with rfl | rfl
      · exact .inl hx0
      · exact .inr hx0
    exact word_ne_zero hab (repeat_eq_zero (by simpa [step_step_zero] using h))

/-- A pattern that is zero after its first two bytes: sixteen shifts of their word, then more
shifts. -/
theorem foldl_step_front_ne_zero {a b : UInt8} {post : Bytes} (hpost : ∀ x ∈ post, x = 0)
    (hne : ∃ x ∈ a :: b :: post, x ≠ 0) : (a :: b :: post).foldl step 0 ≠ 0 := by
  have hrep : post = List.replicate post.length 0 := List.eq_replicate_iff.mpr ⟨rfl, hpost⟩
  have hab : ∃ x ∈ [a, b], x ≠ 0 := by
    obtain ⟨x, hx, hx0⟩ := hne
    rcases List.mem_cons.mp hx with rfl | hx
    · exact ⟨x, by simp, hx0⟩
    rcases List.mem_cons.mp hx with rfl | hx
    · exact ⟨x, by simp, hx0⟩
    exact absurd (hpost x hx) hx0
  have hfold : (a :: b :: post).foldl step 0 =
      Nat.repeat shiftBit (8 * post.length) ([a, b].foldl step 0) := by
    rw [← foldl_step_replicate, ← hrep]
    simp only [List.foldl_cons, List.foldl_nil]
  rw [hfold]
  exact fun h => foldl_step_short_ne_zero (by simp) hab (repeat_eq_zero h)

theorem foldl_step_ne_zero_of_burst : ∀ {e : Bytes} {q : Nat}, (∃ x ∈ e, x ≠ 0) →
    (∀ i, e.getD i 0 ≠ 0 → i = q ∨ i = q + 1) → e.foldl step 0 ≠ 0
  | [], _, hne, _ => by simp at hne
  | [a], _, hne, _ => foldl_step_short_ne_zero (by simp) hne
  | a :: b :: post, 0, hne, hq => by
    refine foldl_step_front_ne_zero (fun x hx => ?_) hne
    obtain ⟨i, hi, rfl⟩ := List.getElem_of_mem hx
    refine Classical.byContradiction fun h => ?_
    have := hq (i + 2) (by simpa [List.getD_eq_getElem?_getD, hi] using h)
    omega
  | x :: e, q + 1, hne, hq => by
    -- a zero byte before the burst leaves the zero register as it is
    have hx : x = 0 := Classical.byContradiction fun h => by
      have := hq 0 (by simpa using h)
      omega
    subst hx
    rw [List.foldl_cons, step_zero_zero]
    refine foldl_step_ne_zero_of_burst (q := q) ?_ fun i hi => ?_
    · obtain ⟨y, hy, hy0⟩ := hne
      rcases List.mem_cons.mp hy with rfl | hy
      · exact absurd rfl hy0
      · exact ⟨y, hy, hy0⟩
    · have := hq (i + 1) (by simpa using hi)
      omega

/-! ## Small errors -/

theorem true_mem_byteBits {b : UInt8} (h : b ≠ 0) : true ∈ byteBits b := by
  have hb := b.toNat_lt
  obtain ⟨i, hi⟩ :=
    Nat.exists_testBit_of_ne_zero (fun h0 => h (UInt8.toNat_inj.mp (by simpa using h0)))
  have hi8 : i < 8 := Classical.byContradiction fun h8 => by
    have hlt : b.toNat < 2 ^ i :=
      Nat.lt_of_lt_of_le hb (Nat.pow_le_pow_right (by omega) (by omega))
    simp [Nat.testBit_lt_two_pow hlt] at hi
  simpa [byteBits] using ⟨i, hi8, hi⟩

theorem weight_pos {e : Bytes} (h : ∃ x ∈ e, x ≠ 0) : 0 < weight e := by
  obtain ⟨x, hx, hx0⟩ := h
  exact List.count_pos_iff.mpr (List.mem_flatMap.mpr ⟨x, hx, true_mem_byteBits hx0⟩)

/-- The syndrome of a nonzero error of at most three bits, or inside two adjacent bytes, in a
message of at most 1043 bytes is nonzero. -/
theorem foldl_step_ne_zero {e : Bytes} (hlen : e.length ≤ 1043) (hne : ∃ x ∈ e, x ≠ 0)
    (hsmall : weight e ≤ 3 ∨ ∃ q, ∀ i, e.getD i 0 ≠ 0 → i = q ∨ i = q + 1) :
    e.foldl step 0 ≠ 0 := by
  rcases hsmall with hw | ⟨q, hq⟩
  · have hpos := weight_pos hne
    unfold weight at hw hpos
    rw [foldl_step_eq_bits]
    by_cases h2 : (bits e).count true = 2
    · exact foldl_bitStep_ne_zero_of_two h2 (by rw [length_bits]; omega)
    · exact foldl_bitStep_ne_zero_of_odd (by omega)
  · exact foldl_step_ne_zero_of_burst hne hq

/-! ## Errors cut to a prefix -/

theorem weight_take_le (e : Bytes) (n : Nat) : weight (e.take n) ≤ weight e :=
  calc weight (e.take n) ≤ weight (e.take n) + weight (e.drop n) := Nat.le_add_right _ _
    _ = weight e := by rw [← weight_append, List.take_append_drop]

theorem exists_ne_zero_take {e : Bytes} {n : Nat} (hne : ∃ x ∈ e, x ≠ 0)
    (htail : ∀ i, n ≤ i → e.getD i 0 = 0) : ∃ x ∈ e.take n, x ≠ 0 := by
  obtain ⟨x, hx, hx0⟩ := hne
  obtain ⟨i, hi, rfl⟩ := List.getElem_of_mem hx
  have hin : i < n := Classical.byContradiction fun h =>
    hx0 (by simpa [List.getD_eq_getElem?_getD, hi] using htail i (by omega))
  exact ⟨e[i], List.mem_iff_getElem.mpr ⟨i, by rw [List.length_take]; omega, by simp⟩, hx0⟩

theorem getD_take_ne_zero {e : Bytes} {n i : Nat} (h : (e.take n).getD i 0 ≠ 0) :
    e.getD i 0 ≠ 0 := by
  by_cases hi : i < n
  · simpa [List.getD_eq_getElem?_getD, List.getElem?_take, hi] using h
  · have hz : (e.take n)[i]? = none := List.getElem?_eq_none (by rw [List.length_take]; omega)
    simp [List.getD_eq_getElem?_getD, hz] at h

/-- The syndrome of the part of a small error before `n`, when the error is zero from `n` on. -/
theorem foldl_step_take_ne_zero {e : Bytes} {n : Nat} (hn : n ≤ 1043) (hne : ∃ x ∈ e, x ≠ 0)
    (htail : ∀ i, n ≤ i → e.getD i 0 = 0)
    (hsmall : weight e ≤ 3 ∨ ∃ q, ∀ i, e.getD i 0 ≠ 0 → i = q ∨ i = q + 1) :
    (e.take n).foldl step 0 ≠ 0 :=
  foldl_step_ne_zero (Nat.le_trans (List.length_take_le _ _) hn) (exists_ne_zero_take hne htail)
    (hsmall.imp (Nat.le_trans (weight_take_le _ _))
      fun ⟨q, hq⟩ => ⟨q, fun i hi => hq i (getD_take_ne_zero hi)⟩)

end PacketLink.Checksum
