import PacketLink.Proofs.EditAtomicity
import PacketLink.Proofs.SpanLayout
/-! # Header edits change only their own bits

The three header bytes hold seven fields, each under a mask of its own; the data length takes
all of byte 0 and the two low bits of byte 1. A header edit writes the byte that holds its field
as that byte with the mask cleared and the new value, times the place value of the field's
lowest bit, put in its place. Such a write keeps the bits below and above the field, so on a
writable buffer that holds the header every header setter returns, its field then reads the new
value, the other six fields read as before, and no bit outside its mask changes. The two word
setters, when they return, change only their two bytes, and the word reads back modulo `2 ^ 16`.
-/
namespace PacketLink.Header

/-- The seven header fields. -/
inductive Field where
  | dataLength | typeCode | internal | offset | idLength | response | acknum
  deriving DecidableEq

namespace Field

/-- The bits of header byte `i` that hold the field. -/
def mask : Field → Nat → UInt8
  | dataLength, 0 => 0xFF
  | dataLength, 1 => dataLengthHighBits
  | typeCode, 1 => typeBits
  | internal, 1 => internalBit
  | offset, 1 => offsetBit
  | idLength, 2 => idLengthBits
  | response, 2 => responseBit
  | acknum, 2 => acknumBits
  | _, _ => 0

/-- The byte that an edit of the field reads and rewrites; for the data length, the byte of its
top two bits. -/
def index : Field → Nat
  | dataLength | typeCode | internal | offset => 1
  | idLength | response | acknum => 2

/-- The place value of the field's lowest bit in that byte. -/
def scale : Field → Nat
  | dataLength => 1 | typeCode => 4 | internal => 64 | offset => 128
  | idLength => 1 | response => 16 | acknum => 32

/-- The number of values the field's bits in that byte hold. -/
def range : Field → Nat
  | dataLength => 4 | typeCode => 16 | internal => 2 | offset => 2
  | idLength => 16 | response => 2 | acknum => 8

theorem range_pos (f : Field) : 0 < f.range := by
  cases f <;> decide

/-- The field's value in the header bytes, a flag as `0` or `1`. -/
def value : Field → UInt8 → UInt8 → UInt8 → Nat
  | dataLength, b0, b1, _ => Header.dataLength b0 b1
  | typeCode, _, b1, _ => Header.typeCode b1
  | internal, _, b1, _ => (Header.internal b1).toNat
  | offset, _, b1, _ => (Header.offset b1).toNat
  | idLength, _, _, b2 => Header.idLength b2
  | response, _, _, b2 => (Header.response b2).toNat
  | acknum, _, _, b2 => Header.acknum b2

/-- Putting `c` under the field's mask keeps the bits below and above it. -/
theorem toNat_put (f : Field) (b : UInt8) : ∀ c < f.range,
    ((b &&& ~~~f.mask f.index) ||| UInt8.ofNat (c * f.scale)).toNat =
      b.toNat % f.scale + c * f.scale + b.toNat / (f.scale * f.range) * (f.scale * f.range) := by
  -- every byte and every value of each field, checked by the kernel
  obtain ⟨n, hn, rfl⟩ : ∃ n, n < 256 ∧ b = UInt8.ofNat n := ⟨b.toNat, b.toNat_lt, by simp⟩
  revert n
  cases f <;> decide +kernel

theorem toNat_clear (f : Field) (b : UInt8) :
    (b &&& ~~~f.mask f.index).toNat =
      b.toNat % f.scale + b.toNat / (f.scale * f.range) * (f.scale * f.range) := by
  simpa using toNat_put f b 0 (range_pos f)

end Field

theorem toNat_internal (b : UInt8) : (internal b).toNat = b.toNat / 64 % 2 := by
  rcases Nat.mod_two_eq_zero_or_one (b.toNat / 64) with h | h <;> simp [internal, h]

theorem toNat_offset (b : UInt8) : (offset b).toNat = b.toNat / 128 := by
  have := b.toNat_lt
  rcases (show b.toNat / 128 = 0 ∨ b.toNat / 128 = 1 by omega) with h | h <;> simp [offset, h]

theorem toNat_response (b : UInt8) : (response b).toNat = b.toNat / 16 % 2 := by
  rcases Nat.mod_two_eq_zero_or_one (b.toNat / 16) with h | h <;> simp [response, h]

/-- The seven fields determine the three header bytes. -/
theorem Field.eq_of_value {a0 a1 a2 b0 b1 b2 : UInt8}
    (h : ∀ f : Field, f.value a0 a1 a2 = f.value b0 b1 b2) : a0 = b0 ∧ a1 = b1 ∧ a2 = b2 := by
  have hd := h .dataLength
  have ht := h .typeCode
  have hi := h .internal
  have ho := h .offset
  have hl := h .idLength
  have hr := h .response
  have ha := h .acknum
  simp only [Field.value, Header.dataLength, Header.typeCode, toNat_internal, toNat_offset,
    Header.idLength, toNat_response, Header.acknum] at hd ht hi ho hl hr ha
  have := a0.toNat_lt
  have := b0.toNat_lt
  have := a1.toNat_lt
  have := b1.toNat_lt
  have := a2.toNat_lt
  have := b2.toNat_lt
  exact ⟨UInt8.toNat_inj.mp (by omega), UInt8.toNat_inj.mp (by omega),
    UInt8.toNat_inj.mp (by omega)⟩

end PacketLink.Header

namespace PacketLink.Bytes

theorem overwrite_append (pre mid post src : Bytes) (h : src.length = mid.length) :
    (pre ++ mid ++ post).overwrite pre.length src = pre ++ src ++ post := by
  have hdrop : (pre ++ mid ++ post).drop (pre.length + src.length) = post := by
    rw [h, ← List.length_append]
    exact List.drop_left
  rw [overwrite, List.append_assoc, List.take_left, ← List.append_assoc, hdrop,
    List.take_of_length_le (by simp [h]), List.append_assoc]

theorem take_append_slice_append_drop (bs : Bytes) {s t : Nat} (h : s ≤ t) :
    bs.take s ++ bs.slice s t ++ bs.drop t = bs := by
  have hs : (bs.take t).take s = bs.take s := by rw [List.take_take, Nat.min_eq_left h]
  rw [slice, ← hs, List.take_append_drop, List.take_append_drop]

theorem overwrite_eq {bs src : Bytes} {s : Nat} (h : s + src.length ≤ bs.length) :
    bs.overwrite s src = bs.take s ++ src ++ bs.drop (s + src.length) := by
  have hs : (bs.take s).length = s := by rw [List.length_take]; omega
  have hm : (bs.slice s (s + src.length)).length = src.length := by
    simp only [slice, List.length_drop, List.length_take]; omega
  have h' := overwrite_append (bs.take s) (bs.slice s (s + src.length)) (bs.drop (s + src.length))
    src hm.symm
  rwa [hs, take_append_slice_append_drop bs (Nat.le_add_right s src.length)] at h'

theorem length_overwrite (bs : Bytes) (s : Nat) (src : Bytes) :
    (bs.overwrite s src).length = bs.length := by
  simp only [overwrite, List.length_append, List.length_take, List.length_drop]
  omega

theorem overwrite_cons (b : UInt8) (bs src : Bytes) (s : Nat) :
    overwrite (b :: bs) (s + 1) src = b :: bs.overwrite s src := by
  simp only [overwrite, List.take_succ_cons, List.length_cons, Nat.add_sub_add_right,
    Nat.add_right_comm s 1, List.drop_succ_cons, List.cons_append]

/-- A write past the header keeps the header bytes. -/
theorem overwrite_header {bs rest : Bytes} {b0 b1 b2 : UInt8} {s : Nat} (src : Bytes)
    (hb : bs = b0 :: b1 :: b2 :: rest) (h3 : 3 ≤ s) :
    bs.overwrite s src = b0 :: b1 :: b2 :: rest.overwrite (s - 3) src := by
  obtain ⟨k, rfl⟩ : ∃ k, s = k + 1 + 1 + 1 := ⟨s - 3, by omega⟩
  rw [hb, overwrite_cons, overwrite_cons, overwrite_cons]
  rfl

theorem getD_overwrite {bs src : Bytes} {s i : Nat} (h : s + src.length ≤ bs.length)
    (hi : i < s ∨ s + src.length ≤ i) : (bs.overwrite s src).getD i 0 = bs.getD i 0 := by
  rw [overwrite_eq h]
  rcases hi with hi | hi
  · have hlt : i < (bs.take s).length := by rw [List.length_take]; omega
    rw [List.getD_eq_getElem?_getD, List.append_assoc, List.getElem?_append_left hlt,
      List.getElem?_take_of_lt hi, List.getD_eq_getElem?_getD]
  · have hlen : (bs.take s ++ src).length = s + src.length := by
      rw [List.length_append, List.length_take]; omega
    rw [List.getD_eq_getElem?_getD, List.getElem?_append_right (by omega), List.getElem?_drop,
      List.getD_eq_getElem?_getD, hlen, Nat.add_sub_cancel' hi]

theorem slice_overwrite {bs src : Bytes} {s : Nat} (h : s + src.length ≤ bs.length) :
    (bs.overwrite s src).slice s (s + src.length) = src := by
  have hs : (bs.take s).length = s := by rw [List.length_take]; omega
  have hm : (bs.take s ++ src).length = s + src.length := by rw [List.length_append, hs]
  rw [overwrite_eq h, slice, List.take_left' hm, List.drop_left' hs]

end PacketLink.Bytes

namespace PacketLink.Packet

open Header

/-- A header field as the packet's getter reads it, a flag as `0` or `1`. -/
def field (p : Packet) : Field → Except Fault Nat
  | .dataLength => p.dataLength
  | .typeCode => p.typeCode
  | .internal => Bool.toNat <$> p.internal
  | .offset => Bool.toNat <$> p.offset
  | .idLength => p.idLengthRaw
  | .response => Bool.toNat <$> p.response
  | .acknum => p.acknum

/-- `q` is `p` with the header field `f` set to `v`: `f` reads `v`, the other fields read as
before, no bit outside `f`'s mask changes, and the buffer keeps its size and writability. -/
structure SetsField (f : Field) (v : Nat) (p q : Packet) : Prop where
  reads : q.field f = .ok v
  others : ∀ g, g ≠ f → q.field g = p.field g
  bits : ∀ i, q.bytes.getD i 0 &&& ~~~f.mask i = p.bytes.getD i 0 &&& ~~~f.mask i
  length_eq : q.length = p.length
  writable_eq : q.writable = p.writable

/-- `q` is `p` with at most the `n` bytes from `s` on changed. -/
structure ChangesOnly (s n : Nat) (p q : Packet) : Prop where
  outside : ∀ i, i < s ∨ s + n ≤ i → q.bytes.getD i 0 = p.bytes.getD i 0
  length_eq : q.length = p.length
  writable_eq : q.writable = p.writable

/-- The packet with the bits of field `f`, in the byte its edit rewrites, replaced by `c`. -/
def putField (p : Packet) (f : Field) (c : Nat) : Packet :=
  { p with
    bytes := p.bytes.set f.index
      ((p.bytes.getD f.index 0 &&& ~~~f.mask f.index) ||| UInt8.ofNat (c * f.scale)) }

variable {p q : Packet} {b0 b1 b2 : UInt8} {rest : Bytes}

theorem SetsField.field_update {f : Field} {v : Nat} (h : SetsField f v p q) (g : Field) :
    q.field g = if g = f then .ok v else p.field g := by
  by_cases hg : g = f
  · subst hg
    rw [if_pos rfl, h.reads]
  · rw [if_neg hg, h.others g hg]

theorem field_eq (hp : p.bytes = b0 :: b1 :: b2 :: rest) (f : Field) :
    p.field f = .ok (f.value b0 b1 b2) := by
  cases f <;> simp only [field, Field.value, dataLength_eq hp, typeCode_eq hp, offset_eq hp,
    idLengthRaw_eq hp, internal, response, acknum, byte_one hp, byte_two hp] <;> rfl

theorem field_set_one (hp : p.bytes = b0 :: b1 :: b2 :: rest) (x : UInt8) (g : Field) :
    ({ p with bytes := p.bytes.set 1 x } : Packet).field g = .ok (g.value b0 x b2) :=
  field_eq (by rw [hp]; rfl) g

theorem field_set_two (hp : p.bytes = b0 :: b1 :: b2 :: rest) (x : UInt8) (g : Field) :
    ({ p with bytes := p.bytes.set 2 x } : Packet).field g = .ok (g.value b0 b1 x) :=
  field_eq (by rw [hp]; rfl) g

theorem putField_bytes (hp : p.bytes = b0 :: b1 :: b2 :: rest) (f : Field) (c : Nat) :
    ∃ a0 a1 a2, (p.putField f c).bytes = a0 :: a1 :: a2 :: rest := by
  cases f <;> exact ⟨_, _, _, by rw [putField, hp]; rfl⟩

/-- A write past the header keeps every field. -/
theorem field_overwrite (hp : p.bytes = b0 :: b1 :: b2 :: rest) {s : Nat} (h3 : 3 ≤ s)
    (w : Bytes) (g : Field) :
    ({ p with bytes := p.bytes.overwrite s w } : Packet).field g = p.field g := by
  rw [field_eq (Bytes.overwrite_header w hp h3), field_eq hp]

/-- Writing one byte that keeps the bits outside the mask keeps every bit outside the mask. -/
theorem getD_set_and_not {m : Nat → UInt8} {bs : Bytes} {j : Nat} {x : UInt8}
    (hx : x &&& ~~~m j = bs.getD j 0 &&& ~~~m j) (i : Nat) :
    (bs.set j x).getD i 0 &&& ~~~m i = bs.getD i 0 &&& ~~~m i := by
  by_cases h : i = j
  · subst h
    by_cases hi : i < bs.length
    · simpa [List.getD_eq_getElem?_getD, hi] using hx
    · simp [List.getD_eq_getElem?_getD, Nat.not_lt.mp hi]
  · simp [List.getD_eq_getElem?_getD, List.getElem?_set_ne (Ne.symm h)]

/-- Putting a value under the mask of a field that lies in one byte sets exactly that field. -/
theorem setsField_putField {f : Field} (hf : f ≠ .dataLength)
    (hp : p.bytes = b0 :: b1 :: b2 :: rest) {c : Nat} (hc : c < f.range) :
    SetsField f c p (p.putField f c) := by
  obtain ⟨x, hx⟩ : ∃ x,
      x = (p.bytes.getD f.index 0 &&& ~~~f.mask f.index) ||| UInt8.ofNat (c * f.scale) := ⟨_, rfl⟩
  have hput : x.toNat = _ := hx ▸ Field.toNat_put f (p.bytes.getD f.index 0) c hc
  have hnew := Field.toNat_clear f x
  have hold := Field.toNat_clear f (p.bytes.getD f.index 0)
  have hq : p.putField f c = { p with bytes := p.bytes.set f.index x } := by rw [hx]; rfl
  rw [hq]
  clear hx hq
  have h0 := b0.toNat_lt
  have h1 := b1.toNat_lt
  have h2 := b2.toNat_lt
  have hmask : x &&& ~~~f.mask f.index = p.bytes.getD f.index 0 &&& ~~~f.mask f.index := by
    apply UInt8.toNat_inj.mp
    rw [hnew, hold, hput]
    cases f <;> simp only [Field.scale, Field.range] at hc ⊢ <;> omega
  -- each field as a quotient and remainder of the header bytes, one case per pair of fields
  have hval : ∀ g, ({ p with bytes := p.bytes.set f.index x } : Packet).field g =
      .ok (if g = f then c else g.value b0 b1 b2) := by
    intro g
    cases f
    case dataLength => exact absurd rfl hf
    all_goals
      simp only [hp, Field.index, Field.scale, Field.range, List.getD_cons_succ,
        List.getD_cons_zero] at hput hc
      simp only [Field.index, field_set_one hp, field_set_two hp, Except.ok.injEq]
      cases g <;> simp only [Field.value, Header.dataLength, Header.typeCode, Header.idLength,
        Header.acknum, toNat_internal, toNat_offset, toNat_response, reduceCtorEq, if_true,
        if_false] <;> omega
  exact ⟨by rw [hval, if_pos rfl], fun g hg => by rw [hval, if_neg hg, field_eq hp],
    getD_set_and_not hmask, by simp [Packet.length], rfl⟩

/-- The data length's edit writes byte 0 whole and the two low bits of byte 1. -/
theorem setsField_dataLength (hp : p.bytes = b0 :: b1 :: b2 :: rest) {v : Int} (h0 : 0 ≤ v)
    (h1 : v ≤ 1023) :
    SetsField .dataLength v.toNat p { p with bytes := UInt8.ofNat v.toNat ::
      ((b1 &&& ~~~dataLengthHighBits) ||| UInt8.ofNat (v.toNat / 256)) :: b2 :: rest } := by
  obtain ⟨x, hx⟩ : ∃ x, x = (b1 &&& ~~~dataLengthHighBits) ||| UInt8.ofNat (v.toNat / 256) :=
    ⟨_, rfl⟩
  have hput : x.toNat = b1.toNat % 1 + v.toNat / 256 + b1.toNat / 4 * 4 := by
    have h := Field.toNat_put .dataLength b1 (v.toNat / 256) (by simp only [Field.range]; omega)
    simp only [Field.scale, Field.range, Nat.mul_one, Nat.one_mul] at h
    rw [hx]
    exact h
  have hnew := Field.toNat_clear .dataLength x
  have hold := Field.toNat_clear .dataLength b1
  rw [← hx]
  have hv : (UInt8.ofNat v.toNat).toNat = v.toNat % 256 := UInt8.toNat_ofNat'
  have hb1 := b1.toNat_lt
  have hb2 := b2.toNat_lt
  have hq : ({ p with bytes := UInt8.ofNat v.toNat :: x :: b2 :: rest } : Packet).bytes =
    UInt8.ofNat v.toNat :: x :: b2 :: rest := rfl
  refine ⟨?_, fun g hg => ?_, fun i => ?_, by simp [Packet.length, hp], rfl⟩
  · rw [field_eq hq]
    simp only [Field.value, Header.dataLength, hv, hput, Except.ok.injEq]
    omega
  · rw [field_eq hq, field_eq hp]
    cases g
    case dataLength => exact absurd rfl hg
    all_goals
      simp only [Field.value, Header.typeCode, Header.idLength, Header.acknum, toNat_internal,
        toNat_offset, toNat_response, hput, Except.ok.injEq] <;> omega
  · rcases i with _ | _ | i
    · -- byte 0 is all data length, so nothing of it lies outside the mask
      show _ &&& ~~~(255 : UInt8) = _ &&& ~~~(255 : UInt8)
      rw [show ~~~(255 : UInt8) = 0 from rfl, UInt8.and_zero, UInt8.and_zero]
    · apply UInt8.toNat_inj.mp
      simp only [Field.index, Field.scale, Field.range] at hnew hold
      simp only [hp, List.getD_cons_succ, List.getD_cons_zero]
      rw [hnew, hold, hput]
      omega
    · simp [hp]

/-! ## The header setters -/

theorem run_writeBits_putField (hp : p.bytes = b0 :: b1 :: b2 :: rest) (f : Field) (c : Nat) :
    (Edit.writeBits f.index (f.mask f.index) (UInt8.ofNat (c * f.scale))).run p =
      (.ok (), p.putField f c) := by
  have hi : p.bytes[f.index]? = some (p.bytes.getD f.index 0) := by
    cases f <;> simp [hp, Field.index]
  rw [Edit.run_writeBits, hi]
  rfl

section Setters

variable (hp : p.bytes = b0 :: b1 :: b2 :: rest) (hw : p.writable = true)
include hp hw

theorem run_setDataLength_ok {v : Int} (h0 : 0 ≤ v) (h1 : v ≤ 1023) :
    (Edit.setDataLength v).run p = (.ok (), { p with bytes := UInt8.ofNat v.toNat ::
      ((b1 &&& ~~~dataLengthHighBits) ||| UInt8.ofNat (v.toNat / 256)) :: b2 :: rest }) := by
  rw [Edit.run_setDataLength, if_neg (not_not_intro ⟨h0, h1⟩), hw, if_neg Bool.true_eq_false.mp]
  simp only [hp]

theorem run_setTypeCode {c : Int} (h0 : 0 ≤ c) (h15 : c ≤ 15) :
    (Edit.setTypeCode c).run p = (.ok (), p.putField .typeCode c.toNat) := by
  unfold Edit.setTypeCode
  rw [if_pos ⟨h0, h15⟩]
  simp only [Edit.run_bind, Edit.run_checkWritable, hw, if_true]
  exact run_writeBits_putField hp .typeCode c.toNat

/-- The flag setters, on the one-bit fields. -/
theorem run_setFlag (f : Field) (v : Bool) (hf : f.range = 2) :
    (Edit.setFlag f.index (f.mask f.index) v).run p = (.ok (), p.putField f v.toNat) := by
  unfold Edit.setFlag
  simp only [Edit.run_bind, Edit.run_checkWritable, hw, if_true]
  have hx : (if v then f.mask f.index else 0) = UInt8.ofNat (v.toNat * f.scale) := by
    cases f <;> cases v <;> simp_all [Field.range] <;> rfl
  rw [hx]
  exact run_writeBits_putField hp f v.toNat

theorem run_setIdLength {v : IntArg} (h1 : 1 ≤ v.toInt) (h15 : v.toInt ≤ 15) :
    (Edit.setIdLength v).run p = (.ok (), p.putField .idLength v.toInt.toNat) := by
  unfold Edit.setIdLength
  rw [if_pos ⟨h1, h15⟩]
  simp only [Edit.run_bind, Edit.run_checkWritable, hw, if_true]
  have h := run_writeBits_putField hp .idLength v.toInt.toNat
  rw [show Field.idLength.scale = 1 from rfl, Nat.mul_one] at h
  exact h

theorem run_setAcknum (v : Int) :
    (Edit.setAcknum v).run p = (.ok (), p.putField .acknum (v % 8).toNat) := by
  unfold Edit.setAcknum
  simp only [Edit.run_bind, Edit.run_checkWritable, hw, if_true]
  exact run_writeBits_putField hp .acknum (v % 8).toNat

end Setters

/-! ## The word setters -/

theorem setOffsetRaw_ok {v : Int} (h : (Edit.setOffsetRaw v).run p = (.ok (), q)) :
    ∃ l, p.offset = .ok true ∧ p.idLength = .ok l ∧ 5 + l ≤ p.length ∧
      q = { p with bytes := p.bytes.overwrite (3 + l) (Bytes.ofWord (v % 65536).toNat) } := by
  simp only [Edit.setOffsetRaw, Edit.run_bind, Edit.run_read] at h
  cases ho : p.offset with
  | error e => rw [ho] at h; cases h
  | ok o =>
    rw [ho] at h
    cases o with
    | false => simp only [Bool.false_eq_true, if_false, Edit.run_bind, Edit.run_throw] at h; cases h
    | true =>
      simp only [if_true, Edit.run_bind, Edit.run_read, Edit.run_checkWritable] at h
      cases hl : p.idLength with
      | error e => rw [hl] at h; cases h
      | ok l =>
        rw [hl] at h
        cases hw : p.writable
        · simp only [hw] at h; cases h
        · simp only [hw, if_true] at h
          unfold span at h
          by_cases hs : p.length < 5 + l
          · rw [if_pos hs] at h; cases h
          · rw [if_neg hs] at h
            simp only [Edit.run_writeSpan, Prod.mk.injEq] at h
            exact ⟨l, rfl, rfl, Nat.not_lt.mp hs, by rw [← h.2, hw]⟩

theorem setChecksum_ok {v : Int} (h : (Edit.setChecksum v).run p = (.ok (), q)) :
    ∃ s, p.checksumStart = .ok s ∧ s + 2 ≤ p.length ∧
      q = { p with bytes := p.bytes.overwrite s (Bytes.ofWord (v % 65536).toNat) } := by
  simp only [Edit.setChecksum, Edit.run_bind, Edit.run_read, Edit.run_checkWritable] at h
  cases hs : p.checksumStart with
  | error e => rw [hs] at h; cases h
  | ok s =>
    rw [hs] at h
    cases hw : p.writable
    · simp only [hw] at h; cases h
    · simp only [hw, if_true] at h
      unfold span at h
      by_cases hl : p.length < s + 2
      · rw [if_pos hl] at h; cases h
      · rw [if_neg hl] at h
        simp only [Edit.run_writeSpan, Prod.mk.injEq] at h
        exact ⟨s, rfl, Nat.not_lt.mp hl, by rw [← h.2, hw]⟩

theorem wordOf_ofWord {n : Nat} (h : n < 65536) : wordOf (Bytes.ofWord n) = n := by
  simp only [wordOf, Bytes.ofWord, Bytes.word, List.getD_cons_zero, List.getD_cons_succ,
    UInt8.toNat_ofNat']
  omega

theorem wordOf_ofWord_mod (v : Int) : wordOf (Bytes.ofWord (v % 65536).toNat) = (v % 65536).toNat :=
  wordOf_ofWord (by omega)

theorem header_of_idLength {l : Nat} (h : p.idLength = .ok l) :
    ∃ b0 b1 b2 rest, p.bytes = b0 :: b1 :: b2 :: rest ∧ Header.idLength b2 = l ∧ l ≠ 0 := by
  match hb : p.bytes with
  | b0 :: b1 :: b2 :: rest =>
    rw [idLength_eq hb] at h
    split at h
    · cases h
    · cases h
      exact ⟨b0, b1, b2, rest, rfl, rfl, by assumption⟩
  | [] | [_] | [_, _] => simp [idLength, idLengthRaw, byte, hb] at h

/-- A span written from byte `s` on changes nothing else. -/
theorem changesOnly_overwrite {s : Nat} {w : Bytes} (hs : s + w.length ≤ p.length) :
    ChangesOnly s w.length p { p with bytes := p.bytes.overwrite s w } :=
  ⟨fun _ hi => Bytes.getD_overwrite hs hi, Bytes.length_overwrite p.bytes s w, rfl⟩

/-- A span written from byte `s` on reads back. -/
theorem span_overwrite {s : Nat} {w : Bytes} (hs : s + w.length ≤ p.length) :
    ({ p with bytes := p.bytes.overwrite s w } : Packet).span s (s + w.length) = .ok w := by
  rw [span_of_le (by simpa [Packet.length, Bytes.length_overwrite] using hs),
    Bytes.slice_overwrite hs]

theorem span_ofWord {s n : Nat} (hs : s + 2 ≤ p.length) :
    ({ p with bytes := p.bytes.overwrite s (Bytes.ofWord n) } : Packet).span s (s + 2) =
      .ok (Bytes.ofWord n) :=
  span_overwrite hs

theorem setOffsetRaw_sets {v : Int} (h : (Edit.setOffsetRaw v).run p = (.ok (), q)) :
    ∃ l, p.idLength = .ok l ∧ ChangesOnly (3 + l) 2 p q ∧
      q.offsetRaw = .ok (some (v % 65536).toNat) := by
  obtain ⟨l, ho, hl, hlen, rfl⟩ := setOffsetRaw_ok h
  obtain ⟨b0, b1, b2, rest, hp, rfl, hid⟩ := header_of_idLength hl
  have hroom : 3 + Header.idLength b2 + 2 ≤ p.length := by omega
  refine ⟨_, hl, changesOnly_overwrite (w := Bytes.ofWord _) hroom, ?_⟩
  -- the header is kept, so the flag and the identifier length still place the word at `3 + l`
  have hq := Bytes.overwrite_header (s := 3 + Header.idLength b2) (Bytes.ofWord (v % 65536).toNat)
    hp (Nat.le_add_right 3 _)
  rw [offset_eq hp, Except.ok.injEq] at ho
  rw [offsetRaw_span (p := { p with
      bytes := p.bytes.overwrite (3 + Header.idLength b2) (Bytes.ofWord (v % 65536).toNat) })
    hq hid ho, span_ofWord hroom]
  exact congrArg (fun n => (.ok (some n) : Except Fault (Option Nat))) (wordOf_ofWord_mod v)

theorem idLength_of_checksumStart {s : Nat} (h : p.checksumStart = .ok s) :
    ∃ l, p.idLength = .ok l := by
  cases hl : p.idLength with
  | ok l => exact ⟨l, rfl⟩
  | error e => simp only [checksumStart, payloadStart, hl, error_bind] at h; cases h

theorem setChecksum_sets {v : Int} (h : (Edit.setChecksum v).run p = (.ok (), q)) :
    ∃ s, p.checksumStart = .ok s ∧ ChangesOnly s 2 p q ∧
      q.checksum = .ok (v % 65536).toNat := by
  obtain ⟨s, hs, hlen, rfl⟩ := setChecksum_ok h
  obtain ⟨l, hl⟩ := idLength_of_checksumStart hs
  obtain ⟨b0, b1, b2, rest, hp, rfl, hid⟩ := header_of_idLength hl
  rw [checksumStart_eq hp hid, Except.ok.injEq] at hs
  subst hs
  refine ⟨_, checksumStart_eq hp hid, changesOnly_overwrite (w := Bytes.ofWord _) hlen, ?_⟩
  -- the header is kept, so the checksum is still read where it was written
  have hq := Bytes.overwrite_header (s := crcStart b0 b1 b2) (Bytes.ofWord (v % 65536).toNat)
    hp (by simp only [crcStart]; omega)
  rw [checksum_span (p := { p with
      bytes := p.bytes.overwrite (crcStart b0 b1 b2) (Bytes.ofWord (v % 65536).toNat) }) hq hid,
    span_ofWord hlen]
  exact congrArg (fun n => (.ok n : Except Fault Nat)) (wordOf_ofWord_mod v)

/-! ## Every setter changes only its own bits -/

theorem header_of_three_le (h : 3 ≤ p.length) :
    ∃ b0 b1 b2 rest, p.bytes = b0 :: b1 :: b2 :: rest := by
  match hb : p.bytes with
  | b0 :: b1 :: b2 :: rest => exact ⟨b0, b1, b2, rest, rfl⟩
  | [] | [_] | [_, _] => simp [Packet.length, hb] at h

/-- Each header setter sets its own field and changes no bit outside its mask. -/
theorem header_setters_change_only_their_bits (hw : p.writable = true) (h3 : 3 ≤ p.length) :
    (∀ v : Int, 0 ≤ v → v ≤ 1023 →
      ∃ q, (Edit.setDataLength v).run p = (.ok (), q) ∧ SetsField .dataLength v.toNat p q) ∧
    (∀ c : Int, 0 ≤ c → c ≤ 15 →
      ∃ q, (Edit.setTypeCode c).run p = (.ok (), q) ∧ SetsField .typeCode c.toNat p q) ∧
    (∀ b : Bool,
      ∃ q, (Edit.setInternal b).run p = (.ok (), q) ∧ SetsField .internal b.toNat p q) ∧
    (∀ b : Bool,
      ∃ q, (Edit.setOffset b).run p = (.ok (), q) ∧ SetsField .offset b.toNat p q) ∧
    (∀ v : IntArg, 1 ≤ v.toInt → v.toInt ≤ 15 →
      ∃ q, (Edit.setIdLength v).run p = (.ok (), q) ∧ SetsField .idLength v.toInt.toNat p q) ∧
    (∀ b : Bool,
      ∃ q, (Edit.setResponse b).run p = (.ok (), q) ∧ SetsField .response b.toNat p q) ∧
    (∀ v : Int,
      ∃ q, (Edit.setAcknum v).run p = (.ok (), q) ∧ SetsField .acknum (v % 8).toNat p q) ∧
    (∀ v q, (Edit.setOffsetRaw v).run p = (.ok (), q) →
      ∃ l, p.idLength = .ok l ∧ ChangesOnly (3 + l) 2 p q ∧
        q.offsetRaw = .ok (some (v % 65536).toNat)) ∧
    (∀ v q, (Edit.setChecksum v).run p = (.ok (), q) →
      ∃ s, p.checksumStart = .ok s ∧ ChangesOnly s 2 p q ∧ q.checksum = .ok (v % 65536).toNat) := by
  obtain ⟨b0, b1, b2, rest, hp⟩ := header_of_three_le h3
  refine ⟨fun v h0 h1 => ⟨_, run_setDataLength_ok hp hw h0 h1, setsField_dataLength hp h0 h1⟩,
    fun c h0 h15 => ⟨_, run_setTypeCode hp hw h0 h15, setsField_putField (by decide) hp ?_⟩,
    fun b => ⟨_, run_setFlag hp hw .internal b rfl,
      setsField_putField (by decide) hp (Bool.toNat_lt b)⟩,
    fun b => ⟨_, run_setFlag hp hw .offset b rfl,
      setsField_putField (by decide) hp (Bool.toNat_lt b)⟩,
    fun v h1 h15 => ⟨_, run_setIdLength hp hw h1 h15, setsField_putField (by decide) hp ?_⟩,
    fun b => ⟨_, run_setFlag hp hw .response b rfl,
      setsField_putField (by decide) hp (Bool.toNat_lt b)⟩,
    fun v => ⟨_, run_setAcknum hp hw v, setsField_putField (by decide) hp ?_⟩,
    fun _ _ h => setOffsetRaw_sets h, fun _ _ h => setChecksum_sets h⟩
  all_goals simp only [Field.range]; omega

/-- Setting the acknowledgement number to `-1` sets it to `7` and keeps every other bit. -/
theorem header_setters_change_only_their_bits_negative_acknum :
    let p : Packet := ⟨[0x12, 0x34, 0x56], true⟩
    (p.writable = true ∧ 3 ≤ p.length) ∧
      ∃ q, (Edit.setAcknum (-1)).run p = (.ok (), q) ∧ SetsField .acknum 7 p q := by
  intro p
  have hw : p.writable = true := rfl
  have h3 : 3 ≤ p.length := by decide
  exact ⟨⟨hw, h3⟩, (header_setters_change_only_their_bits hw h3).2.2.2.2.2.2.1 (-1)⟩

end PacketLink.Packet
