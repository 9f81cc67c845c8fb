import PacketLink.Proofs.PacketCheck
import PacketLink.Scalar
/-! # Typed payloads of integers and characters

The integer kinds hold exactly the integers of their bounds, each in `size` little-endian bytes:
the integer modulo `256 ^ size`, which for a negative one is its two's complement. The character
kind holds single bytes. For these kinds packing and unpacking are inverse: packing succeeds
exactly when every value fits its kind, and then gives one element per value; unpacking refuses
exactly the payloads that are no whole number of elements, and gives back values that pack to the
same payload.
-/
namespace PacketLink

@[simp] theorem ok_map {ε α β : Type} (f : α → β) (a : α) :
    (f <$> (Except.ok a : Except ε α)) = .ok (f a) :=
  rfl

@[simp] theorem error_map {ε α β : Type} (f : α → β) (x : ε) :
    (f <$> (Except.error x : Except ε α)) = .error x :=
  rfl

@[simp] theorem ok_pure {ε α : Type} (a : α) : (pure a : Except ε α) = .ok a := rfl

namespace Bytes

theorem length_ofNatLE (k v : Nat) : (ofNatLE k v).length = k := by simp [ofNatLE]

/-- Byte `i + 1` of `v` is byte `i` of `v / 256`. -/
theorem ofNatLE_succ (k v : Nat) : ofNatLE (k + 1) v = UInt8.ofNat v :: ofNatLE k (v / 256) := by
  simp only [ofNatLE, List.range_succ_eq_map, List.map_cons, List.map_map]
  congr 1
  · show UInt8.ofNat (v / 1) = _
    rw [Nat.div_one]
  · apply List.map_congr_left
    intro i _
    show UInt8.ofNat (v / (Nat.pow 256 i * 256)) = UInt8.ofNat (v / 256 / Nat.pow 256 i)
    rw [Nat.div_div_eq_div_mul, Nat.mul_comm]

theorem toNatLE_cons (b : UInt8) (bs : Bytes) : toNatLE (b :: bs) = b.toNat + 256 * toNatLE bs :=
  rfl

theorem toNatLE_lt (c : Bytes) : c.toNatLE < Nat.pow 256 c.length := by
  induction c with
  | nil => decide
  | cons b r ih =>
    have hb := b.toNat_lt
    rw [toNatLE_cons]
    show _ < Nat.pow 256 r.length * 256
    omega

theorem toNatLE_ofNatLE (k v : Nat) : (ofNatLE k v).toNatLE = v % Nat.pow 256 k := by
  induction k generalizing v with
  | zero => exact (Nat.mod_one v).symm
  | succ k ih =>
    rw [ofNatLE_succ, toNatLE_cons, ih, UInt8.toNat_ofNat']
    show v % 256 + 256 * (v / 256 % Nat.pow 256 k) = v % (Nat.pow 256 k * 256)
    rw [Nat.mul_comm (Nat.pow 256 k) 256, Nat.mod_mul]

theorem ofNatLE_toNatLE (c : Bytes) : ofNatLE c.length c.toNatLE = c := by
  induction c with
  | nil => rfl
  | cons b r ih =>
    have hb := b.toNat_lt
    have hlow : UInt8.ofNat (b.toNat + 256 * toNatLE r) = b := by
      apply UInt8.toNat_inj.1
      rw [UInt8.toNat_ofNat']
      show (b.toNat + 256 * toNatLE r) % 256 = b.toNat
      omega
    have hhigh : (b.toNat + 256 * toNatLE r) / 256 = toNatLE r := by omega
    rw [List.length_cons, ofNatLE_succ, toNatLE_cons, hlow, hhigh, ih]

/-- Cutting a byte string past a first part of length `s` cuts the rest. -/
theorem slice_append_of_length {c r : Bytes} {s : Nat} (hc : c.length = s) (x y : Nat) :
    (c ++ r).slice (s + x) (s + y) = r.slice x y := by
  subst hc
  simp only [slice, List.take_length_add_append, List.drop_length_add_append]

end Bytes

/-! ## Chunks of equal length -/

section Chunks

variable {s : Nat} {cs : List Bytes}

theorem length_flatten_of_length (hcs : ∀ c ∈ cs, c.length = s) : cs.flatten.length = cs.length * s := by
  induction cs with
  | nil => simp
  | cons c r ih =>
    rw [List.flatten_cons, List.length_append, hcs c List.mem_cons_self,
      ih fun d hd => hcs d (List.mem_cons_of_mem c hd), List.length_cons, Nat.succ_mul, Nat.add_comm]

/-- Reading the `i`-th piece of `s` bytes out of the concatenation gives back the `i`-th chunk. -/
theorem map_slices_flatten {α : Type} (f : Bytes → α) (hcs : ∀ c ∈ cs, c.length = s) :
    (List.range cs.length).map (fun i => f (Bytes.slice cs.flatten (i * s) (i * s + s))) = cs.map f := by
  induction cs with
  | nil => rfl
  | cons c r ih =>
    have hc := hcs c List.mem_cons_self
    rw [List.length_cons, List.range_succ_eq_map, List.map_cons, List.map_map, List.flatten_cons,
      List.map_cons, ← ih fun d hd => hcs d (List.mem_cons_of_mem c hd)]
    congr 1
    · rw [Nat.zero_mul, Nat.zero_add, Bytes.slice, List.drop_zero, ← hc, List.take_left' rfl]
    · apply List.map_congr_left
      intro i _
      show f (Bytes.slice (c ++ r.flatten) ((i + 1) * s) ((i + 1) * s + s)) = _
      have hi : (i + 1) * s = s + i * s := by rw [Nat.succ_mul, Nat.add_comm]
      rw [hi, Nat.add_assoc, Bytes.slice_append_of_length hc]

/-- A byte string of `k` pieces of `s` bytes is the concatenation of `k` chunks of `s` bytes. -/
theorem exists_chunks : ∀ (k : Nat) (data : Bytes), data.length = k * s →
    ∃ cs : List Bytes, data = cs.flatten ∧ cs.length = k ∧ ∀ c ∈ cs, c.length = s
  | 0, data, h => ⟨[], List.eq_nil_of_length_eq_zero (by simpa using h), rfl, by simp⟩
  | k + 1, data, h => by
    have hs : s ≤ data.length := by rw [h, Nat.succ_mul]; omega
    obtain ⟨cs, hcs, hl, hc⟩ := exists_chunks k (data.drop s) (by
      rw [List.length_drop, h, Nat.succ_mul]; omega)
    refine ⟨data.take s :: cs, ?_, by rw [List.length_cons, hl], ?_⟩
    · rw [List.flatten_cons, ← hcs, List.take_append_drop]
    · intro c hm
      rcases List.mem_cons.1 hm with rfl | hm
      · rw [List.length_take]; omega
      · exact hc c hm

end Chunks

namespace Element

/-- The kinds whose elements hold their values exactly: all but the two float kinds. -/
def Exact (e : Element) : Prop := e ≠ float32 ∧ e ≠ float64

instance (e : Element) : Decidable e.Exact := inferInstanceAs (Decidable (_ ∧ _))

/-- The least and greatest integer of an integer kind. -/
def bounds : Element → Option (Int × Int)
  | byte | uint8 => some (0, 255)
  | int8 => some (-128, 127)
  | int16 => some (-32768, 32767)
  | uint16 => some (0, 65535)
  | int32 => some (-2147483648, 2147483647)
  | uint32 => some (0, 4294967295)
  | char | float32 | float64 => none

/-- The values an element of the kind holds exactly: an integer within its bounds, or for the
character kind a single byte. -/
def Holds (e : Element) (v : Scalar) : Prop :=
  match e.bounds, v with
  | some (lo, hi), .int n => lo ≤ n ∧ n ≤ hi
  | none, .bytes bs => e = char ∧ bs.length = 1
  | _, _ => False

/-- `c` is the element that holds `v`: `e.size` bytes that read little-endian as the integer
modulo `256 ^ e.size`, which is its two's complement when negative, or the single byte itself. -/
def Encodes (e : Element) (v : Scalar) (c : Bytes) : Prop :=
  e.Holds v ∧ c.length = e.size ∧
    match v with
    | .int n => (c.toNatLE : Int) = n % (Nat.pow 256 e.size : Int)
    | .bytes bs => c = bs
    | _ => False

theorem size_pos (e : Element) : 0 < e.size := by cases e <;> decide

variable {e : Element} {v : Scalar} {c : Bytes} {lo hi n : Int}

/-! ## Integer kinds -/

theorem pow_two_eq (k : Nat) : Int.pow 2 k = ((Nat.pow 2 k : Nat) : Int) := by
  induction k with
  | zero => rfl
  | succ k ih =>
    calc Int.pow 2 (k + 1) = Int.pow 2 k * 2 := rfl
      _ = ((Nat.pow 2 k : Nat) : Int) * 2 := by rw [ih]
      _ = ((Nat.pow 2 k * 2 : Nat) : Int) := by omega

theorem pack_int (h : e.bounds = some (lo, hi)) (n : Int) :
    e.pack (.int n) = if lo ≤ n ∧ n ≤ hi then
      .ok (Bytes.ofNatLE e.size (n % (Nat.pow 256 e.size : Int)).toNat) else .error .unpackable := by
  cases e <;> cases h <;> rfl

/-- An element of an integer kind reads as the unsigned number its bytes stand for, less
`256 ^ size` when that lies above the kind's bounds. -/
theorem unpack_int (h : e.bounds = some (lo, hi)) (hc : c.length = e.size) :
    e.unpack c = .int (if (c.toNatLE : Int) ≤ hi then c.toNatLE else c.toNatLE - Nat.pow 256 e.size) := by
  have hlt := c.toNatLE_lt
  rw [hc] at hlt
  cases e <;> cases h <;>
    simp only [unpack, signed?, size, pow_two_eq, Nat.pow_eq, Nat.reducePow, Nat.reduceMul,
      Nat.reduceSub, Option.some.injEq, Bool.false_eq_true, false_and, true_and, ↓reduceIte] at hlt ⊢
  -- an unsigned kind: its bytes stand for a number within the bounds
  case byte.refl | uint8.refl | uint16.refl | uint32.refl => rw [if_pos (by omega)]
  -- a signed kind: the numbers from half the range up stand for negative ones
  all_goals split <;> simp only [Scalar.int.injEq] <;> split <;> omega

/-- The residue of a value within the bounds, `256 ^ size` less when above them, is the value. -/
theorem reading_of_residue (h : e.bounds = some (lo, hi)) (hn : lo ≤ n ∧ n ≤ hi) {x : Nat}
    (hx : (x : Int) = n % (Nat.pow 256 e.size : Int)) :
    x < Nat.pow 256 e.size ∧ (if (x : Int) ≤ hi then (x : Int) else x - Nat.pow 256 e.size) = n := by
  cases e <;> cases h <;> simp only [size, Nat.pow_eq, Nat.reducePow] at hx ⊢ <;>
    refine ⟨by omega, ?_⟩ <;> split <;> omega

/-- The reading of bytes of an integer kind lies within its bounds, and its residue is the number
the bytes stand for. -/
theorem residue_of_reading (h : e.bounds = some (lo, hi)) {x : Nat} (hx : x < Nat.pow 256 e.size) :
    lo ≤ (if (x : Int) ≤ hi then (x : Int) else x - Nat.pow 256 e.size) ∧
      (if (x : Int) ≤ hi then (x : Int) else x - Nat.pow 256 e.size) ≤ hi ∧
      ((if (x : Int) ≤ hi then (x : Int) else x - Nat.pow 256 e.size) %
        (Nat.pow 256 e.size : Int)).toNat = x := by
  cases e <;> cases h <;> simp only [size, Nat.pow_eq, Nat.reducePow] at hx ⊢ <;> split <;> omega

theorem pack_unpack_int (h : e.bounds = some (lo, hi)) (hc : c.length = e.size) :
    e.pack (e.unpack c) = .ok c := by
  have hlt := c.toNatLE_lt
  rw [hc] at hlt
  obtain ⟨hlo, hhi, hres⟩ := residue_of_reading h hlt
  rw [unpack_int h hc, pack_int h, if_pos ⟨hlo, hhi⟩, hres, ← hc, Bytes.ofNatLE_toNatLE]

/-! ## Every exact kind -/

theorem eq_char_of_bounds (he : e.Exact) (hb : e.bounds = none) : e = char := by
  cases e
  case char => rfl
  case float32 => exact absurd rfl he.1
  case float64 => exact absurd rfl he.2
  all_goals cases hb

theorem pack_of_holds (hv : e.Holds v) : ∃ c, e.pack v = .ok c ∧ e.Encodes v c := by
  rcases hb : e.bounds with _ | ⟨lo, hi⟩ <;> cases v <;> simp only [Holds, hb] at hv
  case some.int n =>
    refine ⟨_, (pack_int hb n).trans (if_pos hv), by simp only [Holds, hb]; exact hv,
      Bytes.length_ofNatLE _ _, ?_⟩
    have hM : 0 < Nat.pow 256 e.size := Nat.pow_pos (by decide)
    have hnn : 0 ≤ n % (Nat.pow 256 e.size : Int) := Int.emod_nonneg n (by omega)
    obtain ⟨hlt, -⟩ := reading_of_residue hb hv (Int.toNat_of_nonneg hnn)
    show ((Bytes.toNatLE _ : Nat) : Int) = _
    rw [Bytes.toNatLE_ofNatLE, Nat.mod_eq_of_lt hlt, Int.toNat_of_nonneg hnn]
  case none.bytes bs =>
    obtain ⟨rfl, hl⟩ := hv
    match bs, hl with
    | [b], _ => exact ⟨[b], rfl, by simp [Holds, hb], rfl, rfl⟩

theorem pack_of_not_holds (he : e.Exact) (hv : ¬e.Holds v) : e.pack v = .error .unpackable := by
  rcases hb : e.bounds with _ | ⟨lo, hi⟩
  · obtain rfl := eq_char_of_bounds he hb
    cases v with
    | bytes bs =>
      -- only a single byte is a character
      match bs, hv with
      | [], _ => rfl
      | [b], hv => exact absurd ⟨rfl, rfl⟩ hv
      | _ :: _ :: _, _ => rfl
    | _ => rfl
  · cases v with
    | int n =>
      rw [pack_int hb, if_neg]
      simpa only [Holds, hb] using hv
    | _ => cases e <;> cases hb <;> rfl

theorem unpack_of_encodes (h : e.Encodes v c) : e.unpack c = v := by
  obtain ⟨hv, hl, hc⟩ := h
  rcases hb : e.bounds with _ | ⟨lo, hi⟩ <;> cases v <;> simp only [Holds, hb] at hv
  case some.int n =>
    simp only at hc
    rw [unpack_int hb hl, (reading_of_residue hb hv hc).2]
  case none.bytes bs =>
    obtain ⟨rfl, -⟩ := hv
    simp only at hc
    rw [hc]
    rfl

theorem pack_unpack (he : e.Exact) (hc : c.length = e.size) : e.pack (e.unpack c) = .ok c := by
  rcases hb : e.bounds with _ | ⟨lo, hi⟩
  · obtain rfl := eq_char_of_bounds he hb
    match c, hc with
    | [b], _ => rfl
  · exact pack_unpack_int hb hc

end Element

/-! ## Payloads of many elements -/

namespace Element

variable {e : Element} {vs : List Scalar} {cs : List Bytes}

theorem mapM_pack_of_holds (h : ∀ v ∈ vs, e.Holds v) :
    ∃ cs : List Bytes, vs.mapM e.pack = .ok cs ∧ cs.length = vs.length ∧
      ∀ p ∈ vs.zip cs, e.Encodes p.1 p.2 := by
  induction vs with
  | nil => exact ⟨[], rfl, rfl, by simp⟩
  | cons v r ih =>
    obtain ⟨c, hc, hec⟩ := pack_of_holds (h v List.mem_cons_self)
    obtain ⟨cs, hcs, hl, henc⟩ := ih fun w hw => h w (List.mem_cons_of_mem v hw)
    refine ⟨c :: cs, ?_, by rw [List.length_cons, hl, List.length_cons], ?_⟩
    · simp only [List.mapM_cons, hc, hcs, ok_bind, ok_pure]
    · intro p hp
      rw [List.zip_cons_cons, List.mem_cons] at hp
      rcases hp with rfl | hp
      · exact hec
      · exact henc p hp

theorem mapM_pack_of_not_holds (he : e.Exact) (h : ¬∀ v ∈ vs, e.Holds v) :
    vs.mapM e.pack = .error .unpackable := by
  induction vs with
  | nil => exact absurd (fun v hv => absurd hv List.not_mem_nil) h
  | cons v r ih =>
    rw [List.mapM_cons]
    by_cases hv : e.Holds v
    · -- the first value that does not hold is refused
      have hr : ¬∀ w ∈ r, e.Holds w := fun hr => h fun w hw => by
        rcases List.mem_cons.1 hw with rfl | hw
        · exact hv
        · exact hr w hw
      obtain ⟨c, hc, -⟩ := pack_of_holds hv
      simp only [hc, ih hr, ok_bind, error_bind]
    · simp only [pack_of_not_holds he hv, error_bind]

/-- Elements that encode values have the kind's size and unpack to the values. -/
theorem unpack_of_zip (hl : cs.length = vs.length) (h : ∀ p ∈ vs.zip cs, e.Encodes p.1 p.2) :
    cs.map e.unpack = vs ∧ ∀ c ∈ cs, c.length = e.size := by
  induction vs generalizing cs with
  | nil => simp_all
  | cons v r ih =>
    match cs, hl with
    | c :: cs, hl =>
      have hvc : e.Encodes v c := h (v, c) (by simp)
      obtain ⟨hm, hlen⟩ := ih (Nat.succ.inj hl) fun p hp => h p (by simp [hp])
      refine ⟨by rw [List.map_cons, unpack_of_encodes hvc, hm], fun d hd => ?_⟩
      rcases List.mem_cons.1 hd with rfl | hd
      · exact hvc.2.1
      · exact hlen d hd

theorem mapM_pack_unpack (he : e.Exact) (hcs : ∀ c ∈ cs, c.length = e.size) :
    (cs.map e.unpack).mapM e.pack = .ok cs := by
  induction cs with
  | nil => rfl
  | cons c r ih =>
    simp only [List.map_cons, List.mapM_cons, pack_unpack he (hcs c List.mem_cons_self),
      ih fun d hd => hcs d (List.mem_cons_of_mem c hd), ok_bind, ok_pure]

end Element

namespace MessageType

variable {e : Element} {cs : List Bytes}

theorem wireSizeHint_typed (e : Element) : (typed e).wireSizeHint = e.size := rfl

theorem pack_typed (e : Element) (vs : List Scalar) :
    (typed e).pack vs = List.flatten <$> vs.mapM e.pack := rfl

theorem unpack_typed (e : Element) (data : Bytes) :
    (typed e).unpack data =
      if data.length % e.size ≠ 0 then .error (.payloadRagged (typed e) data.length e.size)
      else .ok ((List.range (data.length / e.size)).map fun i =>
        e.unpack (data.slice (i * e.size) (i * e.size + e.size))) := by
  simp only [unpack, wireSizeHint, element?, Option.map_some, Option.getD_some, e.size_pos, true_and,
    requireElement, ok_bind, ok_pure]

theorem unpack_flatten (hcs : ∀ c ∈ cs, c.length = e.size) :
    (typed e).unpack cs.flatten = .ok (cs.map e.unpack) := by
  rw [unpack_typed, length_flatten_of_length hcs, Nat.mul_mod_left, if_neg (fun h => h rfl),
    Nat.mul_div_cancel _ e.size_pos, map_slices_flatten _ hcs]

end MessageType

namespace Element

variable {e : Element}

/-- Packing with the kind `e` succeeds exactly when every value holds in an element: it then
gives one element per value, in order, as many bytes as the size hint says, and that payload
unpacks to the values. Any other list is refused as values the kind cannot hold. -/
def PacksExactly (e : Element) : Prop :=
  ∀ vs : List Scalar,
    ((∀ v ∈ vs, e.Holds v) →
      ∃ cs : List Bytes, (MessageType.typed e).pack vs = .ok cs.flatten ∧
        cs.length = vs.length ∧ (∀ p ∈ vs.zip cs, e.Encodes p.1 p.2) ∧
        (cs.flatten.length : Int) = (MessageType.typed e).arrayWireSizeHint vs.length ∧
        (MessageType.typed e).unpack cs.flatten = .ok vs) ∧
    (¬(∀ v ∈ vs, e.Holds v) → (MessageType.typed e).pack vs = .error .unpackable)

/-- Unpacking with the kind `e` refuses exactly the payloads that are no whole number of
elements. Any other payload gives as many values as the length hint says, which pack back to
it. -/
def UnpacksExactly (e : Element) : Prop :=
  ∀ data : Bytes,
    (data.length % e.size ≠ 0 ∧
      (MessageType.typed e).unpack data = .error (.payloadRagged (.typed e) data.length e.size)) ∨
    (data.length % e.size = 0 ∧ ∃ vs, (MessageType.typed e).unpack data = .ok vs ∧
      (vs.length : Int) = (MessageType.typed e).arrayWireLengthHint data.length ∧
      (MessageType.typed e).pack vs = .ok data)

theorem packsExactly (he : e.Exact) : e.PacksExactly := by
  intro vs
  constructor
  · intro h
    obtain ⟨cs, hcs, hl, henc⟩ := mapM_pack_of_holds h
    obtain ⟨hmap, hlen⟩ := unpack_of_zip hl henc
    refine ⟨cs, by rw [MessageType.pack_typed, hcs, ok_map], hl, henc, ?_, ?_⟩
    · rw [length_flatten_of_length hlen, hl, MessageType.arrayWireSizeHint,
        MessageType.wireSizeHint_typed, Int.natCast_mul]
    · rw [MessageType.unpack_flatten hlen, hmap]
  · intro h
    rw [MessageType.pack_typed, mapM_pack_of_not_holds he h, error_map]

theorem unpacksExactly (he : e.Exact) : e.UnpacksExactly := by
  intro data
  by_cases hm : data.length % e.size = 0
  · -- a whole number of elements: the payload is their concatenation
    obtain ⟨cs, rfl, hl, hcs⟩ := exists_chunks (data.length / e.size) data
      (Nat.div_mul_cancel (Nat.dvd_of_mod_eq_zero hm)).symm
    refine .inr ⟨hm, cs.map e.unpack, MessageType.unpack_flatten hcs, ?_, ?_⟩
    · rw [List.length_map, hl, MessageType.arrayWireLengthHint, MessageType.wireSizeHint_typed,
        if_neg (Nat.pos_iff_ne_zero.1 e.size_pos), ← Int.ofNat_fdiv]
    · rw [MessageType.pack_typed, mapM_pack_unpack he hcs, ok_map]
  · exact .inl ⟨hm, by rw [MessageType.unpack_typed, if_pos hm]⟩

/-- Typed payloads of the integer kinds and the character kind round-trip. -/
theorem typed_payloads_round_trip (e : Element) (he : e.Exact) :
    e.PacksExactly ∧ e.UnpacksExactly :=
  ⟨packsExactly he, unpacksExactly he⟩

theorem typed_payloads_round_trip_int16 :
    int16.Exact ∧ int16.PacksExactly ∧ int16.UnpacksExactly :=
  ⟨by decide, typed_payloads_round_trip .int16 (by decide)⟩

example : (MessageType.typed .int16).pack [.int (-32768), .int 32767] = .ok [0x00, 0x80, 0xFF, 0x7F] :=
  rfl

example : (MessageType.typed .uint32).pack [.int 4294967295, .int 4294967296] = .error .unpackable :=
  rfl

end Element

end PacketLink
