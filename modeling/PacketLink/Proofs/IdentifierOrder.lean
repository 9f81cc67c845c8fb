import PacketLink.MessageId
/-! # The order of message identifiers

Identifiers compare as their bytes do. Equality is equality of bytes, also against plain bytes,
and the order is the lexicographic one: a proper prefix comes first, and otherwise the first
byte where two strings differ decides. The comparisons `≤`, `>` and `≥`, derived from `<` and
`=`, agree with that order, so exactly one of `<`, `=` and `>` holds. Against text, equality is
false and every ordering is refused. Sorting puts identifiers in ascending byte order and keeps
duplicates. Identifiers hash as their bytes, so a hash set of them keeps the first occurrence of
each different identifier, and there are as many of those as different byte strings.
-/
namespace PacketLink

/-- `x` comes before `y` in lexicographic byte order: `x` is a proper prefix of `y`, or at the
first index where they differ the byte of `x` is smaller. -/
def LexBefore (x y : Bytes) : Prop :=
  (x = y.take x.length ∧ x.length < y.length) ∨
    ∃ i, ∃ (h₁ : i < x.length) (h₂ : i < y.length), (∀ j (hj : j < i), x[j] = y[j]) ∧ x[i] < y[i]

theorem lt_iff_lexBefore {x y : Bytes} : x < y ↔ LexBefore x y := List.lt_iff_exists

instance (x y : Bytes) : Decidable (LexBefore x y) := decidable_of_iff _ lt_iff_lexBefore

example : LexBefore [0x61] [0x61, 0x00] ∧ LexBefore [0x00, 0xFF] [0x61] ∧
    ¬LexBefore [0x61] [0x61] := by decide

namespace LexBefore

variable {x y z : Bytes}

theorem irrefl (x : Bytes) : ¬LexBefore x x := fun h => List.lt_irrefl x (lt_iff_lexBefore.2 h)

theorem asymm (h : LexBefore x y) : ¬LexBefore y x := fun h' =>
  List.lt_asymm (lt_iff_lexBefore.2 h) (lt_iff_lexBefore.2 h')

theorem trans (h : LexBefore x y) (h' : LexBefore y z) : LexBefore x z :=
  lt_iff_lexBefore.1 (List.lt_trans (lt_iff_lexBefore.2 h) (lt_iff_lexBefore.2 h'))

/-- Two byte strings that do not come one before the other in either order are equal. -/
theorem not_iff (x y : Bytes) : ¬LexBefore x y ↔ LexBefore y x ∨ y = x := by
  rw [← lt_iff_lexBefore, ← lt_iff_lexBefore, List.not_lt, List.le_iff_lt_or_eq]

theorem not_and_ne_iff (x y : Bytes) : ¬LexBefore x y ∧ ¬x = y ↔ LexBefore y x := by
  rw [not_iff]
  constructor
  · rintro ⟨h | h, hne⟩
    · exact h
    · exact absurd h.symm hne
  · intro h
    refine ⟨.inl h, fun he => ?_⟩
    subst he
    exact irrefl x h

/-- Exactly one of `x` before `y`, `x = y`, and `y` before `x`. -/
theorem trichotomy (x y : Bytes) :
    (decide (LexBefore x y)).toNat + (decide (x = y)).toNat + (decide (LexBefore y x)).toNat = 1 := by
  by_cases hxy : LexBefore x y
  · have hyx := asymm hxy
    have hne : x ≠ y := fun he => irrefl x (he ▸ hxy)
    simp [hxy, hyx, hne]
  · rcases (not_iff x y).1 hxy with hyx | rfl
    · have hne : x ≠ y := fun he => irrefl x (he ▸ hyx)
      simp [hxy, hyx, hne]
    · simp [hxy]

/-! The library's order on byte strings, as its comparisons compute it. -/

theorem decide_lt (x y : Bytes) : decide (x < y) = decide (LexBefore x y) := by
  simp only [lt_iff_lexBefore]

theorem decide_lt_or_eq (x y : Bytes) :
    (decide (x < y) || decide (x = y)) = decide (LexBefore x y ∨ x = y) := by
  simp only [lt_iff_lexBefore, Bool.decide_or]

/-- Neither before nor equal is after. -/
theorem decide_not_lt_and_ne (x y : Bytes) :
    (!decide (x < y) && !decide (x = y)) = decide (LexBefore y x) := by
  rw [Bool.eq_iff_iff]
  simp only [Bool.and_eq_true, Bool.not_eq_true', decide_eq_false_iff_not, decide_eq_true_eq,
    lt_iff_lexBefore]
  exact not_and_ne_iff x y

/-- Not before is after or equal. -/
theorem decide_not_lt (x y : Bytes) : (!decide (x < y)) = decide (LexBefore y x ∨ x = y) := by
  rw [Bool.eq_iff_iff]
  simp only [Bool.not_eq_true', decide_eq_false_iff_not, decide_eq_true_eq, lt_iff_lexBefore]
  rw [not_iff, eq_comm]

end LexBefore

namespace MessageId

variable {a m : MessageId} {b c : Operand} {bs : Bytes}

/-! ## Comparisons with identifiers and plain bytes -/

/-- Against an identifier or plain bytes, the six comparisons as `<` and `=` on the bytes
give them. -/
theorem compareWith_of_bytes (hb : b.bytes? = some bs) :
    a.compareWith b =
      { eq := decide (a.bytes = bs), ne := !decide (a.bytes = bs),
        lt := .ok (decide (a.bytes < bs)), le := .ok (decide (a.bytes < bs) || decide (a.bytes = bs)),
        gt := .ok (!decide (a.bytes < bs) && !decide (a.bytes = bs)),
        ge := .ok (!decide (a.bytes < bs)) } := by
  simp [compareWith, hb, Except.map, eq_comm]

/-- The comparisons that the byte order gives `x` against `y`: `=` as equality of bytes, and
`<`, `≤`, `>` and `≥` in lexicographic order. -/
def Comparison.ofBytes (x y : Bytes) : Comparison where
  eq := decide (x = y)
  ne := !decide (x = y)
  lt := .ok (decide (LexBefore x y))
  le := .ok (decide (LexBefore x y ∨ x = y))
  gt := .ok (decide (LexBefore y x))
  ge := .ok (decide (LexBefore y x ∨ x = y))

theorem compareWith_eq_ofBytes (hb : b.bytes? = some bs) :
    a.compareWith b = .ofBytes a.bytes bs := by
  rw [compareWith_of_bytes hb, Comparison.ofBytes, LexBefore.decide_lt_or_eq,
    LexBefore.decide_not_lt_and_ne, LexBefore.decide_not_lt, LexBefore.decide_lt]

/-- Exactly one of `a < b`, `a == b` and `a > b` holds. -/
theorem compareWith_trichotomy (hb : b.bytes? = some bs) :
    ∃ l g, (a.compareWith b).lt = .ok l ∧ (a.compareWith b).gt = .ok g ∧
      l.toNat + (a.compareWith b).eq.toNat + g.toNat = 1 := by
  rw [compareWith_eq_ofBytes hb]
  exact ⟨_, _, rfl, rfl, LexBefore.trichotomy a.bytes bs⟩

theorem compareWith_lt_trans (h : (a.compareWith (.id m)).lt = .ok true)
    (h' : (m.compareWith c).lt = .ok true) : (a.compareWith c).lt = .ok true := by
  cases hc : c.bytes? with
  | none => simp [compareWith, hc] at h'
  | some cs =>
    rw [compareWith_eq_ofBytes rfl] at h
    rw [compareWith_eq_ofBytes hc] at h' ⊢
    simp only [Comparison.ofBytes, Except.ok.injEq, decide_eq_true_iff] at h h' ⊢
    exact h.trans h'

/-! ## Comparisons with text -/

theorem compareWith_text (s : Text.CodePoints) :
    a.compareWith (.text s) = ⟨false, true, .error .unordered, .error .unordered,
      .error .unordered, .error .unordered⟩ := rfl

/-! ## Sorting and counting -/

theorem le_iff (a m : MessageId) : a ≤ m ↔ LexBefore a.bytes m.bytes ∨ a.bytes = m.bytes := by
  show a.bytes ≤ m.bytes ↔ _
  rw [List.le_iff_lt_or_eq, lt_iff_lexBefore]

theorem sort_sorted (ms : List MessageId) :
    (sort ms).Pairwise fun x y => LexBefore x.bytes y.bytes ∨ x.bytes = y.bytes := by
  have h := @List.pairwise_mergeSort _ (fun a b => decide (a ≤ b))
    (fun a b c hab hbc => by
      simp only [decide_eq_true_eq, le_iff] at hab hbc ⊢
      rcases hab with hab | hab <;> rcases hbc with hbc | hbc
      · exact .inl (hab.trans hbc)
      · exact .inl (hbc ▸ hab)
      · exact .inl (hab ▸ hbc)
      · exact .inr (hab.trans hbc))
    (fun a b => by
      simp only [Bool.or_eq_true, decide_eq_true_eq]
      exact List.le_total a.bytes b.bytes)
    ms
  exact h.imp fun hab => (le_iff _ _).1 (of_decide_eq_true hab)

theorem sort_perm (ms : List MessageId) : (sort ms).Perm ms := List.mergeSort_perm ms _

/-- Deduplicating commutes with an injective map. -/
theorem eraseDups_map {α β : Type} [BEq α] [LawfulBEq α] [BEq β] [LawfulBEq β] {f : α → β}
    (hf : Function.Injective f) : ∀ l : List α, (l.map f).eraseDups = l.eraseDups.map f
  | [] => rfl
  | x :: r => by
    have hp : (fun y => !f y == f x) = fun y => !y == x := by
      funext y
      rw [Bool.not_inj_iff, Bool.eq_iff_iff, beq_iff_eq, beq_iff_eq, hf.eq_iff]
    have ih := eraseDups_map hf (r.filter fun y => !y == x)
    rw [List.map_cons, List.eraseDups_cons, List.eraseDups_cons, List.map_cons, List.filter_map]
    simp only [Function.comp_def, hp, ih]
termination_by l => l.length
decreasing_by exact Nat.lt_succ_of_le (List.length_filter_le _ _)

theorem bytes_injective : Function.Injective MessageId.bytes := by
  intro a m h
  cases a
  cases m
  cases h
  rfl

/-! ## Hash sets of identifiers -/

/-- Equal identifiers hash alike, so the hash set finds a member exactly when it is there. -/
theorem any_hashed_iff_mem {s : List MessageId} {m : MessageId} :
    s.any (fun x => hash x == hash m && x == m) = true ↔ m ∈ s := by
  simp only [List.any_eq_true, Bool.and_eq_true, beq_iff_eq]
  constructor
  · rintro ⟨x, hx, -, rfl⟩
    exact hx
  · intro hm
    exact ⟨m, hm, rfl, rfl⟩

theorem insertHashed_eq (s : List MessageId) (m : MessageId) :
    insertHashed s m = if m ∈ s then s else s ++ [m] := by
  by_cases hm : m ∈ s
  · rw [insertHashed, if_pos (any_hashed_iff_mem.2 hm), if_pos hm]
  · rw [insertHashed, if_neg (mt any_hashed_iff_mem.1 hm), if_neg hm]

theorem removeAll_concat (r s : List MessageId) (m : MessageId) :
    r.removeAll (s ++ [m]) = (r.removeAll s).filter fun x => !x == m := by
  simp only [List.removeAll, List.filter_filter, List.elem_eq_mem, List.mem_append,
    List.mem_singleton]
  congr 1
  funext x
  by_cases hx : x = m <;> simp [hx]

/-- The hash set built from `ms` on top of `s` holds `s`, then the first occurrence of each
identifier of `ms` that `s` lacks. -/
theorem foldl_insertHashed (ms s : List MessageId) :
    ms.foldl insertHashed s = s ++ (ms.removeAll s).eraseDups := by
  -- induction on the identifiers still to insert, over every set built so far
  induction ms generalizing s with
  | nil => simp
  | cons m r ih =>
    rw [List.foldl_cons, insertHashed_eq, List.cons_removeAll]
    by_cases hm : m ∈ s
    · rw [if_pos hm, ih, if_neg (by simpa using hm)]
    · rw [if_neg hm, ih, if_pos (by simpa using hm), List.eraseDups_cons, removeAll_concat,
        List.append_assoc, List.singleton_append]

/-- The hash set of a list counts each different identifier once. -/
theorem distinct_eq (ms : List MessageId) : distinct ms = ms.eraseDups.length := by
  rw [distinct, foldl_insertHashed, List.removeAll_nil, List.nil_append]

/-- A list holds as many different identifiers as different byte strings. -/
theorem length_eraseDups_bytes (ms : List MessageId) :
    ms.eraseDups.length = (ms.map MessageId.bytes).eraseDups.length := by
  rw [eraseDups_map bytes_injective, List.length_map]

/-- Identifiers compare, sort and count as their bytes do. -/
theorem compareWith_follows_byte_order (a : MessageId) :
    (∀ (b : Operand) (bs : Bytes), b.bytes? = some bs →
      a.compareWith b = .ofBytes a.bytes bs ∧
      ∃ l g, (a.compareWith b).lt = .ok l ∧ (a.compareWith b).gt = .ok g ∧
        l.toNat + (a.compareWith b).eq.toNat + g.toNat = 1) ∧
    (∀ (m : MessageId) (c : Operand), (a.compareWith (.id m)).lt = .ok true →
      (m.compareWith c).lt = .ok true → (a.compareWith c).lt = .ok true) ∧
    (∀ s, a.compareWith (.text s) = ⟨false, true, .error .unordered, .error .unordered,
      .error .unordered, .error .unordered⟩) ∧
    (∀ ms, ((sort ms).Pairwise fun x y => LexBefore x.bytes y.bytes ∨ x.bytes = y.bytes) ∧
      (sort ms).Perm ms ∧ distinct ms = ms.eraseDups.length ∧
      ms.eraseDups.length = (ms.map MessageId.bytes).eraseDups.length) :=
  ⟨fun _ _ hb => ⟨compareWith_eq_ofBytes hb, compareWith_trichotomy hb⟩,
    fun _ _ => compareWith_lt_trans, compareWith_text,
    fun ms => ⟨sort_sorted ms, sort_perm ms, distinct_eq ms, length_eraseDups_bytes ms⟩⟩

theorem compareWith_follows_byte_order_prefix :
    (Operand.bytes [0x61, 0x00]).bytes? = some [0x61, 0x00] ∧
      (⟨[0x61], by decide⟩ : MessageId).compareWith (.bytes [0x61, 0x00]) =
        .ofBytes [0x61] [0x61, 0x00] ∧
      ∃ l g, ((⟨[0x61], by decide⟩ : MessageId).compareWith (.bytes [0x61, 0x00])).lt = .ok l ∧
        ((⟨[0x61], by decide⟩ : MessageId).compareWith (.bytes [0x61, 0x00])).gt = .ok g ∧
        l.toNat + ((⟨[0x61], by decide⟩ : MessageId).compareWith (.bytes [0x61, 0x00])).eq.toNat +
          g.toNat = 1 :=
  ⟨rfl, (compareWith_follows_byte_order ⟨[0x61], by decide⟩).1 _ _ rfl⟩

end MessageId

end PacketLink
