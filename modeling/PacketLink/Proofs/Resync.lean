import PacketLink.Proofs.DecoderShape
/-! # Resynchronisation

A rearmed decoder has forgotten everything about the bytes before it. A reset leaves the length
registers as they were, but each of them is written before it is read on every path through a
frame, so in each phase only some of them can be observed: two decoders that agree on those and
on the rest of their frame state give the same results on every stream. The counters are
determined by the results, so they rise alike. A decoder is rearmed when it is new, after a
delimiter or a reset, and after a byte that ends a frame with a packet or a packet error.
-/
namespace PacketLink.Stream

namespace Phase

/-- Whether the data length is read in this phase or a later one of the same frame before it is
written again. -/
def holdsDataLen : Phase → Bool
  | headerB1 | headerB2 | msgId | offsetB0 | offsetB1 | payload => true
  | _ => false

/-- Likewise for the offset flag. -/
def holdsOffset : Phase → Bool
  | headerB2 | msgId => true
  | _ => false

/-- Likewise for the identifier's length and the count of its bytes read. -/
def holdsId : Phase → Bool
  | msgId => true
  | _ => false

/-- Likewise for the count of payload bytes read. -/
def holdsDataRead : Phase → Bool
  | payload => true
  | _ => false

/-- Nothing need be known of a register that the phase does not hold. -/
theorem unheld {P : Prop} (h : false = true) : P := absurd h Bool.false_ne_true

end Phase

/-- Whether a result delivers a packet. -/
def Decoder.Result.delivers : Decoder.Result → Bool
  | .ok (some _) => true
  | _ => false

/-- Whether a result raises a packet error. -/
def Decoder.Result.rejects : Decoder.Result → Bool
  | .error e => e.raised.isPacketError
  | .ok _ => false

namespace Decoder

variable {d d₁ d₂ : Decoder} {b c : UInt8}

/-! ## The counters follow the results -/

theorem counts_parse (d : Decoder) (c : UInt8) :
    (d.parse c).1.count = d.count + (d.parse c).2.delivers.toNat ∧
      (d.parse c).1.invalidCount = d.invalidCount + (d.parse c).2.rejects.toNat := by
  by_cases h0 : d.phase = .frameOffset
  · rw [parse_frameOffset h0]; exact ⟨rfl, rfl⟩
  by_cases hfull : d.capacity ≤ d.stored.length
  · rw [parse_of_le h0 hfull]; exact ⟨rfl, rfl⟩
  by_cases h1 : d.phase = .crcB1
  · rw [parse_crcB1 h1 (Nat.lt_of_not_le hfull)]
    obtain ⟨-, -, -, hres, hcnt, hinv⟩ := finish_eq { d with stored := d.stored ++ [c] }
    rw [hres, hcnt, hinv]
    cases hn : Packet.new (d.stored ++ [c]) d.strict with
    | ok p => exact ⟨rfl, rfl⟩
    | error e =>
      have hp := Packet.new_error_isPacketError hn
      refine ⟨rfl, ?_⟩
      simp only [Result.rejects, Except.map, hp]
      rfl
  · obtain ⟨hr, hc⟩ := parse_of_lt (c := c) h0 h1 (Nat.lt_of_not_le hfull)
    rw [hr, hc.count, hc.invalidCount]
    exact ⟨rfl, rfl⟩

/-- A decoder counts a packet exactly when it delivers one, and an invalid packet exactly when it
raises a packet error. -/
theorem counts_decode (d : Decoder) (b : UInt8) :
    (d.decode b).1.count = d.count + (d.decode b).2.delivers.toNat ∧
      (d.decode b).1.invalidCount = d.invalidCount + (d.decode b).2.rejects.toNat := by
  by_cases hb : b = 0
  · subst hb; exact ⟨rfl, rfl⟩
  rw [decode_eq hb]
  cases (d.deframer.step b).1 with
  | none => exact ⟨rfl, rfl⟩
  | some c =>
    simp only [absorb]
    split
    · exact ⟨rfl, rfl⟩
    · exact counts_parse { d with deframer := (d.deframer.step b).2 } c

theorem counts_run (d : Decoder) (bs : Bytes) :
    (d.run bs).1.count = d.count + (d.run bs).2.countP Result.delivers ∧
      (d.run bs).1.invalidCount = d.invalidCount + (d.run bs).2.countP Result.rejects := by
  induction bs generalizing d with
  | nil => exact ⟨rfl, rfl⟩
  | cons b r ih =>
    obtain ⟨h1, h2⟩ := counts_decode d b
    obtain ⟨h3, h4⟩ := ih (d.decode b).1
    have e1 : (if (d.decode b).2.delivers then 1 else 0) = (d.decode b).2.delivers.toNat := by
      cases (d.decode b).2.delivers <;> rfl
    have e2 : (if (d.decode b).2.rejects then 1 else 0) = (d.decode b).2.rejects.toNat := by
      cases (d.decode b).2.rejects <;> rfl
    rw [run_cons, List.countP_cons, List.countP_cons]
    dsimp only
    exact ⟨by omega, by omega⟩

/-! ## Decoders that no stream tells apart -/

/-- Two decoders agree on everything later bytes read: the storage, the de-framing stage, the
phase, the stored bytes, the skip flag, and each length register that is live in the phase. -/
structure Agrees (d₁ d₂ : Decoder) : Prop where
  capacity : d₁.capacity = d₂.capacity
  strict : d₁.strict = d₂.strict
  deframer : d₁.deframer = d₂.deframer
  phase : d₁.phase = d₂.phase
  stored : d₁.stored = d₂.stored
  discarding : d₁.discarding = d₂.discarding
  dataLen : d₁.phase.holdsDataLen → d₁.dataLen = d₂.dataLen
  offset : d₁.phase.holdsOffset → d₁.offset = d₂.offset
  idLen : d₁.phase.holdsId → d₁.idLen = d₂.idLen
  idRead : d₁.phase.holdsId → d₁.idRead = d₂.idRead
  dataRead : d₁.phase.holdsDataRead → d₁.dataRead = d₂.dataRead

theorem Ready.agrees (h₁ : d₁.Ready) (h₂ : d₂.Ready) (hc : d₁.capacity = d₂.capacity)
    (hs : d₁.strict = d₂.strict) : Agrees d₁ d₂ where
  capacity := hc
  strict := hs
  deframer := h₁.deframer.trans h₂.deframer.symm
  phase := h₁.phase.trans h₂.phase.symm
  stored := h₁.stored.trans h₂.stored.symm
  discarding := h₁.discarding.trans h₂.discarding.symm
  dataLen := by rw [h₁.phase]; exact Phase.unheld
  offset := by rw [h₁.phase]; exact Phase.unheld
  idLen := by rw [h₁.phase]; exact Phase.unheld
  idRead := by rw [h₁.phase]; exact Phase.unheld
  dataRead := by rw [h₁.phase]; exact Phase.unheld

theorem Agrees.snoc (h : Agrees d₁ d₂) (c : UInt8) :
    Agrees { d₁ with stored := d₁.stored ++ [c] } { d₂ with stored := d₂.stored ++ [c] } :=
  ⟨h.capacity, h.strict, h.deframer, h.phase, by simp only [h.stored], h.discarding, h.dataLen,
    h.offset, h.idLen, h.idRead, h.dataRead⟩

theorem Agrees.payloadOrCrc {e₁ e₂ : Decoder} (h : Agrees e₁ e₂) (hl : e₁.dataLen = e₂.dataLen) :
    Agrees e₁.payloadOrCrc e₂.payloadOrCrc := by
  unfold Decoder.payloadOrCrc
  rw [hl]
  split
  · exact ⟨h.capacity, h.strict, h.deframer, rfl, h.stored, h.discarding, fun _ => rfl, Phase.unheld,
      Phase.unheld, Phase.unheld, fun _ => rfl⟩
  · exact ⟨h.capacity, h.strict, h.deframer, rfl, h.stored, h.discarding, Phase.unheld, Phase.unheld, Phase.unheld,
      Phase.unheld, Phase.unheld⟩

/-- One byte taken by the parser: the same result, and the decoders still agree. -/
theorem Agrees.parse (h : Agrees d₁ d₂) (c : UInt8) :
    (d₁.parse c).2 = (d₂.parse c).2 ∧ Agrees (d₁.parse c).1 (d₂.parse c).1 := by
  have hp := h.phase
  by_cases h0 : d₁.phase = .frameOffset
  · rw [parse_frameOffset h0, parse_frameOffset (hp ▸ h0)]
    exact ⟨rfl, h.capacity, h.strict, h.deframer, rfl, h.stored, h.discarding, Phase.unheld, Phase.unheld, Phase.unheld,
      Phase.unheld, Phase.unheld⟩
  by_cases hfull : d₁.capacity ≤ d₁.stored.length
  · rw [parse_of_le h0 hfull, parse_of_le (hp ▸ h0) (by rw [← h.capacity, ← h.stored]; exact hfull)]
    refine ⟨by rw [h.capacity, hp], ?_⟩
    exact ⟨h.capacity, h.strict, h.deframer, h.phase, h.stored, rfl, h.dataLen, h.offset,
      h.idLen, h.idRead, h.dataRead⟩
  have hroom : d₁.stored.length < d₁.capacity := Nat.lt_of_not_le hfull
  have hroom₂ : d₂.stored.length < d₂.capacity := by rw [← h.capacity, ← h.stored]; exact hroom
  by_cases h1 : d₁.phase = .crcB1
  · rw [parse_crcB1 h1 hroom, parse_crcB1 (hp ▸ h1) hroom₂]
    obtain ⟨hr₁, hc₁, hs₁, hres₁, -⟩ := finish_eq { d₁ with stored := d₁.stored ++ [c] }
    obtain ⟨hr₂, hc₂, hs₂, hres₂, -⟩ := finish_eq { d₂ with stored := d₂.stored ++ [c] }
    refine ⟨?_, hr₁.agrees hr₂ (by rw [hc₁, hc₂]; exact h.capacity) (by rw [hs₁, hs₂]; exact h.strict)⟩
    rw [hres₁, hres₂]
    simp only [h.stored, h.strict]
  refine ⟨by rw [(parse_of_lt h0 h1 hroom).1, (parse_of_lt (hp ▸ h0) (hp ▸ h1) hroom₂).1], ?_⟩
  have hs := h.snoc c
  -- each phase reads only registers that are live in it, so both decoders take the same branch
  cases hph : d₁.phase with
  | frameOffset => exact absurd hph h0
  | crcB1 => exact absurd hph h1
  | headerB0 =>
    simp only [Decoder.parse, hph, ← hp, store_of_lt hroom, store_of_lt hroom₂]
    exact ⟨h.capacity, h.strict, h.deframer, rfl, hs.stored, h.discarding, fun _ => rfl, Phase.unheld,
      Phase.unheld, Phase.unheld, Phase.unheld⟩
  | headerB1 =>
    have hl := h.dataLen (by rw [hph]; rfl)
    simp only [Decoder.parse, hph, ← hp, store_of_lt hroom, store_of_lt hroom₂, hl]
    exact ⟨h.capacity, h.strict, h.deframer, rfl, hs.stored, h.discarding, fun _ => rfl,
      fun _ => rfl, Phase.unheld, Phase.unheld, Phase.unheld⟩
  | headerB2 =>
    have hl := h.dataLen (by rw [hph]; rfl)
    have ho := h.offset (by rw [hph]; rfl)
    simp only [Decoder.parse, hph, ← hp, store_of_lt hroom, store_of_lt hroom₂]
    exact ⟨h.capacity, h.strict, h.deframer, rfl, hs.stored, h.discarding, fun _ => hl,
      fun _ => ho, fun _ => rfl, fun _ => rfl, Phase.unheld⟩
  | msgId =>
    have hl := h.dataLen (by rw [hph]; rfl)
    have ho := h.offset (by rw [hph]; rfl)
    have hi := h.idLen (by rw [hph]; rfl)
    have hr := h.idRead (by rw [hph]; rfl)
    simp only [Decoder.parse, hph, ← hp, store_of_lt hroom, store_of_lt hroom₂, hl, ho, hi, hr]
    split
    · split
      · exact ⟨h.capacity, h.strict, h.deframer, rfl, hs.stored, h.discarding, fun _ => rfl, Phase.unheld,
          Phase.unheld, Phase.unheld, Phase.unheld⟩
      · exact Agrees.payloadOrCrc ⟨h.capacity, h.strict, h.deframer, rfl, hs.stored, h.discarding,
          fun _ => rfl, fun _ => rfl, fun _ => rfl, fun _ => rfl, Phase.unheld⟩ rfl
    · exact ⟨h.capacity, h.strict, h.deframer, rfl, hs.stored, h.discarding, fun _ => rfl,
        fun _ => rfl, fun _ => rfl, fun _ => rfl, Phase.unheld⟩
  | offsetB0 =>
    have hl := h.dataLen (by rw [hph]; rfl)
    simp only [Decoder.parse, hph, ← hp, store_of_lt hroom, store_of_lt hroom₂]
    exact ⟨h.capacity, h.strict, h.deframer, rfl, hs.stored, h.discarding, fun _ => hl, Phase.unheld,
      Phase.unheld, Phase.unheld, Phase.unheld⟩
  | offsetB1 =>
    have hl := h.dataLen (by rw [hph]; rfl)
    simp only [Decoder.parse, hph, ← hp, store_of_lt hroom, store_of_lt hroom₂]
    exact hs.payloadOrCrc hl
  | payload =>
    have hl := h.dataLen (by rw [hph]; rfl)
    have hr := h.dataRead (by rw [hph]; rfl)
    simp only [Decoder.parse, hph, ← hp, store_of_lt hroom, store_of_lt hroom₂, hl, hr]
    split
    · exact ⟨h.capacity, h.strict, h.deframer, rfl, hs.stored, h.discarding, Phase.unheld, Phase.unheld, Phase.unheld,
        Phase.unheld, Phase.unheld⟩
    · exact ⟨h.capacity, h.strict, h.deframer, rfl, hs.stored, h.discarding, fun _ => rfl, Phase.unheld,
        Phase.unheld, Phase.unheld, fun _ => rfl⟩
  | crcB0 =>
    simp only [Decoder.parse, hph, ← hp, store_of_lt hroom, store_of_lt hroom₂]
    exact ⟨h.capacity, h.strict, h.deframer, rfl, hs.stored, h.discarding, Phase.unheld, Phase.unheld, Phase.unheld,
      Phase.unheld, Phase.unheld⟩

theorem Agrees.decode (h : Agrees d₁ d₂) (b : UInt8) :
    (d₁.decode b).2 = (d₂.decode b).2 ∧ Agrees (d₁.decode b).1 (d₂.decode b).1 := by
  by_cases hb : b = 0
  · subst hb
    exact ⟨rfl, (ready_reset d₁).agrees (ready_reset d₂) h.capacity h.strict⟩
  rw [decode_eq hb, decode_eq hb, ← h.deframer]
  have h' : Agrees { d₁ with deframer := (d₁.deframer.step b).2 }
      { d₂ with deframer := (d₁.deframer.step b).2 } :=
    ⟨h.capacity, h.strict, rfl, h.phase, h.stored, h.discarding, h.dataLen, h.offset, h.idLen,
      h.idRead, h.dataRead⟩
  cases (d₁.deframer.step b).1 with
  | none => exact ⟨rfl, h'⟩
  | some c =>
    simp only [absorb]
    by_cases hdis : d₁.discarding = true
    · rw [if_pos hdis, if_pos (h.discarding ▸ hdis)]
      exact ⟨rfl, h'⟩
    · rw [if_neg hdis, if_neg (h.discarding ▸ hdis)]
      exact h'.parse c

theorem Agrees.run (h : Agrees d₁ d₂) (bs : Bytes) :
    (d₁.run bs).2 = (d₂.run bs).2 ∧ Agrees (d₁.run bs).1 (d₂.run bs).1 := by
  induction bs generalizing d₁ d₂ with
  | nil => exact ⟨rfl, h⟩
  | cons b r ih =>
    obtain ⟨hr, hd⟩ := h.decode b
    obtain ⟨hr', hd'⟩ := ih hd
    rw [run_cons, run_cons, hr, hr']
    exact ⟨rfl, hd'⟩

theorem length_run (d : Decoder) (bs : Bytes) : (d.run bs).2.length = bs.length := by
  induction bs generalizing d with
  | nil => rfl
  | cons b r ih => rw [run_cons, List.length_cons, List.length_cons, ih]

/-! ## Rearming events -/

theorem parse_outcome (d : Decoder) (c : UInt8) :
    (d.parse c).2 = .ok none ∨ (d.parse c).2 = .error (.storageFull d.capacity d.phase) ∨
      (d.parse c).1.Ready := by
  by_cases h0 : d.phase = .frameOffset
  · rw [parse_frameOffset h0]; exact .inl rfl
  by_cases hfull : d.capacity ≤ d.stored.length
  · rw [parse_of_le h0 hfull]; exact .inr (.inl rfl)
  by_cases h1 : d.phase = .crcB1
  · rw [parse_crcB1 h1 (Nat.lt_of_not_le hfull)]; exact .inr (.inr (finish_eq _).1)
  · exact .inl (parse_of_lt h0 h1 (Nat.lt_of_not_le hfull)).1

theorem decode_outcome (d : Decoder) (b : UInt8) :
    (d.decode b).2 = .ok none ∨ (∃ c ph, (d.decode b).2 = .error (.storageFull c ph)) ∨
      (d.decode b).1.Ready := by
  by_cases hb : b = 0
  · subst hb; exact .inr (.inr (ready_reset d))
  rw [decode_eq hb]
  cases (d.deframer.step b).1 with
  | none => exact .inl rfl
  | some c =>
    simp only [absorb]
    split
    · exact .inl rfl
    · rcases parse_outcome { d with deframer := (d.deframer.step b).2 } c with h | h | h
      · exact .inl h
      · exact .inr (.inl ⟨_, _, h⟩)
      · exact .inr (.inr h)

/-- The decoders rearmed by their last event: new ones, and those after a delimiter, a reset, or
a byte that delivered a packet or raised a packet error. -/
inductive Synchronised : Decoder → Prop
  | new {size : Int} {s w : Bool} {d : Decoder} : Decoder.new size s w = .ok d → Synchronised d
  | delimiter (d : Decoder) : Synchronised (d.decode 0).1
  | reset (d : Decoder) : Synchronised d.reset
  | delivered {d : Decoder} {b : UInt8} {p : Packet} :
      (d.decode b).2 = .ok (some p) → Synchronised (d.decode b).1
  | rejected {d : Decoder} {b : UInt8} {e : Fault} :
      (d.decode b).2 = .error e → e.raised.isPacketError = true → Synchronised (d.decode b).1

theorem Synchronised.ready (h : d.Synchronised) : d.Ready := by
  cases h with
  | new hn => exact ready_of_new hn
  | delimiter d => exact ready_reset d
  | reset d => exact ready_reset d
  | @delivered d b p hp =>
    rcases decode_outcome d b with h | ⟨c, ph, h⟩ | h
    · rw [h] at hp; cases hp
    · rw [h] at hp; cases hp
    · exact h
  | @rejected d b e he hpe =>
    rcases decode_outcome d b with h | ⟨c, ph, h⟩ | h
    · rw [h] at he; cases he
    · -- a storage fault is not a packet error
      rw [h] at he; cases he; cases hpe
    · exact h

/-- Two rearmed decoders of one capacity and strictness read every stream alike. -/
theorem run_synchronised :
    (∀ d₁ d₂ : Decoder, d₁.Synchronised → d₂.Synchronised → d₁.capacity = d₂.capacity →
      d₁.strict = d₂.strict → ∀ bs : Bytes,
        (d₁.run bs).2 = (d₂.run bs).2 ∧
        (d₁.run bs).1.count + d₂.count = (d₂.run bs).1.count + d₁.count ∧
        (d₁.run bs).1.invalidCount + d₂.invalidCount = (d₂.run bs).1.invalidCount + d₁.invalidCount) ∧
    (∀ (size : Int) (s w : Bool) (d : Decoder), Decoder.new size s w = .ok d → ∀ z bs : Bytes,
      (d.run (z ++ 0 :: bs)).2.drop (z.length + 1) = (d.run bs).2 ∧
      (d.run (z ++ 0 :: bs)).1.count = (d.run (z ++ [0])).1.count + (d.run bs).1.count ∧
      (d.run (z ++ 0 :: bs)).1.invalidCount =
        (d.run (z ++ [0])).1.invalidCount + (d.run bs).1.invalidCount) := by
  have main : ∀ d₁ d₂ : Decoder, d₁.Synchronised → d₂.Synchronised →
      d₁.capacity = d₂.capacity → d₁.strict = d₂.strict → ∀ bs : Bytes,
        (d₁.run bs).2 = (d₂.run bs).2 ∧
        (d₁.run bs).1.count + d₂.count = (d₂.run bs).1.count + d₁.count ∧
        (d₁.run bs).1.invalidCount + d₂.invalidCount =
          (d₂.run bs).1.invalidCount + d₁.invalidCount := by
    intro d₁ d₂ h₁ h₂ hc hs bs
    have hr := ((h₁.ready.agrees h₂.ready hc hs).run bs).1
    -- the counters rise by what the results deliver and reject, and the results are the same
    obtain ⟨hc₁, hi₁⟩ := counts_run d₁ bs
    obtain ⟨hc₂, hi₂⟩ := counts_run d₂ bs
    rw [hr] at hc₁ hi₁
    refine ⟨hr, ?_, ?_⟩ <;> omega
  refine ⟨main, ?_⟩
  intro size s w d hnew z bs
  -- after the noise and its delimiter the decoder is rearmed, like the new one
  have hsync : (d.run (z ++ [0])).1.Synchronised := by
    rw [run_append]
    exact .delimiter _
  obtain ⟨hcap, hstr⟩ := capacity_run d (z ++ [0])
  obtain ⟨hr, hc, hi⟩ := main _ _ hsync (.new hnew) hcap hstr bs
  obtain ⟨hc0, hi0⟩ := counts_of_new hnew
  have hsplit : z ++ 0 :: bs = (z ++ [0]) ++ bs := by simp
  rw [hsplit, run_append]
  refine ⟨?_, ?_, ?_⟩
  · have hlen : (d.run (z ++ [0])).2.length = z.length + 1 := by
      rw [length_run, List.length_append, List.length_singleton]
    rw [List.drop_left' hlen, hr]
  · simp only
    omega
  · simp only
    omega

theorem run_synchronised_after_noise :
    let d : Decoder := { capacity := 16, strict := false }
    let z : Bytes := [3, 5]
    let bs : Bytes := [1, 6, 4, 1, 7, 214, 27, 0]
    (d.run (z ++ [0])).1.Synchronised ∧ d.Synchronised ∧ Decoder.new 16 false true = .ok d ∧
      (((d.run (z ++ [0])).1.run bs).2 = (d.run bs).2 ∧
        ((d.run (z ++ [0])).1.run bs).1.count + d.count =
          (d.run bs).1.count + (d.run (z ++ [0])).1.count ∧
        ((d.run (z ++ [0])).1.run bs).1.invalidCount + d.invalidCount =
          (d.run bs).1.invalidCount + (d.run (z ++ [0])).1.invalidCount) ∧
      ((d.run (z ++ 0 :: bs)).2.drop (z.length + 1) = (d.run bs).2 ∧
        (d.run (z ++ 0 :: bs)).1.count = (d.run (z ++ [0])).1.count + (d.run bs).1.count ∧
        (d.run (z ++ 0 :: bs)).1.invalidCount =
          (d.run (z ++ [0])).1.invalidCount + (d.run bs).1.invalidCount) := by
  intro d z bs
  have hnew : Decoder.new 16 false true = .ok d := rfl
  have h₁ : (d.run (z ++ [0])).1.Synchronised := by
    rw [run_append]
    exact .delimiter _
  have h₂ : d.Synchronised := .new hnew
  exact ⟨h₁, h₂, hnew,
    run_synchronised.1 _ _ h₁ h₂ (capacity_run d _).1 (capacity_run d _).2 bs,
    run_synchronised.2 16 false true d hnew z bs⟩

end Decoder

end PacketLink.Stream
