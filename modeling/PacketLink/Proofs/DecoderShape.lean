import PacketLink.Proofs.PacketCheck
import PacketLink.Stream.Config
/-! # The shape of the decoder's state

What one byte can do to a decoder, and the invariant that every reachable decoder keeps: the
stored bytes are as many as its phase says, and once the three header bytes are stored the
length registers hold the fields they describe. So a frame never stores more than the size its
header describes, at most `1045` bytes.
-/
namespace PacketLink.Stream.Decoder

variable {d : Decoder} {b c : UInt8}

/-- The byte that the de-framing stage passed on, if any, taken by the parser. -/
def absorb (d : Decoder) : Option UInt8 → Decoder × Result
  | none => (d, .ok none)
  | some c => if d.discarding then (d, .ok none) else d.parse c

theorem decode_zero (d : Decoder) : d.decode 0 = (d.reset, .ok none) := rfl

theorem decode_eq (hb : b ≠ 0) :
    d.decode b = { d with deframer := (d.deframer.step b).2 }.absorb (d.deframer.step b).1 := by
  simp only [decode, hb, if_false]
  cases (d.deframer.step b).1 <;> rfl

@[simp] theorem run_nil (d : Decoder) : d.run [] = (d, []) := rfl

theorem run_cons (d : Decoder) (b : UInt8) (r : Bytes) :
    d.run (b :: r) = (((d.decode b).1.run r).1, (d.decode b).2 :: ((d.decode b).1.run r).2) := rfl

/-! ## Storing and parsing -/

theorem store_of_lt (h : d.stored.length < d.capacity) (k : Decoder → Decoder) :
    d.store b k = (k { d with stored := d.stored ++ [b] }, .ok none) := by
  simp [store, Nat.not_le.2 h]

theorem store_of_le (h : d.capacity ≤ d.stored.length) (k : Decoder → Decoder) :
    d.store b k = ({ d with discarding := true }, .error (.storageFull d.capacity d.phase)) := by
  simp [store, h]

theorem parse_frameOffset (h : d.phase = .frameOffset) :
    d.parse c = ({ d with phase := .headerB0 }, .ok none) := by
  simp [parse, h]

theorem parse_of_le (h0 : d.phase ≠ .frameOffset) (h : d.capacity ≤ d.stored.length) :
    d.parse c = ({ d with discarding := true }, .error (.storageFull d.capacity d.phase)) := by
  cases hp : d.phase
  case frameOffset => exact absurd hp h0
  all_goals simp only [parse, hp, store_of_le h]

theorem parse_crcB1 (h1 : d.phase = .crcB1) (h : d.stored.length < d.capacity) :
    d.parse c = { d with stored := d.stored ++ [c] }.finish := by
  simp [parse, h1, store_of_lt h]

/-- `d'` goes on with the frame of `d` after storing `c`: nothing else changes but the phase and
the registers, and the phase is not the one between frames. -/
structure Continues (d' d : Decoder) (c : UInt8) : Prop where
  stored : d'.stored = d.stored ++ [c]
  phase : d'.phase ≠ .frameOffset
  capacity : d'.capacity = d.capacity
  strict : d'.strict = d.strict
  discarding : d'.discarding = d.discarding
  deframer : d'.deframer = d.deframer
  count : d'.count = d.count
  invalidCount : d'.invalidCount = d.invalidCount

theorem Continues.payloadOrCrc {d' : Decoder} (h : d'.Continues d c) : d'.payloadOrCrc.Continues d c := by
  unfold Decoder.payloadOrCrc
  split
  · exact ⟨h.stored, nofun, h.capacity, h.strict, h.discarding, h.deframer, h.count, h.invalidCount⟩
  · exact ⟨h.stored, nofun, h.capacity, h.strict, h.discarding, h.deframer, h.count, h.invalidCount⟩

theorem parse_of_lt (h0 : d.phase ≠ .frameOffset) (h1 : d.phase ≠ .crcB1)
    (h : d.stored.length < d.capacity) : (d.parse c).2 = .ok none ∧ (d.parse c).1.Continues d c := by
  cases hp : d.phase
  case frameOffset => exact absurd hp h0
  case crcB1 => exact absurd hp h1
  all_goals simp only [parse, hp, store_of_lt h, true_and]
  case msgId =>
    have hc : Continues
        { d with phase := .msgId, stored := d.stored ++ [c], idRead := d.idRead + 1 } d c :=
      ⟨rfl, nofun, rfl, rfl, rfl, rfl, rfl, rfl⟩
    split
    · split
      · exact ⟨rfl, nofun, rfl, rfl, rfl, rfl, rfl, rfl⟩
      · exact hc.payloadOrCrc
    · exact hc
  case offsetB1 => exact Continues.payloadOrCrc ⟨rfl, nofun, rfl, rfl, rfl, rfl, rfl, rfl⟩
  case payload =>
    split
    · exact ⟨rfl, nofun, rfl, rfl, rfl, rfl, rfl, rfl⟩
    · exact ⟨rfl, nofun, rfl, rfl, rfl, rfl, rfl, rfl⟩
  all_goals exact ⟨rfl, nofun, rfl, rfl, rfl, rfl, rfl, rfl⟩

/-! ## Rearming -/

/-- A decoder at rest between frames: waiting for a frame's first code byte, with nothing stored
and nothing being skipped. -/
structure Ready (d : Decoder) : Prop where
  phase : d.phase = .frameOffset
  deframer : d.deframer = Deframer.start
  discarding : d.discarding = false
  stored : d.stored = []

theorem ready_reset (d : Decoder) : d.reset.Ready := ⟨rfl, rfl, rfl, rfl⟩

section New

variable {size : Int} {s w : Bool}

theorem eq_of_new (h : Decoder.new size s w = .ok d) :
    (Header.baseSize : Int) ≤ size ∧ d = { capacity := size.toNat, strict := s } := by
  unfold Decoder.new at h
  split at h; · cases h
  split at h; · cases h
  split at h; · cases h
  next hs =>
    cases h
    exact ⟨Int.not_lt.1 hs, rfl⟩

theorem ready_of_new (h : Decoder.new size s w = .ok d) : d.Ready := by
  obtain ⟨-, rfl⟩ := eq_of_new h
  exact ⟨rfl, rfl, rfl, rfl⟩

theorem capacity_of_new (h : Decoder.new size s w = .ok d) :
    Header.baseSize ≤ d.capacity ∧ (d.capacity : Int) = size ∧ d.strict = s := by
  obtain ⟨h5, rfl⟩ := eq_of_new h
  simp only [Header.baseSize] at h5
  refine ⟨?_, ?_, rfl⟩
  · show 5 ≤ size.toNat
    omega
  · show ((size.toNat : Nat) : Int) = size
    omega

theorem counts_of_new (h : Decoder.new size s w = .ok d) : d.count = 0 ∧ d.invalidCount = 0 := by
  obtain ⟨-, rfl⟩ := eq_of_new h
  exact ⟨rfl, rfl⟩

end New

theorem finish_eq (d : Decoder) :
    d.finish.1.Ready ∧ d.finish.1.capacity = d.capacity ∧ d.finish.1.strict = d.strict ∧
      d.finish.2 = (Packet.new d.stored d.strict).map some ∧
      d.finish.1.count = d.count + (Packet.new d.stored d.strict).toBool.toNat ∧
      d.finish.1.invalidCount = d.invalidCount + (!(Packet.new d.stored d.strict).toBool).toNat := by
  unfold finish
  cases Packet.new d.stored d.strict with
  | ok p => exact ⟨⟨rfl, rfl, rfl, rfl⟩, rfl, rfl, rfl, rfl, rfl⟩
  | error e => exact ⟨⟨rfl, rfl, rfl, rfl⟩, rfl, rfl, rfl, rfl, rfl⟩

theorem capacity_parse (d : Decoder) (c : UInt8) : (d.parse c).1.capacity = d.capacity ∧
    (d.parse c).1.strict = d.strict := by
  by_cases h0 : d.phase = .frameOffset
  · rw [parse_frameOffset h0]; exact ⟨rfl, rfl⟩
  by_cases h : d.capacity ≤ d.stored.length
  · rw [parse_of_le h0 h]; exact ⟨rfl, rfl⟩
  by_cases h1 : d.phase = .crcB1
  · rw [parse_crcB1 h1 (by omega)]
    exact ⟨(finish_eq _).2.1, (finish_eq _).2.2.1⟩
  · have hc := (parse_of_lt (c := c) h0 h1 (by omega)).2
    exact ⟨hc.capacity, hc.strict⟩

theorem capacity_decode (d : Decoder) (b : UInt8) : (d.decode b).1.capacity = d.capacity ∧
    (d.decode b).1.strict = d.strict := by
  by_cases hb : b = 0
  · subst hb; exact ⟨rfl, rfl⟩
  rw [decode_eq hb]
  cases (d.deframer.step b).1 with
  | none => exact ⟨rfl, rfl⟩
  | some c =>
    simp only [absorb]; split
    · exact ⟨rfl, rfl⟩
    · exact capacity_parse _ c

theorem capacity_run (d : Decoder) (bs : Bytes) : (d.run bs).1.capacity = d.capacity ∧
    (d.run bs).1.strict = d.strict := by
  induction bs generalizing d with
  | nil => exact ⟨rfl, rfl⟩
  | cons b r ih =>
    obtain ⟨h1, h2⟩ := capacity_decode d b
    obtain ⟨h3, h4⟩ := ih (d.decode b).1
    exact ⟨(h3.trans h1), (h4.trans h2)⟩

/-! ## The invariant -/

/-- The size of the frame that the length registers describe: header, identifier (one byte at
least), offset metadata, payload and checksum. -/
def size (d : Decoder) : Nat := Header.frameSize (max 1 d.idLen) d.dataLen d.offset

/-- The three header bytes are stored, and the length registers hold their fields. -/
def HeaderHeld (d : Decoder) : Prop :=
  ∃ b0 b1 b2 rest, d.stored = b0 :: b1 :: b2 :: rest ∧ d.dataLen = Header.dataLength b0 b1 ∧
    d.offset = Header.offset b1 ∧ d.idLen = Header.idLength b2

/-- The stored bytes are as many as the phase says, and the registers read so far hold what the
stored header bytes give. -/
def WellFormed (d : Decoder) : Prop :=
  d.stored.length ≤ d.capacity ∧
  match d.phase with
  | .frameOffset | .headerB0 => d.stored = []
  | .headerB1 => ∃ b0, d.stored = [b0] ∧ d.dataLen = b0.toNat
  | .headerB2 => ∃ b0 b1, d.stored = [b0, b1] ∧ d.dataLen = Header.dataLength b0 b1 ∧
      d.offset = Header.offset b1
  | .msgId => d.HeaderHeld ∧ d.stored.length = 3 + d.idRead ∧ d.idRead < max 1 d.idLen
  | .offsetB0 => d.HeaderHeld ∧ d.offset ∧ d.stored.length = 3 + max 1 d.idLen
  | .offsetB1 => d.HeaderHeld ∧ d.offset ∧ d.stored.length = 4 + max 1 d.idLen
  | .payload => d.HeaderHeld ∧
      d.stored.length = 3 + max 1 d.idLen + (if d.offset then 2 else 0) + d.dataRead ∧
      d.dataRead < d.dataLen
  | .crcB0 => d.HeaderHeld ∧ d.stored.length + 2 = d.size
  | .crcB1 => d.HeaderHeld ∧ d.stored.length + 1 = d.size

theorem HeaderHeld.snoc {e : Decoder} (h : d.HeaderHeld) (hs : e.stored = d.stored ++ [c])
    (hl : e.dataLen = d.dataLen) (ho : e.offset = d.offset) (hi : e.idLen = d.idLen) :
    e.HeaderHeld := by
  obtain ⟨b0, b1, b2, rest, h1, h2, h3, h4⟩ := h
  exact ⟨b0, b1, b2, rest ++ [c], by simp [hs, h1], hl.trans h2, ho.trans h3, hi.trans h4⟩

theorem Ready.wellFormed (h : d.Ready) : d.WellFormed := by
  refine ⟨by simp [h.stored], ?_⟩
  simp only [h.phase]
  exact h.stored

theorem wellFormed_payloadOrCrc (h : d.HeaderHeld) (hc : d.stored.length ≤ d.capacity)
    (hs : d.stored.length = 3 + max 1 d.idLen + if d.offset then 2 else 0) :
    d.payloadOrCrc.WellFormed := by
  unfold payloadOrCrc
  split
  · exact ⟨hc, h, by simp only; omega, by simp only; omega⟩
  · refine ⟨hc, h, ?_⟩
    simp only [size, Header.frameSize, Header.baseSize]
    split <;> simp_all <;> omega

theorem wellFormed_parse (h : d.WellFormed) (c : UInt8) : (d.parse c).1.WellFormed := by
  obtain ⟨hcap, hshape⟩ := h
  by_cases h0 : d.phase = .frameOffset
  · rw [parse_frameOffset h0]
    simp only [h0] at hshape
    exact ⟨hcap, hshape⟩
  by_cases hfull : d.capacity ≤ d.stored.length
  · rw [parse_of_le h0 hfull]; exact ⟨hcap, hshape⟩
  have hroom : d.stored.length < d.capacity := Nat.lt_of_not_le hfull
  have hcap' : (d.stored ++ [c]).length ≤ d.capacity := by simp; omega
  cases hp : d.phase <;> simp only [hp] at hshape <;> simp only [parse, hp, store_of_lt hroom]
  case frameOffset => exact absurd hp h0
  case headerB0 =>
    exact ⟨hcap', c, by simp [hshape], rfl⟩
  case headerB1 =>
    obtain ⟨b0, hs, hl⟩ := hshape
    exact ⟨hcap', b0, c, by simp [hs], by simp [hl, Header.dataLength], rfl⟩
  case headerB2 =>
    obtain ⟨b0, b1, hs, hl, ho⟩ := hshape
    exact ⟨hcap', ⟨b0, b1, c, [], by simp [hs], hl, ho, rfl⟩, by simp [hs], by simp only; omega⟩
  case msgId =>
    obtain ⟨hh, hs, hr⟩ := hshape
    have hh' := hh.snoc (e := { d with stored := d.stored ++ [c], idRead := d.idRead + 1 })
      rfl rfl rfl rfl
    split
    · split
      · next hl ho => exact ⟨hcap', hh', ho, by simp; omega⟩
      · next hl ho =>
        refine wellFormed_payloadOrCrc
          (d := { d with stored := d.stored ++ [c], idRead := d.idRead + 1, phase := .msgId })
          hh' hcap' ?_
        simp [ho]; omega
    · next hl => exact ⟨hcap', hh', by simp; omega, by simp only; omega⟩
  case offsetB0 =>
    obtain ⟨hh, ho, hs⟩ := hshape
    exact ⟨hcap', hh.snoc rfl rfl rfl rfl, ho, by simp; omega⟩
  case offsetB1 =>
    obtain ⟨hh, ho, hs⟩ := hshape
    refine wellFormed_payloadOrCrc (d := { d with stored := d.stored ++ [c], phase := .offsetB1 })
      (hh.snoc rfl rfl rfl rfl) hcap' ?_
    simp [ho]; omega
  case payload =>
    obtain ⟨hh, hs, hr⟩ := hshape
    have hh' := hh.snoc (e := { d with stored := d.stored ++ [c], dataRead := d.dataRead + 1 })
      rfl rfl rfl rfl
    split
    · next hl =>
      refine ⟨hcap', hh', ?_⟩
      simp only [size, Header.frameSize, Header.baseSize, List.length_append, List.length_singleton]
      split <;> simp_all <;> omega
    · next hl => exact ⟨hcap', hh', by simp; omega, by simp only; omega⟩
  case crcB0 =>
    obtain ⟨hh, hs⟩ := hshape
    exact ⟨hcap', hh.snoc rfl rfl rfl rfl, by simp [size] at hs ⊢; omega⟩
  case crcB1 => exact (finish_eq _).1.wellFormed

theorem wellFormed_decode (h : d.WellFormed) (b : UInt8) : (d.decode b).1.WellFormed := by
  by_cases hb : b = 0
  · subst hb; exact (ready_reset d).wellFormed
  rw [decode_eq hb]
  cases (d.deframer.step b).1 with
  | none => exact h
  | some c =>
    simp only [absorb]; split
    · exact h
    · exact wellFormed_parse (d := { d with deframer := (d.deframer.step b).2 }) h c

/-- The decoders that construction, bytes and resets lead to. -/
inductive Reachable : Decoder → Prop
  | new {size : Int} {s w : Bool} {d : Decoder} : Decoder.new size s w = .ok d → Reachable d
  | decode {d : Decoder} (b : UInt8) : Reachable d → Reachable (d.decode b).1
  | reset {d : Decoder} : Reachable d → Reachable d.reset

theorem Reachable.run (h : d.Reachable) (bs : Bytes) : (d.run bs).1.Reachable := by
  induction bs generalizing d with
  | nil => exact h
  | cons b r ih => exact ih (h.decode b)

theorem Reachable.wellFormed (h : d.Reachable) : d.WellFormed := by
  induction h with
  | new hn => exact (ready_of_new hn).wellFormed
  | decode b _ ih => exact wellFormed_decode ih b
  | reset _ => exact (ready_reset _).wellFormed

theorem Reachable.capacity (h : d.Reachable) : Header.baseSize ≤ d.capacity := by
  induction h with
  | new hn => exact (capacity_of_new hn).1
  | decode b _ ih => rw [(capacity_decode _ b).1]; exact ih
  | reset _ ih => exact ih

/-! ## Sizes -/

theorem size_eq (d : Decoder) : d.size = 5 + max 1 d.idLen + d.dataLen + if d.offset then 2 else 0 :=
  rfl

/-- Whenever the header is stored, the stored bytes fall short of the size it describes, by one
byte exactly in the last phase. -/
theorem WellFormed.lt_size (h : d.WellFormed) (h3 : 3 ≤ d.stored.length) :
    d.HeaderHeld ∧ d.stored.length < d.size ∧ (d.stored.length + 1 = d.size → d.phase = .crcB1) := by
  obtain ⟨-, hshape⟩ := h
  cases hp : d.phase <;> simp only [hp] at hshape
  case frameOffset | headerB0 => simp [hshape] at h3
  case headerB1 => obtain ⟨b0, hs, -⟩ := hshape; simp [hs] at h3
  case headerB2 => obtain ⟨b0, b1, hs, -⟩ := hshape; simp [hs] at h3
  all_goals
    obtain ⟨hh, hs⟩ := hshape
    refine ⟨hh, ?_⟩
  case crcB1 => exact ⟨by omega, fun _ => rfl⟩
  all_goals
    have hlt : d.stored.length + 2 ≤ d.size := by
      rw [size_eq] at *; cases hoff : d.offset <;> simp [hoff] at hs ⊢ <;> omega
    exact ⟨by omega, fun h => absurd h (by omega)⟩

theorem WellFormed.length_le_two (h : d.WellFormed)
    (hp : d.phase = .frameOffset ∨ d.phase = .headerB0 ∨ d.phase = .headerB1 ∨
      d.phase = .headerB2) : d.stored.length ≤ 2 := by
  obtain ⟨-, hshape⟩ := h
  rcases hp with hp | hp | hp | hp <;> simp only [hp] at hshape
  · simp [hshape]
  · simp [hshape]
  · obtain ⟨b0, hs, -⟩ := hshape; simp [hs]
  · obtain ⟨b0, b1, hs, -⟩ := hshape; simp [hs]

theorem run_of_discarding (hd : d.discarding = true) {t : Bytes} (ht : 0 ∉ t) :
    (d.run t).2 = List.replicate t.length (.ok none) ∧ (d.run t).1.discarding = true := by
  induction t generalizing d with
  | nil => exact ⟨rfl, hd⟩
  | cons b r ih =>
    have hb : b ≠ 0 := fun h => ht (h ▸ List.mem_cons_self)
    have hstep : d.decode b = ({ d with deframer := (d.deframer.step b).2 }, .ok none) := by
      rw [decode_eq hb]
      cases (d.deframer.step b).1 with
      | none => rfl
      | some c => simp only [absorb, hd, if_true]
    obtain ⟨h1, h2⟩ := ih (d := { d with deframer := (d.deframer.step b).2 }) hd
      (fun h => ht (List.mem_cons_of_mem _ h))
    rw [run_cons, hstep]
    exact ⟨by simp [h1, List.replicate_succ], h2⟩

end PacketLink.Stream.Decoder

namespace PacketLink.Stream

/-- The size of the frame that starts with the given header bytes, as the decoder reads it:
header, identifier (one byte at least), offset metadata, payload and checksum. -/
def frameExtent? : Bytes → Option Nat
  | b0 :: b1 :: b2 :: _ =>
    some (Header.frameSize (max 1 (Header.idLength b2)) (Header.dataLength b0 b1) (Header.offset b1))
  | _ => none

theorem Decoder.HeaderHeld.extent {d : Decoder} (h : d.HeaderHeld) :
    frameExtent? d.stored = some d.size := by
  obtain ⟨b0, b1, b2, rest, hs, hl, ho, hi⟩ := h
  rw [hs, frameExtent?, Decoder.size, hl, ho, hi]

end PacketLink.Stream
