import PacketLink.Proofs.FrameReading
import PacketLink.Proofs.Resync
import PacketLink.Proofs.SpanLayout
/-! # What one byte can do

Every byte a reachable decoder takes has one of four effects: nothing, a delivered packet that
is counted, a packet error that is counted as invalid, or a storage fault that counts nothing.
The packet errors are those of a frame as long as its header says: a frame reaches the check
only with its last checksum byte, when it holds at least six bytes and exactly its wire size, so
the check can only refuse a zero identifier length, a checksum or, with strict types, a type.
Reading a whole stream at once keeps an owned copy of each delivered packet, in order, and
leaves the decoder as reading it byte by byte does.
-/
namespace PacketLink

namespace Packet

variable {x : Bytes} {s w : Bool} {e : Fault}

/-- The errors the check raises on a frame as long as its header describes: a zero identifier
length, a checksum mismatch, and with strict types an unknown type. -/
inductive FrameFault (strict : Bool) : Fault → Prop
  | idLength : FrameFault strict (.idLengthInvalid (.int 0))
  | checksum (provided computed : Nat) : FrameFault strict (.checksumMismatch provided computed)
  | type (code : Int) : strict = true → FrameFault strict (.typeUndefined code)

/-- A frame as long as its header describes, counting the identifier as one byte at least, holds
exactly its wire size whenever that is defined. -/
theorem wireSize_of_extent (hx : Stream.frameExtent? x = some x.length) {n : Nat}
    (h : Packet.wireSize ⟨x, w⟩ = .ok n) : n = x.length := by
  match x, hx with
  | b0 :: b1 :: b2 :: rest, hx =>
    have hp : (⟨b0 :: b1 :: b2 :: rest, w⟩ : Packet).bytes = b0 :: b1 :: b2 :: rest := rfl
    by_cases hid : Header.idLength b2 = 0
    · rw [wireSize, idLength_eq hp, if_pos hid] at h; cases h
    · rw [wireSize_eq hp hid] at h
      cases h
      simp only [Stream.frameExtent?, Option.some.injEq] at hx
      rw [← hx, Nat.max_eq_right (by omega)]

theorem new_error_of_extent (hx : Stream.frameExtent? x = some x.length)
    (h : Packet.new x s w = .error e) : FrameFault s e := by
  have h6 := Stream.Decoder.six_le_of_extent hx
  match x, hx with
  | b0 :: b1 :: b2 :: rest, hx =>
    rw [new_eq s w rfl, if_neg (by omega)] at h
    by_cases hid : Header.idLength b2 = 0
    · rw [if_pos hid] at h; cases h; exact .idLength
    rw [if_neg hid] at h
    -- the frame holds exactly its wire size, so only the checksum and type tests are left
    have hsize : sizeOf b0 b1 b2 = (b0 :: b1 :: b2 :: rest).length := by
      simp only [Stream.frameExtent?, Option.some.injEq] at hx
      rw [sizeOf, ← hx, Nat.max_eq_right (by omega)]
    rw [if_neg (by omega)] at h
    split at h
    · cases h; exact .checksum _ _
    split at h
    · next ht => cases h; exact .type _ ht.1
    · cases h

end Packet

namespace Stream.Decoder

variable {d : Decoder} {b c : UInt8} {p : Packet} {e : Fault}

/-- The frame the decoder hands to the check with its last checksum byte holds at least six
bytes, and its wire size when that is defined. -/
theorem WellFormed.extent_crcB1 (hw : d.WellFormed) (h1 : d.phase = .crcB1) (c : UInt8) :
    frameExtent? (d.stored ++ [c]) = some (d.stored ++ [c]).length := by
  obtain ⟨-, hshape⟩ := hw
  simp only [h1] at hshape
  obtain ⟨hh, hs⟩ := hshape
  have h3 : 3 ≤ d.stored.length := by
    obtain ⟨b0, b1, b2, rest, hst, -⟩ := hh; simp [hst]
  rw [frameExtent?_append [c] h3, hh.extent, List.length_append, List.length_singleton, hs]

/-- The packets a result delivers. -/
def Result.packet? : Result → Option Packet
  | .ok (some p) => some p
  | _ => none

/-- What one byte can do, as the caller sees it: return nothing, deliver a packet and count
it, raise a packet error of a whole frame and count it as invalid, or raise a storage fault and
count nothing. -/
inductive Effect (d : Decoder) : Decoder × Result → Prop
  | quiet {d' : Decoder} : d'.count = d.count → d'.invalidCount = d.invalidCount →
      Effect d (d', .ok none)
  | delivered {d' : Decoder} {p : Packet} : d'.count = d.count + 1 →
      d'.invalidCount = d.invalidCount → Effect d (d', .ok (some p))
  | rejected {d' : Decoder} {e : Fault} : Packet.FrameFault d.strict e → d'.count = d.count →
      d'.invalidCount = d.invalidCount + 1 → Effect d (d', .error e)
  | overflow {d' : Decoder} {c : Nat} {ph : Phase} : d'.count = d.count →
      d'.invalidCount = d.invalidCount → Effect d (d', .error (.storageFull c ph))

theorem parse_result (d : Decoder) (c : UInt8) :
    (d.parse c).2 = .ok none ∨ (∃ n ph, (d.parse c).2 = .error (.storageFull n ph)) ∨
      (d.phase = .crcB1 ∧ (d.parse c).2 = (Packet.new (d.stored ++ [c]) d.strict).map some) := by
  by_cases h0 : d.phase = .frameOffset
  · rw [parse_frameOffset h0]; exact .inl rfl
  by_cases hfull : d.capacity ≤ d.stored.length
  · rw [parse_of_le h0 hfull]; exact .inr (.inl ⟨_, _, rfl⟩)
  by_cases h1 : d.phase = .crcB1
  · rw [parse_crcB1 h1 (Nat.lt_of_not_le hfull), (finish_eq _).2.2.2.1]
    exact .inr (.inr ⟨h1, rfl⟩)
  · exact .inl (parse_of_lt h0 h1 (Nat.lt_of_not_le hfull)).1

/-- The result of a byte: nothing, a storage fault, or with the last checksum byte of a frame the
check of the stored frame. -/
theorem decode_result (d : Decoder) (b : UInt8) :
    (d.decode b).2 = .ok none ∨ (∃ n ph, (d.decode b).2 = .error (.storageFull n ph)) ∨
      ∃ c, d.phase = .crcB1 ∧ (d.decode b).2 = (Packet.new (d.stored ++ [c]) d.strict).map some := by
  by_cases hb : b = 0
  · subst hb; exact .inl rfl
  rw [decode_eq hb]
  cases (d.deframer.step b).1 with
  | none => exact .inl rfl
  | some c =>
    simp only [absorb]
    split
    · exact .inl rfl
    · rcases parse_result { d with deframer := (d.deframer.step b).2 } c with h | h | ⟨h1, h⟩
      · exact .inl h
      · exact .inr (.inl h)
      · exact .inr (.inr ⟨c, h1, h⟩)

/-- A byte of a well-formed decoder raises a storage fault or a packet error of a whole frame,
and nothing else. -/
theorem decode_error (hw : d.WellFormed) (h : (d.decode b).2 = .error e) :
    (∃ n ph, e = .storageFull n ph) ∨ Packet.FrameFault d.strict e := by
  rcases decode_result d b with h' | ⟨n, ph, h'⟩ | ⟨c, h1, h'⟩ <;> rw [h'] at h
  · cases h
  · cases h; exact .inl ⟨n, ph, rfl⟩
  · cases hn : Packet.new (d.stored ++ [c]) d.strict with
    | ok q => rw [hn] at h; cases h
    | error f =>
      rw [hn] at h
      cases h
      exact .inr (Packet.new_error_of_extent (hw.extent_crcB1 h1 c) hn)

/-- A delivered packet is one the check accepts. -/
theorem decode_delivered (h : (d.decode b).2 = .ok (some p)) :
    Packet.new p.bytes d.strict p.writable = .ok p := by
  rcases decode_result d b with h' | ⟨n, ph, h'⟩ | ⟨c, -, h'⟩ <;> rw [h'] at h
  · cases h
  · cases h
  · cases hn : Packet.new (d.stored ++ [c]) d.strict with
    | error f => rw [hn] at h; cases h
    | ok q =>
      rw [hn] at h
      cases h
      obtain rfl := Packet.eq_of_new hn
      exact hn

theorem decode_effect (hw : d.WellFormed) (b : UInt8) : Effect d (d.decode b) := by
  obtain ⟨hcnt, hinv⟩ := counts_decode d b
  have herr := fun f (h : (d.decode b).2 = .error f) => decode_error hw h
  rcases hd : d.decode b with ⟨d', r⟩
  rw [hd] at hcnt hinv herr
  cases r with
  | ok o =>
    cases o with
    | none => exact .quiet hcnt hinv
    | some q => exact .delivered hcnt hinv
  | error f =>
    rcases herr f rfl with ⟨n, ph, rfl⟩ | hf
    · exact .overflow hcnt hinv
    · -- a packet error is counted as invalid, a storage fault is not
      have hp : Result.rejects (.error f) = true := by
        cases hf <;> rfl
      rw [hp] at hinv
      exact .rejected hf hcnt hinv

theorem run_delivered (d : Decoder) (bs : Bytes) :
    ∀ r ∈ (d.run bs).2, ∀ p, r = .ok (some p) → Packet.new p.bytes d.strict p.writable = .ok p := by
  induction bs generalizing d with
  | nil => intro r hr; cases hr
  | cons b rest ih =>
    intro r hr p hp
    rw [run_cons] at hr
    rcases List.mem_cons.mp hr with rfl | hr
    · exact decode_delivered hp
    · rw [← (capacity_decode d b).2]
      exact ih (d.decode b).1 r hr p hp

/-- Keeping the owned copy of each delivered packet keeps one for every packet, in order. -/
theorem map_copy {rs : List Result} {s : Bool}
    (h : ∀ r ∈ rs, ∀ p, r = .ok (some p) → Packet.new p.bytes s p.writable = .ok p) :
    (rs.filterMap Result.packet?).map Packet.copy = (rs.filterMap Result.copy?).map .ok := by
  induction rs with
  | nil => rfl
  | cons r rs ih =>
    have ht := ih fun r' hr' => h r' (List.mem_cons_of_mem _ hr')
    match r, h with
    | .error _, _ => exact ht
    | .ok none, _ => exact ht
    | .ok (some p), h =>
      obtain ⟨n, q, -, hq, -⟩ := Packet.copy_of_new (h _ List.mem_cons_self p rfl)
      have hc : Result.copy? (.ok (some p)) = some q := by simp only [Result.copy?, hq]; rfl
      simp only [List.filterMap_cons, Result.packet?, hc, List.map_cons, hq, ht]

/-- Every byte has one of four effects, and the counters never fall. -/
theorem decode_effects :
    (∀ (d : Decoder) (pre : Bytes) (b : UInt8), d.Reachable →
      Effect (d.run pre).1 ((d.run pre).1.decode b)) ∧
    (∀ (d : Decoder) (c : UInt8) (w : Bool), d.Reachable → d.phase = .crcB1 →
      6 ≤ (d.stored ++ [c]).length ∧
      ∀ n, Packet.wireSize ⟨d.stored ++ [c], w⟩ = .ok n → n = (d.stored ++ [c]).length) ∧
    (∀ (d : Decoder) (bs : Bytes),
      d.count ≤ (d.run bs).1.count ∧ d.invalidCount ≤ (d.run bs).1.invalidCount ∧
      (d.decodeAll bs).1 = (d.run bs).1 ∧
      ((d.run bs).2.filterMap Result.packet?).map Packet.copy = (d.decodeAll bs).2.map .ok) := by
  refine ⟨fun d pre b hr => decode_effect (hr.run pre).wellFormed b, ?_, ?_⟩
  · intro d c w hr h1
    have hx := hr.wellFormed.extent_crcB1 h1 c
    exact ⟨six_le_of_extent hx, fun n hn => Packet.wireSize_of_extent hx hn⟩
  · intro d bs
    obtain ⟨hc, hi⟩ := counts_run d bs
    exact ⟨by omega, by omega, rfl, map_copy (run_delivered d bs)⟩

theorem decode_effects_last_byte :
    let d₀ : Decoder := { capacity := 16, strict := false }
    let pre : Bytes := [2, 1, 6, 1, 7, 9, 211]
    d₀.Reachable ∧ Effect (d₀.run pre).1 ((d₀.run pre).1.decode 132) ∧
      (d₀.run pre).1.Reachable ∧ (d₀.run pre).1.phase = .crcB1 ∧
      6 ≤ ((d₀.run pre).1.stored ++ [132]).length ∧
      ∀ n, Packet.wireSize ⟨(d₀.run pre).1.stored ++ [132], true⟩ = .ok n →
        n = ((d₀.run pre).1.stored ++ [132]).length := by
  intro d₀ pre
  have h₀ : d₀.Reachable := .new (show Decoder.new 16 false true = .ok d₀ from rfl)
  have h₁ : (d₀.run pre).1.phase = .crcB1 := by decide
  exact ⟨h₀, decode_effects.1 d₀ pre 132 h₀, h₀.run pre, h₁,
    decode_effects.2.1 _ 132 true (h₀.run pre) h₁⟩

end Stream.Decoder

end PacketLink
