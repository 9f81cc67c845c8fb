import PacketLink.Proofs.FrameReading
/-! # What the storage holds

The decoder's representation invariant, along every run. The current frame is what came in since
the decoder last waited for a frame: since its construction, a reset, a delimiter or the last
byte of a frame. The de-framing stage is where that input leaves it, and while nothing is being
skipped the storage holds exactly the bytes it passed on, past the zero that the frame's first
code byte stands for. The stored bytes are as many as the phase fixes, never more than the
capacity, and once the header is stored the length registers hold its fields.
-/
namespace PacketLink.Stream

theorem Deframer.run_concat (d : Deframer) (t : Bytes) (b : UInt8) :
    d.run (t ++ [b]) = ((d.run t).1 ++ ((d.run t).2.step b).1.toList, ((d.run t).2.step b).2) := by
  rw [Deframer.run_append, Deframer.run_cons, Deframer.run_nil, List.append_nil]

namespace Decoder

variable {d d' : Decoder} {t : Bytes} {b : UInt8}

/-- The input of the current frame once `b` has come in after `t`: it starts afresh when the byte
leaves the decoder waiting for a frame, and `b` joins it otherwise. -/
def frameInput (d : Decoder) (t : Bytes) (b : UInt8) : Bytes :=
  if (d.decode b).1.phase = .frameOffset then [] else t ++ [b]

/-- The decoders reached from construction by bytes and resets, each with the input of its
current frame. -/
inductive Reads : Decoder → Bytes → Prop
  | new {size : Int} {s w : Bool} {d : Decoder} : Decoder.new size s w = .ok d → Reads d []
  | decode {d : Decoder} {t : Bytes} (b : UInt8) : Reads d t →
      Reads (d.decode b).1 (d.frameInput t b)
  | reset {d : Decoder} {t : Bytes} : Reads d t → Reads d.reset []

/-- The representation invariant of a decoder whose current frame has the input `t`. -/
structure Represents (d : Decoder) (t : Bytes) : Prop where
  /-- The stored bytes are as many as the phase fixes, and the registers hold the header. -/
  wellFormed : d.WellFormed
  /-- The decoder waits for a frame exactly when the frame has no input yet, and is then at
  rest. -/
  waiting : d.phase = .frameOffset ↔ t = []
  rest : t = [] → d.Ready
  /-- The de-framing stage is where the frame's input leaves it. -/
  deframer : d.deframer = (Deframer.start.run t).2
  /-- Unless the frame is being skipped, the parser has taken all the stage passed on. -/
  fed : d.discarding = false → d.fed = (Deframer.start.run t).1

theorem Ready.represents (h : d.Ready) : d.Represents [] where
  wellFormed := h.wellFormed
  waiting := by simp [h.phase]
  rest _ := h
  deframer := h.deframer
  fed _ := h.fed

/-- A byte that keeps the decoder within its frame adds to the frame's input. -/
theorem Represents.extend (h : d.Represents t) (hw : d'.WellFormed)
    (h0 : d'.phase ≠ .frameOffset) (hdf : d'.deframer = (d.deframer.step b).2)
    (hfed : d'.discarding = false →
      d.discarding = false ∧ d'.fed = d.fed ++ (d.deframer.step b).1.toList) :
    d'.Represents (t ++ [b]) where
  wellFormed := hw
  waiting := by simp [h0]
  rest := by simp
  deframer := by rw [Deframer.run_concat, hdf, h.deframer]
  fed hd := by
    obtain ⟨hd0, hf⟩ := hfed hd
    rw [Deframer.run_concat, hf, h.fed hd0, h.deframer]

/-- Within a frame, a byte other than a delimiter either completes the frame and rearms the
decoder, or adds to the frame. -/
theorem Represents.decode_within (h : d.Represents t) (ht : t ≠ []) (hb : b ≠ 0) :
    (d.decode b).1.Ready ∨
      (d.decode b).1.Represents (t ++ [b]) ∧ (d.decode b).1.phase ≠ .frameOffset := by
  have h0 : d.phase ≠ .frameOffset := fun hp => ht (h.waiting.1 hp)
  rw [decode_eq hb]
  cases ho : (d.deframer.step b).1 with
  | none =>
    -- a code byte after a full block passes nothing on
    refine .inr ⟨h.extend h.wellFormed h0 rfl fun hd => ⟨hd, ?_⟩, h0⟩
    rw [ho]
    exact (List.append_nil _).symm
  | some c =>
    have hw₁ := wellFormed_parse (d := { d with deframer := (d.deframer.step b).2 }) h.wellFormed c
    simp only [absorb]
    split
    · next hd => exact .inr ⟨h.extend h.wellFormed h0 rfl fun hd' => absurd hd (by simp_all), h0⟩
    · next hd =>
      by_cases hfull : d.capacity ≤ d.stored.length
      · -- the storage is full: the rest of the frame is skipped
        rw [parse_of_le (d := { d with deframer := (d.deframer.step b).2 }) h0 hfull] at hw₁ ⊢
        exact .inr ⟨h.extend hw₁ h0 rfl fun hd' => absurd hd' (by simp), h0⟩
      by_cases h1 : d.phase = .crcB1
      · rw [parse_crcB1 (d := { d with deframer := (d.deframer.step b).2 }) h1 (Nat.lt_of_not_le hfull)]
        exact .inl (finish_eq _).1
      · obtain ⟨-, hc⟩ := parse_of_lt (d := { d with deframer := (d.deframer.step b).2 }) (c := c) h0 h1
          (Nat.lt_of_not_le hfull)
        refine .inr ⟨h.extend hw₁ hc.phase hc.deframer fun _ => ⟨by simpa using hd, ?_⟩, hc.phase⟩
        simp [Decoder.fed, hc.phase, hc.stored, h0, ho]

/-- Every byte keeps the invariant, with the frame's input as `frameInput` gives it. -/
theorem Represents.decode (h : d.Represents t) (b : UInt8) :
    (d.decode b).1.Represents (d.frameInput t b) := by
  by_cases hb : b = 0
  · subst hb
    rw [frameInput, decode_zero, if_pos (ready_reset d).phase]
    exact (ready_reset d).represents
  by_cases ht : t = []
  · -- the frame's first code byte
    subst ht
    have hd := h.rest rfl
    rw [frameInput, hd.decode_first hb]
    refine { wellFormed := ⟨by simp [hd.stored], hd.stored⟩, waiting := by simp, rest := by simp,
             deframer := rfl, fed := fun _ => ?_ }
    -- at rest the frame's first code byte stands for a zero
    have hs : (Deframer.start.step b).1.toList = [0] := Deframer.step_of_le_toList (Nat.zero_le 1) b
    simp [Decoder.fed, hd.stored, Deframer.run_cons, hs]
  · rcases h.decode_within ht hb with hr | ⟨hr, h0⟩
    · rw [frameInput, if_pos hr.phase]
      exact hr.represents
    · rw [frameInput, if_neg h0]
      exact hr

theorem Represents.reset (_ : d.Represents t) : d.reset.Represents [] := (ready_reset d).represents

theorem Reads.represents (h : d.Reads t) : d.Represents t := by
  induction h with
  | new hn => exact (ready_of_new hn).represents
  | decode b _ ih => exact ih.decode b
  | reset _ ih => exact ih.reset

theorem Reads.decode_within (h : d.Reads t) (h0 : (d.decode b).1.phase ≠ .frameOffset) :
    (d.decode b).1.Reads (t ++ [b]) := by
  have h' := h.decode b
  rwa [frameInput, if_neg h0] at h'

/-- Every reached decoder holds what the de-framing stage passed on for its current frame. -/
theorem storage_holds_current_frame (h : d.Reads t) :
    d.Represents t ∧ (3 ≤ d.stored.length → d.HeaderHeld) ∧
      (∀ b, (d.decode b).1.Represents (d.frameInput t b)) ∧ d.reset.Represents [] := by
  have hr := h.represents
  exact ⟨hr, fun h3 => (hr.wellFormed.lt_size h3).1, hr.decode, hr.reset⟩

theorem storage_holds_current_frame_mid_payload :
    let d := (({ capacity := 16, strict := false } : Decoder).run [9, 2, 4, 1, 7, 9]).1
    d.Reads [9, 2, 4, 1, 7, 9] ∧ d.phase = .payload ∧
      (d.Represents [9, 2, 4, 1, 7, 9] ∧ (3 ≤ d.stored.length → d.HeaderHeld) ∧
        (∀ b, (d.decode b).1.Represents (d.frameInput [9, 2, 4, 1, 7, 9] b)) ∧
        d.reset.Represents []) := by
  intro d
  have h0 : ({ capacity := 16, strict := false } : Decoder).Reads [] :=
    .new (show Decoder.new 16 false true = .ok _ from rfl)
  -- the frame's first code byte, the three header bytes, the identifier and a payload byte
  have h : d.Reads [9, 2, 4, 1, 7, 9] :=
    (((((h0.decode_within (b := 9) (by decide)).decode_within (b := 2) (by decide)).decode_within
      (b := 4) (by decide)).decode_within (b := 1) (by decide)).decode_within (b := 7)
      (by decide)).decode_within (b := 9) (by decide)
  exact ⟨h, by decide, storage_holds_current_frame h⟩

end Decoder

end PacketLink.Stream
