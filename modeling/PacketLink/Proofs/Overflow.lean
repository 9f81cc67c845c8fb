import PacketLink.Proofs.RoundTrip
/-! # Storage faults

A decoder raises a storage fault only for a frame that cannot fit: by then it holds the frame's
header, the size the header describes is larger than the storage, and the phase is past the
header. The rest of the frame gives nothing. No header describes more than 1045 bytes, so a
decoder with that much storage never raises one, and every smaller storage is overrun by the
frame of some packet.
-/
namespace PacketLink.Stream

/-- The largest frame a header can describe: fifteen identifier bytes, offset metadata and the
longest payload. -/
theorem frameSize_max : Header.frameSize MessageId.maxSize Header.maxDataLength true = 1045 := rfl

theorem frameExtent?_le {xs : Bytes} {n : Nat} (h : frameExtent? xs = some n) :
    n ≤ Header.frameSize MessageId.maxSize Header.maxDataLength true := by
  rw [frameSize_max]
  match xs, h with
  | b0 :: b1 :: b2 :: _, h =>
    simp only [frameExtent?, Option.some.injEq] at h
    subst h
    have hl : Header.dataLength b0 b1 ≤ 1023 := by
      rw [Header.dataLength]; have := b0.toNat_lt; omega
    have hi : Header.idLength b2 ≤ 15 := by rw [Header.idLength]; omega
    have hm : max 1 (Header.idLength b2) ≤ 15 := Nat.max_le.2 ⟨by omega, hi⟩
    have ho : (if Header.offset b1 = true then 2 else 0) ≤ 2 := by split <;> omega
    simp only [Header.frameSize, Header.baseSize]
    omega

namespace Decoder

variable {d : Decoder} {b c : UInt8} {c' : Nat} {ph : Phase}

theorem new_of_le {C : Nat} {s : Bool} (h : Header.baseSize ≤ C) :
    Decoder.new C s = .ok { capacity := C, strict := s } := by
  have h5 : ¬ (C : Int) < Header.baseSize := by simp only [Header.baseSize] at h ⊢; omega
  simp only [Decoder.new, h5, Bool.not_true, Bool.false_eq_true, if_false, Int.toNat_natCast]
  rw [if_neg (by omega)]

theorem parse_storageFull (h : (d.parse c).2 = .error (.storageFull c' ph)) :
    c' = d.capacity ∧ ph = d.phase ∧ d.capacity ≤ d.stored.length ∧
      (d.parse c).1.discarding = true := by
  by_cases h0 : d.phase = .frameOffset
  · rw [parse_frameOffset h0] at h; cases h
  by_cases hfull : d.capacity ≤ d.stored.length
  · rw [parse_of_le h0 hfull] at h ⊢
    cases h
    exact ⟨rfl, rfl, hfull, rfl⟩
  by_cases h1 : d.phase = .crcB1
  · -- the check raises only packet errors, and a storage fault is not one
    rw [parse_crcB1 h1 (Nat.lt_of_not_le hfull), (finish_eq _).2.2.2.1] at h
    generalize hn : Packet.new _ _ = r at h
    cases r with
    | ok p => cases h
    | error e =>
      cases h
      have := Packet.new_error_isPacketError hn
      cases this
  · rw [(parse_of_lt h0 h1 (Nat.lt_of_not_le hfull)).1] at h; cases h

theorem decode_storageFull (h : (d.decode b).2 = .error (.storageFull c' ph)) :
    c' = d.capacity ∧ ph = d.phase ∧ d.capacity ≤ d.stored.length ∧
      (d.decode b).1.discarding = true := by
  by_cases hb : b = 0
  · subst hb; cases h
  rw [decode_eq hb] at h ⊢
  cases ho : (d.deframer.step b).1 with
  | none => rw [ho] at h; cases h
  | some c =>
    rw [ho] at h
    simp only [absorb] at h ⊢
    by_cases hdis : d.discarding = true
    · rw [if_pos hdis] at h; cases h
    · rw [if_neg hdis] at h ⊢
      exact parse_storageFull h

/-- What a storage fault of a reachable decoder implies: it names the capacity, the header is
stored and describes a frame larger than the storage, the phase is past the header, and the rest
of the frame up to the next delimiter gives nothing. -/
theorem Reachable.storageFull (hr : d.Reachable) (h : (d.decode b).2 = .error (.storageFull c' ph)) :
    c' = d.capacity ∧ d.stored.length = d.capacity ∧ 3 ≤ d.stored.length ∧
      (∃ n, frameExtent? d.stored = some n ∧ d.capacity < n) ∧
      ph ∈ [Phase.msgId, .offsetB0, .offsetB1, .payload, .crcB0, .crcB1] ∧
      ∀ t : Bytes, 0 ∉ t → ((d.decode b).1.run t).2 = List.replicate t.length (.ok none) := by
  obtain ⟨hc, hph, hfull, hdis⟩ := decode_storageFull h
  have hw := hr.wellFormed
  have h5 : Header.baseSize ≤ d.capacity := hr.capacity
  -- a full storage holds at least five bytes, so the header is stored
  have hlen : d.stored.length = d.capacity := Nat.le_antisymm hw.1 hfull
  have h3 : 3 ≤ d.stored.length := by simp only [Header.baseSize] at h5; omega
  obtain ⟨hh, hlt, -⟩ := hw.lt_size h3
  refine ⟨hc, hlen, h3, ⟨d.size, hh.extent, by omega⟩, ?_,
    fun t ht => (run_of_discarding hdis ht).1⟩
  rw [hph]
  cases hp : d.phase with
  | frameOffset | headerB0 | headerB1 | headerB2 =>
    exact absurd (hw.length_le_two (by simp [hp])) (by omega)
  | msgId | offsetB0 | offsetB1 | payload | crcB0 | crcB1 => decide

theorem Reachable.stored_lt (hr : d.Reachable) :
    d.stored.length < Header.frameSize MessageId.maxSize Header.maxDataLength true := by
  have hw := hr.wellFormed
  by_cases h3 : 3 ≤ d.stored.length
  · obtain ⟨hh, hlt, -⟩ := hw.lt_size h3
    exact Nat.lt_of_lt_of_le hlt (frameExtent?_le hh.extent)
  · rw [frameSize_max]; omega

theorem Reachable.storageFull_not_mem (hr : d.Reachable)
    (hc : Header.frameSize MessageId.maxSize Header.maxDataLength true ≤ d.capacity) (bs : Bytes) :
    (.error (.storageFull c' ph) : Result) ∉ (d.run bs).2 := by
  induction bs generalizing d with
  | nil => exact List.not_mem_nil
  | cons b r ih =>
    rw [run_cons, List.mem_cons, not_or]
    refine ⟨fun h => ?_, ih (hr.decode b) (by rw [(capacity_decode d b).1]; exact hc)⟩
    obtain ⟨-, -, -, ⟨n, hn, hlt⟩, -⟩ := hr.storageFull h.symm
    have := frameExtent?_le hn
    omega

/-- Every smaller storage is overrun by the frame of the largest packet. -/
theorem overrun_of_lt {C : Nat} (s : Bool) (h5 : Header.baseSize ≤ C)
    (hC : C < Header.frameSize MessageId.maxSize Header.maxDataLength true) :
    ∃ (sp : Packet.Spec) (x : Bytes) (d : Decoder), sp.build = .ok x ∧
      Decoder.new C s = .ok d ∧ ∃ c' ph, (.error (.storageFull c' ph) : Result) ∈ (d.run (Frame.encode x)).2 := by
  let sp : Packet.Spec :=
    { msgId := List.replicate 15 1, payload := List.replicate 1023 1, typeCode := 0, offset := true }
  have hv : MessageId.Valid sp.msgId := by decide
  have hl : sp.payload.length ≤ Header.maxDataLength := Nat.le_of_eq (List.length_replicate ..)
  have ht : sp.typeCode ≤ 15 := by decide
  have hb := Packet.Spec.build_eq hv hl (by decide) ht
  obtain ⟨-, -, -, -, -, -, -, -, -, hbl⟩ := Packet.Spec.body_header hv hl ht
  have hlen : (sp.body ++ Bytes.ofWord (Checksum.crc16 sp.body).toNat).length = 1045 := by
    simp only [List.length_append, hbl, sp, List.length_replicate, Bytes.ofWord, List.length_cons,
      List.length_nil, if_true]
  have hnew := new_of_le (s := s) h5
  obtain ⟨i, ph, -, hres⟩ := (ready_of_new hnew).run_too_long (Deframer.zero_not_mem_cobs _)
    (Deframer.run_cobs _) (fits_of_extent (frameExtent?_of_build hb))
    (by rw [hlen]; rw [frameSize_max] at hC; exact hC)
  refine ⟨sp, _, _, hb, hnew, C, ph, ?_⟩
  rw [Frame.encode, Frame.standard_encode, hres]
  exact List.mem_append_right _ List.mem_cons_self

/-- Storage faults come only from frames that cannot fit, and 1045 bytes of storage always
suffice. -/
theorem storageFull_only_when_frame_too_long :
    (∀ (d : Decoder) (b : UInt8) (c : Nat) (ph : Phase), d.Reachable →
      (d.decode b).2 = .error (.storageFull c ph) →
      c = d.capacity ∧ d.stored.length = d.capacity ∧ 3 ≤ d.stored.length ∧
      (∃ n, frameExtent? d.stored = some n ∧ d.capacity < n) ∧
      ph ∈ [Phase.msgId, .offsetB0, .offsetB1, .payload, .crcB0, .crcB1] ∧
      ∀ t : Bytes, 0 ∉ t → ((d.decode b).1.run t).2 = List.replicate t.length (.ok none)) ∧
    (∀ d : Decoder, d.Reachable →
      d.stored.length < Header.frameSize MessageId.maxSize Header.maxDataLength true) ∧
    (∀ d : Decoder, d.Reachable →
      Header.frameSize MessageId.maxSize Header.maxDataLength true ≤ d.capacity →
      ∀ (bs : Bytes) (c : Nat) (ph : Phase), (.error (.storageFull c ph) : Result) ∉ (d.run bs).2) ∧
    (∀ (bs : Bytes) (c : Nat) (ph : Phase),
      (.error (.storageFull c ph) : Result) ∉ ((Decoder.ofConfig {}).run bs).2) ∧
    (∀ (C : Nat) (s : Bool), Header.baseSize ≤ C →
      C < Header.frameSize MessageId.maxSize Header.maxDataLength true →
      ∃ (sp : Packet.Spec) (x : Bytes) (d : Decoder), sp.build = .ok x ∧ Decoder.new C s = .ok d ∧
        ∃ c ph, (.error (.storageFull c ph) : Result) ∈ (d.run (Frame.encode x)).2) ∧
    Header.frameSize MessageId.maxSize Header.maxDataLength true = 1045 ∧
    Header.frameSize MessageId.maxSize Header.maxDataLength true = Packet.maxPacketSize + 1 ∧
    (Decoder.ofConfig {}).capacity = 1050 := by
  have hdefault : (Decoder.ofConfig {}).Reachable :=
    .new (show Decoder.new 1050 false true = .ok (Decoder.ofConfig {}) from rfl)
  exact ⟨fun d b c ph hr h => hr.storageFull h, fun d hr => hr.stored_lt,
    fun d hr hc bs c ph => hr.storageFull_not_mem hc bs,
    fun bs c ph => hdefault.storageFull_not_mem (by decide) bs,
    fun C s h5 hC => overrun_of_lt s h5 hC, frameSize_max, rfl, by decide⟩

theorem storageFull_small_storage :
    let d : Decoder := (({ capacity := 5, strict := false } : Decoder).run [7, 1, 1, 1, 1, 1]).1
    let e : Decoder := { capacity := 1045, strict := false }
    d.Reachable ∧ (d.decode 1).2 = .error (.storageFull 5 .payload) ∧
      (5 = d.capacity ∧ d.stored.length = d.capacity ∧ 3 ≤ d.stored.length ∧
        (∃ n, frameExtent? d.stored = some n ∧ d.capacity < n) ∧
        Phase.payload ∈ [Phase.msgId, .offsetB0, .offsetB1, .payload, .crcB0, .crcB1] ∧
        ∀ t : Bytes, 0 ∉ t → ((d.decode 1).1.run t).2 = List.replicate t.length (.ok none)) ∧
      d.stored.length < Header.frameSize MessageId.maxSize Header.maxDataLength true ∧
      e.Reachable ∧ Header.frameSize MessageId.maxSize Header.maxDataLength true ≤ e.capacity ∧
      (∀ (bs : Bytes) (c : Nat) (ph : Phase), (.error (.storageFull c ph) : Result) ∉ (e.run bs).2) ∧
      Header.baseSize ≤ 5 ∧ 5 < Header.frameSize MessageId.maxSize Header.maxDataLength true ∧
      (∃ (sp : Packet.Spec) (x : Bytes) (d : Decoder), sp.build = .ok x ∧
        Decoder.new 5 false = .ok d ∧
        ∃ c ph, (.error (.storageFull c ph) : Result) ∈ (d.run (Frame.encode x)).2) := by
  intro d e
  have hd : d.Reachable :=
    Reachable.run (.new (show Decoder.new 5 false true = .ok { capacity := 5, strict := false } from rfl)) _
  have hfault : (d.decode 1).2 = .error (.storageFull 5 .payload) := rfl
  have he : e.Reachable := .new (show Decoder.new 1045 false true = .ok e from rfl)
  have hcap : Header.frameSize MessageId.maxSize Header.maxDataLength true ≤ e.capacity := by decide
  have h5 : Header.baseSize ≤ 5 := by decide
  have hlt : 5 < Header.frameSize MessageId.maxSize Header.maxDataLength true := by decide
  exact ⟨hd, hfault, storageFull_only_when_frame_too_long.1 d 1 5 .payload hd hfault,
    storageFull_only_when_frame_too_long.2.1 d hd, he, hcap,
    storageFull_only_when_frame_too_long.2.2.1 e he hcap, h5, hlt,
    storageFull_only_when_frame_too_long.2.2.2.2.1 5 false h5 hlt⟩

end Decoder

end PacketLink.Stream
