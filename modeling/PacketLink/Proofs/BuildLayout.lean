import PacketLink.Packet.Build
import PacketLink.Proofs.HeaderFields
/-! # Built packets

A build runs its edits on a zeroed buffer of the packet's size. The header edits each return and
set their field, so after them every field holds the spec's value, and the seven fields determine
the three header bytes; the identifier's edit writes the identifier right after the header. The
payload then goes over the zeros after the identifier and the offset metadata, and the checksum
over the last two zeros. So a build fails on the identifier, then on the payload's length, then
on the type code, and otherwise yields the layout followed by its checksum.
-/
namespace PacketLink.Bytes

theorem slice_append_middle (pre mid post : Bytes) :
    (pre ++ mid ++ post).slice pre.length (pre.length + mid.length) = mid := by
  rw [slice, List.take_left' (List.length_append ..), List.drop_left]

end PacketLink.Bytes

namespace PacketLink.Packet

open Header

variable {p : Packet} {b0 b1 b2 : UInt8} {rest : Bytes}

section Spans

variable (hp : p.bytes = b0 :: b1 :: b2 :: rest) (hw : p.writable = true)
include hp hw

theorem run_setMsgId {bs : Bytes} (hv : MessageId.Valid bs) (hroom : 3 + bs.length ≤ p.length) :
    (Edit.setMsgId bs).run p = (.ok (), { p.putField .idLength bs.length with
      bytes := (p.putField .idLength bs.length).bytes.overwrite 3 bs }) := by
  have hm : MessageId.ofBytes bs = .ok ⟨bs, hv⟩ := dif_pos hv
  have hl : (1 : Int) ≤ (IntArg.int bs.length).toInt ∧ (IntArg.int bs.length).toInt ≤ 15 := by
    have := hv.1
    have := hv.2.1
    simp only [IntArg.toInt_int]
    omega
  simp only [Edit.setMsgId, Edit.run_bind, Edit.run_read, hm, Edit.run_checkWritable, hw, if_true,
    MessageId.length, span_of_le hroom, run_setIdLength hp hw hl.1 hl.2, IntArg.toInt_int,
    Int.toNat_natCast, Edit.run_writeSpan]

variable (hid : Header.idLength b2 ≠ 0) (hroom : sizeOf b0 b1 b2 ≤ p.length)
include hid hroom

theorem run_writePayload {bs : Bytes} (hbs : bs.length = Header.dataLength b0 b1) :
    (Edit.writePayload bs).run p =
      (.ok (), { p with bytes := p.bytes.overwrite (payloadFrom b1 b2) bs }) := by
  have hcrc : crcStart b0 b1 b2 ≤ p.length := by rw [← crcStart_add_two] at hroom; omega
  have hlen : (p.bytes.slice (payloadFrom b1 b2) (crcStart b0 b1 b2)).length = bs.length := by
    have := crcStart_eq b0 b1 b2
    simp only [Packet.length] at hcrc
    simp only [Bytes.slice, List.length_drop, List.length_take]
    omega
  simp only [Edit.writePayload, Edit.run_bind, Edit.run_checkWritable, hw, if_true, Edit.run_read,
    payload_span hp hid, span_of_le hcrc, hlen, payloadStart_eq hp hid, Edit.run_writeSpan]

theorem run_setChecksumComputed :
    Edit.setChecksumComputed.run p = (.ok (), { p with
      bytes := p.bytes.overwrite (crcStart b0 b1 b2)
        (Bytes.ofWord (Checksum.crc16 (p.bytes.take (crcStart b0 b1 b2))).toNat) }) := by
  have hcrc : crcStart b0 b1 b2 + 2 ≤ p.length := by rw [crcStart_add_two]; exact hroom
  -- the checksum is below `2 ^ 16`, so the setter writes it unreduced
  have hv : ((Checksum.crc16 (p.bytes.take (crcStart b0 b1 b2))).toNat % 65536 : Int).toNat =
      (Checksum.crc16 (p.bytes.take (crcStart b0 b1 b2))).toNat := by
    have := (Checksum.crc16 (p.bytes.take (crcStart b0 b1 b2))).toNat_lt
    omega
  simp only [Edit.setChecksumComputed, Edit.run_bind, Edit.run_read,
    computeChecksum_eq hp hid (Nat.le_of_add_right_le hcrc), Edit.setChecksum,
    checksumStart_eq hp hid, Edit.run_checkWritable, hw, if_true, span_of_le hcrc,
    Edit.run_writeSpan, hv]

end Spans

/-- A header edit that puts a field's value, as one step of a run. -/
theorem putField_step {e : Edit Unit} {f : Field} {c : Nat}
    (hp : p.bytes = b0 :: b1 :: b2 :: rest) (hf : f ≠ .dataLength) (hc : c < f.range)
    (he : e.run p = (.ok (), p.putField f c)) :
    ∃ q, e.run p = (.ok (), q) ∧ SetsField f c p q ∧
      ∃ a0 a1 a2, q.bytes = a0 :: a1 :: a2 :: rest :=
  let ⟨a0, a1, a2, h⟩ := putField_bytes hp f c
  ⟨_, he, setsField_putField hf hp hc, a0, a1, a2, h⟩

/-- The identifier's edit, as one step of a run: it sets the identifier length and writes the
identifier's bytes right after the header. -/
theorem setMsgId_step (hp : p.bytes = b0 :: b1 :: b2 :: rest) (hw : p.writable = true)
    {bs : Bytes} (hv : MessageId.Valid bs) (hroom : bs.length ≤ rest.length) :
    ∃ q, (Edit.setMsgId bs).run p = (.ok (), q) ∧
      (∀ g, q.field g = if g = .idLength then .ok bs.length else p.field g) ∧
      q.writable = p.writable ∧ ∃ a0 a1 a2, q.bytes = a0 :: a1 :: a2 :: rest.overwrite 0 bs := by
  have h3 : 3 + bs.length ≤ p.length := by
    simp only [Packet.length, hp, List.length_cons]; omega
  obtain ⟨a0, a1, a2, hq⟩ := putField_bytes hp .idLength bs.length
  have hs := setsField_putField (f := .idLength) (c := bs.length) (by decide) hp
    (by simp only [Field.range]; have := hv.2.1; omega)
  refine ⟨_, run_setMsgId hp hw hv h3, fun g => ?_, rfl, a0, a1, a2,
    Bytes.overwrite_header bs hq (Nat.le_refl 3)⟩
  rw [field_overwrite hq (Nat.le_refl 3), hs.field_update]

namespace Spec

variable {s : Spec} {x : Bytes}

/-- The value a spec gives each header field. -/
def fieldValue (s : Spec) : Field → Nat
  | .dataLength => s.payload.length
  | .typeCode => s.typeCode.toNat
  | .internal => s.internal.toNat
  | .offset => s.offset.toNat
  | .idLength => s.msgId.length
  | .response => s.response.toNat
  | .acknum => (s.acknum % 8).toNat

/-- The layout starts with a header whose fields hold the spec's values. -/
theorem body_fields (hv : MessageId.Valid s.msgId) (hl : s.payload.length ≤ 1023)
    (ht : s.typeCode ≤ 15) :
    ∃ b0 b1 b2, s.body = b0 :: b1 :: b2 :: (s.msgId ++ (if s.offset then [0, 0] else []) ++
      s.payload) ∧ ∀ g, g.value b0 b1 b2 = s.fieldValue g := by
  have hI := hv.2.1
  refine ⟨_, _, _, rfl, fun g => ?_⟩
  cases g
  all_goals simp only [Field.value, fieldValue]
  · rw [Header.dataLength, high_byte1 _ _ _ _ (by omega) (by omega), UInt8.toNat_ofNat']
    omega
  · exact typeCode_byte1 _ _ _ _ (by omega) (by omega)
  · rw [internal_byte1 _ _ _ _ (by omega) (by omega)]
  · rw [offset_byte1 _ _ _ _ (by omega) (by omega)]
  · exact idLength_byte2 _ _ _ (by omega) (by omega)
  · rw [response_byte2 _ _ _ (by omega) (by omega)]
  · exact acknum_byte2 _ _ _ (by omega) (by omega)

/-- The header edits, on a buffer that starts with three zero bytes and has room for the
identifier, write the header whose fields hold the spec's values and the identifier after it. -/
theorem run_setHeader (hv : MessageId.Valid s.msgId) (hl : s.payload.length ≤ 1023)
    (ht0 : 0 ≤ s.typeCode) (ht : s.typeCode ≤ 15) {b0 b1 b2 : UInt8}
    (hb : ∀ g, g.value b0 b1 b2 = s.fieldValue g) {rest : Bytes}
    (hroom : s.msgId.length ≤ rest.length) :
    (s.setHeader ⟨s.msgId, hv⟩).run ⟨0 :: 0 :: 0 :: rest, true⟩ =
      (.ok (), ⟨b0 :: b1 :: b2 :: rest.overwrite 0 s.msgId, true⟩) := by
  have hI := hv.2.1
  have hp0 : (⟨0 :: 0 :: 0 :: rest, true⟩ : Packet).bytes = 0 :: 0 :: 0 :: rest := rfl
  have hD0 : (0 : Int) ≤ s.payload.length := Int.natCast_nonneg _
  have hD : (s.payload.length : Int) ≤ 1023 := by omega
  -- each edit returns and sets its field; the identifier's edit also writes past the header
  obtain ⟨p1, r1, s1, hp1⟩ : ∃ q,
      (Edit.setDataLength s.payload.length).run ⟨0 :: 0 :: 0 :: rest, true⟩ = (.ok (), q) ∧
      SetsField .dataLength s.payload.length ⟨0 :: 0 :: 0 :: rest, true⟩ q ∧
      ∃ a0 a1, q.bytes = a0 :: a1 :: 0 :: rest :=
    ⟨_, run_setDataLength_ok hp0 rfl hD0 hD, setsField_dataLength hp0 hD0 hD, _, _, rfl⟩
  have hw1 : p1.writable = true := s1.writable_eq
  obtain ⟨a0, a1, hp1⟩ := hp1
  obtain ⟨p2, r2, s2, _, _, _, hp2⟩ := putField_step hp1 (by decide)
    (by simp only [Field.range]; omega) (run_setTypeCode hp1 hw1 ht0 ht)
  have hw2 : p2.writable = true := s2.writable_eq.trans hw1
  obtain ⟨p3, r3, s3, _, _, _, hp3⟩ := putField_step (e := Edit.setInternal s.internal) hp2
    (by decide) (Bool.toNat_lt _) (run_setFlag hp2 hw2 .internal s.internal rfl)
  have hw3 : p3.writable = true := s3.writable_eq.trans hw2
  obtain ⟨p4, r4, s4, _, _, _, hp4⟩ := putField_step (e := Edit.setOffset s.offset) hp3 (by decide)
    (Bool.toNat_lt _) (run_setFlag hp3 hw3 .offset s.offset rfl)
  have hw4 : p4.writable = true := s4.writable_eq.trans hw3
  obtain ⟨p5, r5, f5, hw5, _, _, _, hp5⟩ := setMsgId_step hp4 hw4 hv hroom
  have hw5 : p5.writable = true := hw5.trans hw4
  obtain ⟨p6, r6, s6, _, _, _, hp6⟩ := putField_step (e := Edit.setResponse s.response) hp5
    (by decide) (Bool.toNat_lt _) (run_setFlag hp5 hw5 .response s.response rfl)
  have hw6 : p6.writable = true := s6.writable_eq.trans hw5
  obtain ⟨p7, r7, s7, c0, c1, c2, hp7⟩ := putField_step hp6 (by decide)
    (by simp only [Field.range]; omega) (run_setAcknum hp6 hw6 s.acknum)
  have hw7 : p7.writable = true := s7.writable_eq.trans hw6
  -- after the seven edits every field holds the spec's value, so the header is `b0 b1 b2`
  have hF : ∀ g, p7.field g = .ok (s.fieldValue g) := by
    intro g
    rw [s7.field_update, s6.field_update, f5, s4.field_update, s3.field_update, s2.field_update,
      s1.field_update]
    cases g <;> rfl
  have hc : ∀ g : Field, g.value c0 c1 c2 = g.value b0 b1 b2 := fun g => by
    rw [hb g]
    exact Except.ok.inj ((field_eq hp7 g).symm.trans (hF g))
  obtain ⟨h0, h1, h2⟩ := Field.eq_of_value hc
  unfold setHeader
  rw [Edit.run_bind_ok _ r1, Edit.run_bind_ok _ r2, Edit.run_bind_ok _ r3, Edit.run_bind_ok _ r4,
    Edit.run_bind_ok _ r5, Edit.run_bind_ok _ r6, r7]
  cases p7
  simp only at hp7 hw7
  rw [hp7, hw7, h0, h1, h2]

theorem eq_of_toNat_eq {a b : Bool} (h : a.toNat = b.toNat) : a = b := by
  cases b
  · exact Bool.toNat_eq_zero.mp h
  · exact Bool.toNat_eq_one.mp h

/-- The zeroed buffer, cut where the identifier, the offset metadata, the payload and the
checksum go. -/
theorem bytes_blank (hv : MessageId.Valid s.msgId) : (s.blank ⟨s.msgId, hv⟩).bytes =
    0 :: 0 :: 0 :: (List.replicate s.msgId.length 0 ++
      ((if s.offset then [0, 0] else []) ++ List.replicate s.payload.length 0 ++ [0, 0])) := by
  symm
  refine List.eq_replicate_iff.mpr ⟨?_, fun b hb => ?_⟩
  · cases s.offset <;> simp [MessageId.length, Header.frameSize, Header.baseSize] <;> omega
  · simp only [List.mem_cons, List.mem_append, List.mem_replicate] at hb
    cases s.offset <;> simp at hb <;> grind

theorem run_fill (hv : MessageId.Valid s.msgId) (hl : s.payload.length ≤ 1023)
    (ht0 : 0 ≤ s.typeCode) (ht : s.typeCode ≤ 15) :
    (s.fill ⟨s.msgId, hv⟩).run (s.blank ⟨s.msgId, hv⟩) =
      (.ok (), ⟨s.body ++ Bytes.ofWord (Checksum.crc16 s.body).toNat, true⟩) := by
  obtain ⟨b0, b1, b2, hbody, hb⟩ := body_fields hv hl ht
  have hD : Header.dataLength b0 b1 = s.payload.length := hb .dataLength
  have hI : Header.idLength b2 = s.msgId.length := hb .idLength
  have hO : Header.offset b1 = s.offset := eq_of_toNat_eq (hb .offset)
  have hid : Header.idLength b2 ≠ 0 := by rw [hI]; have := hv.1; omega
  -- the header and the identifier
  obtain ⟨post, hpost⟩ : ∃ post : Bytes, post =
    (if s.offset then [0, 0] else []) ++ List.replicate s.payload.length 0 ++ [0, 0] := ⟨_, rfl⟩
  have hid_write : Bytes.overwrite (List.replicate s.msgId.length 0 ++ post) 0 s.msgId =
      s.msgId ++ post := by
    simpa using Bytes.overwrite_append [] (List.replicate s.msgId.length 0) post s.msgId (by simp)
  have hblank : s.blank ⟨s.msgId, hv⟩ =
      ⟨0 :: 0 :: 0 :: (List.replicate s.msgId.length 0 ++ post), true⟩ := by
    rw [hpost, ← bytes_blank hv]
    rfl
  unfold fill
  rw [hblank, Edit.run_bind_ok _ (run_setHeader hv hl ht0 ht hb (by simp)), hid_write]
  -- the payload, over the zeros after the identifier and the offset metadata
  have hlen : (b0 :: b1 :: b2 :: (s.msgId ++ (if s.offset then [0, 0] else []))).length =
      payloadFrom b1 b2 := by
    cases h : s.offset <;> simp [payloadFrom, idEnd, hI, hO, h] <;> omega
  have hpay : Bytes.overwrite (b0 :: b1 :: b2 :: (s.msgId ++ post)) (payloadFrom b1 b2) s.payload =
      s.body ++ [0, 0] := by
    have h := Bytes.overwrite_append (b0 :: b1 :: b2 :: (s.msgId ++ (if s.offset then [0, 0] else [])))
      (List.replicate s.payload.length 0) [0, 0] s.payload (by simp)
    rw [hlen] at h
    rw [hbody, hpost]
    simpa using h
  have hroom7 :
      sizeOf b0 b1 b2 ≤ (⟨b0 :: b1 :: b2 :: (s.msgId ++ post), true⟩ : Packet).length := by
    rw [hpost]
    cases h : s.offset <;>
      simp [Header.frameSize, Header.baseSize, Packet.length, hI, hD, hO, h] <;> omega
  rw [Edit.run_bind_ok _ (run_writePayload rfl rfl hid hroom7 hD.symm), hpay]
  -- the checksum, over the two zeros after the payload
  have hcrc : crcStart b0 b1 b2 = s.body.length := by
    rw [crcStart_eq, ← hlen, hD, hbody]
    simp only [List.length_cons, List.length_append]
    omega
  have hp8 : (⟨s.body ++ [0, 0], true⟩ : Packet).bytes =
      b0 :: b1 :: b2 :: ((s.msgId ++ (if s.offset then [0, 0] else []) ++ s.payload) ++ [0, 0]) := by
    rw [hbody]
    rfl
  have hroom8 : sizeOf b0 b1 b2 ≤ (⟨s.body ++ [0, 0], true⟩ : Packet).length := by
    rw [← crcStart_add_two, hcrc]
    simp [Packet.length]
  have hsum := Bytes.overwrite_append s.body [0, 0] [] (Bytes.ofWord (Checksum.crc16 s.body).toNat) rfl
  rw [run_setChecksumComputed hp8 rfl hid hroom8, hcrc, List.take_left]
  simpa using hsum

theorem run_setTypeCode_error {c : Int} (h : ¬(0 ≤ c ∧ c ≤ 15)) (p : Packet) :
    (Edit.setTypeCode c).run p = (.error (.typeUndefined c), p) := by
  unfold Edit.setTypeCode
  rw [if_neg h]
  simp only [Edit.run_bind, Edit.run_throw]

/-- The outcome of a build: the identifier is checked first, then the payload's length, then the
type code, and a build that passes them gives the layout and its checksum. -/
theorem build_eq_cases (s : Spec) : s.build =
    if ¬MessageId.Valid s.msgId then .error (.idInvalid s.msgId)
    else if Header.maxDataLength < s.payload.length then
      .error (.dataLengthOutOfRange s.payload.length)
    else if ¬(0 ≤ s.typeCode ∧ s.typeCode ≤ 15) then .error (.typeUndefined s.typeCode)
    else .ok (s.body ++ Bytes.ofWord (Checksum.crc16 s.body).toNat) := by
  by_cases hv : ¬MessageId.Valid s.msgId
  · rw [if_pos hv]
    simp only [build, MessageId.ofBytes, dif_neg hv]
    rfl
  rw [if_neg hv]
  have hm : MessageId.ofBytes s.msgId = .ok ⟨s.msgId, Classical.not_not.mp hv⟩ :=
    dif_pos (Classical.not_not.mp hv)
  have hv' := Classical.not_not.mp hv
  simp only [build, hm, ok_bind]
  have hp0 := bytes_blank hv'
  by_cases hl : Header.maxDataLength < s.payload.length
  · -- the data length's edit refuses the length and writes nothing
    rw [if_pos hl]
    have h1 := Edit.run_setDataLength s.payload.length (s.blank ⟨s.msgId, hv'⟩)
    rw [if_pos (by omega)] at h1
    have hH : (s.setHeader ⟨s.msgId, hv'⟩).run (s.blank ⟨s.msgId, hv'⟩) =
        (.error (.dataLengthOutOfRange s.payload.length), s.blank ⟨s.msgId, hv'⟩) := by
      unfold setHeader
      exact Edit.run_bind_error _ h1
    rw [fill, Edit.run_bind_error _ hH]
    rfl
  rw [if_neg hl]
  have hl' : s.payload.length ≤ 1023 := Nat.not_lt.mp hl
  by_cases ht : ¬(0 ≤ s.typeCode ∧ s.typeCode ≤ 15)
  · -- the type code's edit refuses the code after the data length is written
    rw [if_pos ht]
    have h1 := run_setDataLength_ok hp0 rfl (Int.natCast_nonneg s.payload.length)
      (by omega : (s.payload.length : Int) ≤ 1023)
    obtain ⟨q, hH⟩ : ∃ q, (s.setHeader ⟨s.msgId, hv'⟩).run (s.blank ⟨s.msgId, hv'⟩) =
        (.error (.typeUndefined s.typeCode), q) := by
      unfold setHeader
      rw [Edit.run_bind_ok _ h1]
      exact ⟨_, Edit.run_bind_error _ (run_setTypeCode_error ht _)⟩
    rw [fill, Edit.run_bind_error _ hH]
    rfl
  rw [if_neg ht]
  obtain ⟨ht0, ht15⟩ := Classical.not_not.mp ht
  rw [run_fill hv' hl' ht0 ht15]
  rfl

theorem eq_of_build (h : s.build = .ok x) :
    MessageId.Valid s.msgId ∧ s.payload.length ≤ Header.maxDataLength ∧ 0 ≤ s.typeCode ∧
      s.typeCode ≤ 15 ∧ x = s.body ++ Bytes.ofWord (Checksum.crc16 s.body).toNat := by
  rw [build_eq_cases] at h
  split at h
  · cases h
  rename_i hv
  split at h
  · cases h
  rename_i hl
  split at h
  · cases h
  rename_i ht
  cases h
  obtain ⟨ht0, ht1⟩ := Classical.not_not.mp ht
  exact ⟨Classical.not_not.mp hv, Nat.not_lt.mp hl, ht0, ht1, rfl⟩

theorem build_eq (hv : MessageId.Valid s.msgId) (hl : s.payload.length ≤ Header.maxDataLength)
    (ht0 : 0 ≤ s.typeCode) (ht : s.typeCode ≤ 15) :
    s.build = .ok (s.body ++ Bytes.ofWord (Checksum.crc16 s.body).toNat) := by
  rw [build_eq_cases, if_neg (not_not_intro hv), if_neg (Nat.not_lt.mpr hl),
    if_neg (not_not_intro ⟨ht0, ht⟩)]

theorem wordAt_ofWord (bs : Bytes) {v : Nat} (hv : v < 65536) :
    Packet.wordAt (bs ++ Bytes.ofWord v) bs.length = v := by
  simp [Packet.wordAt, Bytes.slice, Bytes.ofWord, Bytes.word, List.take_append, UInt8.toNat_ofNat']
  omega

theorem body_header (hv : MessageId.Valid s.msgId) (hl : s.payload.length ≤ Header.maxDataLength)
    (ht : s.typeCode ≤ 15) :
    ∃ b0 b1 b2 rest, s.body = b0 :: b1 :: b2 :: rest ∧
      Header.dataLength b0 b1 = s.payload.length ∧ Header.offset b1 = s.offset ∧
      Header.idLength b2 = s.msgId.length ∧ Header.typeCode b1 = s.typeCode.toNat ∧
      s.body.length = 3 + s.msgId.length + (if s.offset then 2 else 0) + s.payload.length := by
  obtain ⟨b0, b1, b2, hbody, hb⟩ := body_fields hv hl ht
  refine ⟨b0, b1, b2, _, hbody, hb .dataLength, eq_of_toNat_eq (hb .offset), hb .idLength,
    hb .typeCode, ?_⟩
  rw [hbody]
  cases s.offset <;> simp <;> omega

/-- A built packet passes every test of the check but the type test, which refuses the unknown
types when types are strict. -/
theorem new_of_build (h : s.build = .ok x) (st w : Bool) :
    Packet.new x st w =
      if st ∧ 13 ≤ s.typeCode then .error (.typeUndefined s.typeCode) else .ok ⟨x, w⟩ := by
  obtain ⟨hv, hl, ht0, ht, rfl⟩ := eq_of_build h
  obtain ⟨b0, b1, b2, rest, hb, hdl, ho, hid, htc, hlen⟩ := body_header hv hl ht
  have hcs : Packet.crcStart b0 b1 b2 = s.body.length := by
    rw [Packet.crcStart, ho, hid, hdl, hlen]
  have hsize : Packet.sizeOf b0 b1 b2 = s.body.length + 2 := by
    rw [← Packet.crcStart_add_two, hcs]
  have hcrc : (Checksum.crc16 s.body).toNat < 65536 := (Checksum.crc16 s.body).toNat_lt
  have hI : s.msgId.length ≠ 0 := by have := hv.1; omega
  have hxl : (s.body ++ Bytes.ofWord (Checksum.crc16 s.body).toNat).length = s.body.length + 2 := by
    simp [Bytes.ofWord]
  have hcode : 13 ≤ s.typeCode.toNat ↔ 13 ≤ s.typeCode := by omega
  rw [Packet.new_eq st w (by rw [hb]; rfl), hsize, hcs, hxl, if_neg (by omega), hid, if_neg hI,
    if_neg (by omega), List.take_left, wordAt_ofWord _ hcrc, if_neg (by simp), htc,
    Int.toNat_of_nonneg ht0]
  simp only [hcode]

theorem header_of_build (h : s.build = .ok x) :
    ∃ b0 b1 b2 rest, x = b0 :: b1 :: b2 :: rest ∧ Header.idLength b2 ≠ 0 ∧
      Packet.sizeOf b0 b1 b2 = x.length := by
  obtain ⟨hv, hl, -, ht, rfl⟩ := eq_of_build h
  obtain ⟨b0, b1, b2, rest, hb, hdl, ho, hid, -, hlen⟩ := body_header hv hl ht
  refine ⟨b0, b1, b2, rest ++ Bytes.ofWord (Checksum.crc16 s.body).toNat, by rw [hb]; rfl,
    by rw [hid]; have := hv.1; omega, ?_⟩
  rw [← Packet.crcStart_add_two, Packet.crcStart, ho, hid, hdl, List.length_append, hlen]
  simp [Bytes.ofWord]

theorem copy_of_build (h : s.build = .ok x) (w : Bool) :
    Packet.copy ⟨x, w⟩ = .ok (⟨x, false⟩ : Packet) := by
  obtain ⟨b0, b1, b2, rest, hx, hid, hsize⟩ := header_of_build h
  rw [Packet.copy, Packet.wireSize_eq (p := ⟨x, w⟩) hx hid, ok_bind]
  show Except.ok (⟨x.take (Packet.sizeOf b0 b1 b2), false⟩ : Packet) = _
  rw [hsize, List.take_length]

/-- The getters of a packet read back what a spec describes. -/
structure Describes (s : Spec) (p : Packet) : Prop where
  dataLength : p.dataLength = .ok s.payload.length
  typeCode : p.typeCode = .ok s.typeCode.toNat
  internal : p.internal = .ok s.internal
  offset : p.offset = .ok s.offset
  response : p.response = .ok s.response
  idLength : p.idLength = .ok s.msgId.length
  msgId : MessageId.bytes <$> p.msgId = .ok s.msgId
  payload : p.payload = .ok s.payload
  acknum : p.acknum = .ok (s.acknum % 8).toNat
  offsetRaw : p.offsetRaw = .ok (if s.offset then some 0 else none)

theorem eq_ok_of_map_toNat {e : Except Fault Bool} {b : Bool}
    (h : Bool.toNat <$> e = .ok b.toNat) : e = .ok b := by
  cases e with
  | error f => cases h
  | ok a => exact congrArg Except.ok (eq_of_toNat_eq (Except.ok.inj h))

/-- A built packet, read through any buffer, describes its spec. -/
theorem describes_of_build (h : s.build = .ok x) (w : Bool) : Describes s ⟨x, w⟩ := by
  obtain ⟨hv, hl, -, ht, rfl⟩ := eq_of_build h
  obtain ⟨b0, b1, b2, hbody, hb⟩ := body_fields hv hl ht
  obtain ⟨cs, hcs⟩ : ∃ cs, cs = Bytes.ofWord (Checksum.crc16 s.body).toNat := ⟨_, rfl⟩
  obtain ⟨o, ho⟩ : ∃ o : Bytes, o = if s.offset then [0, 0] else [] := ⟨_, rfl⟩
  rw [← hcs]
  rw [← ho] at hbody
  have hp : (⟨s.body ++ cs, w⟩ : Packet).bytes =
      b0 :: b1 :: b2 :: (s.msgId ++ o ++ s.payload ++ cs) := by
    rw [hbody]
    rfl
  have hF : ∀ g, (⟨s.body ++ cs, w⟩ : Packet).field g = .ok (s.fieldValue g) := fun g =>
    (field_eq hp g).trans (congrArg Except.ok (hb g))
  have hI : Header.idLength b2 = s.msgId.length := hb .idLength
  have hD : Header.dataLength b0 b1 = s.payload.length := hb .dataLength
  have hO : Header.offset b1 = s.offset := eq_of_toNat_eq (hb .offset)
  have hid : Header.idLength b2 ≠ 0 := by rw [hI]; have := hv.1; omega
  have hlo : o.length = if Header.offset b1 then 2 else 0 := by
    rw [ho, hO]; cases s.offset <;> rfl
  have hcl : cs.length = 2 := by rw [hcs]; rfl
  -- every span of the layout, as an infix of the buffer
  have hroom : sizeOf b0 b1 b2 ≤ (⟨s.body ++ cs, w⟩ : Packet).length := by
    simp only [sizeOf, Header.frameSize, Header.baseSize, Packet.length, hbody, List.length_cons,
      List.length_append, hI, hD, hlo, hcl]
    omega
  have hcrc : crcStart b0 b1 b2 ≤ (⟨s.body ++ cs, w⟩ : Packet).length := by
    rw [← crcStart_add_two] at hroom; omega
  have hid' : (s.body ++ cs).slice 3 (idEnd b2) = s.msgId := by
    have h := Bytes.slice_append_middle [b0, b1, b2] s.msgId (o ++ s.payload ++ cs)
    rw [hbody, idEnd, hI]
    simpa [List.append_assoc] using h
  have hpay : (s.body ++ cs).slice (payloadFrom b1 b2) (crcStart b0 b1 b2) = s.payload := by
    have h := Bytes.slice_append_middle (b0 :: b1 :: b2 :: (s.msgId ++ o)) s.payload cs
    have hpre : (b0 :: b1 :: b2 :: (s.msgId ++ o)).length = payloadFrom b1 b2 := by
      simp only [payloadFrom, idEnd, List.length_cons, List.length_append, hI, hlo]; omega
    rw [hpre] at h
    rw [crcStart_eq, hD, hbody]
    simpa [List.append_assoc] using h
  refine ⟨hF .dataLength, hF .typeCode, eq_ok_of_map_toNat (hF .internal),
    eq_ok_of_map_toNat (hF .offset), eq_ok_of_map_toNat (hF .response), by rw [idLength_ok hp hid, hI],
    ?_, by rw [payload_span hp hid, span_of_le hcrc, hpay], hF .acknum, ?_⟩
  · rw [Packet.msgId, msgIdRaw_of_room hp hid hroom, ok_bind, hid', MessageId.ofBytes, dif_pos hv]
    rfl
  · cases hof : s.offset
    · rw [if_neg Bool.false_ne_true]
      exact offsetRaw_of_clear hp (hO.trans hof)
    · -- the two bytes of offset metadata are the zeros the build leaves there
      rw [if_pos rfl, offsetRaw_span hp hid (hO.trans hof),
        span_of_le (Nat.le_trans (offsetEnd_le_crcStart (hO.trans hof)) hcrc)]
      have h := Bytes.slice_append_middle (b0 :: b1 :: b2 :: s.msgId) [0, 0] (s.payload ++ cs)
      have hpre : (b0 :: b1 :: b2 :: s.msgId).length = 3 + s.msgId.length := by
        simp only [List.length_cons]; omega
      rw [hpre] at h
      rw [ho, hof, if_pos rfl] at hbody
      rw [hbody, idEnd, hI]
      show (fun w => some (wordOf w)) <$> Except.ok (Bytes.slice _ _ _) = _
      rw [show Bytes.slice (b0 :: b1 :: b2 :: (s.msgId ++ [0, 0] ++ s.payload) ++ cs)
        (3 + s.msgId.length) (3 + s.msgId.length + 2) = [0, 0] by simpa [List.append_assoc] using h]
      rfl

/-- A build checks its arguments in order and otherwise gives the checked packet they describe. -/
theorem build_constructs_described_packet (s : Spec) :
    s.build = (if ¬MessageId.Valid s.msgId then .error (.idInvalid s.msgId)
      else if Header.maxDataLength < s.payload.length then
        .error (.dataLengthOutOfRange s.payload.length)
      else if ¬(0 ≤ s.typeCode ∧ s.typeCode ≤ 15) then .error (.typeUndefined s.typeCode)
      else .ok (s.body ++ Bytes.ofWord (Checksum.crc16 s.body).toNat)) ∧
    ∀ x, s.build = .ok x →
      (x.length : Int) = Header.bufferLen s.msgId.length s.payload.length s.offset ∧
      (∀ w, Packet.new x false w = .ok ⟨x, w⟩) ∧
      (∀ w, (∃ p, Packet.new x true w = .ok p) ↔ s.typeCode ≤ 12) ∧
      (∀ w, Describes s ⟨x, w⟩) ∧
      s.frame = .ok (Frame.encode x) := by
  refine ⟨build_eq_cases s, fun x hx => ⟨?_, fun w => ?_, fun w => ?_, describes_of_build hx,
    by rw [frame, hx]; rfl⟩⟩
  · obtain ⟨hv, hl, -, ht, rfl⟩ := eq_of_build hx
    obtain ⟨-, -, -, -, -, -, -, -, -, hlen⟩ := body_header hv hl ht
    rw [List.length_append, hlen, Header.bufferLen, Header.baseSize]
    cases s.offset <;> simp [Bytes.ofWord] <;> omega
  · rw [new_of_build hx, if_neg (fun h => Bool.false_ne_true h.1)]
  · -- the strict check refuses exactly the codes from 13 on
    rw [new_of_build hx]
    by_cases h13 : 13 ≤ s.typeCode
    · rw [if_pos ⟨rfl, h13⟩]
      constructor
      · rintro ⟨_, h⟩
        cases h
      · intro h
        omega
    · rw [if_neg (fun h => h13 h.2)]
      exact ⟨fun _ => by omega, fun _ => ⟨_, rfl⟩⟩

/-- A packet with the offset flag, a two-byte payload and the acknowledgement number `-1`. -/
theorem build_constructs_described_packet_offset :
    let s : Spec :=
      { msgId := [0x41], payload := [1, 2], typeCode := 3, internal := true, acknum := -1,
        offset := true }
    s.build = .ok [2, 204, 225, 65, 0, 0, 1, 2, 52, 252] ∧
      Describes s ⟨[2, 204, 225, 65, 0, 0, 1, 2, 52, 252], true⟩ := by
  intro s
  have hb : s.build = .ok [2, 204, 225, 65, 0, 0, 1, 2, 52, 252] := by
    rw [build_eq_cases, if_neg (by decide), if_neg (by decide), if_neg (by decide)]
    exact congrArg Except.ok (by decide +kernel)
  exact ⟨hb, ((build_constructs_described_packet s).2 _ hb).2.2.2.1 true⟩

end Spec

end PacketLink.Packet
