import PacketLink.Proofs.PacketCheck
/-! # Where a packet's parts lie

Once a buffer holds its three header bytes and a nonzero identifier length, the accessors read
the identifier from byte `3`, then the offset metadata when the flag is set, the payload and the
checksum, each part starting where the one before ends and the last ending at the wire size. So
the buffer reaches its checksum exactly when the payload check passes, every span can then be
read, and the checksum test can only fail on the checksum. The copy of a checked packet is its
first wire-size bytes, again a checked packet whose accessors all read as the original's do.
-/
namespace PacketLink.Packet

variable {p : Packet} {b0 b1 b2 : UInt8} {rest : Bytes}

/-- Where the identifier ends, as byte 2 describes it. -/
abbrev idEnd (b2 : UInt8) : Nat := 3 + Header.idLength b2

/-- Where the payload starts: after the identifier and, when the flag is set, the two bytes of
offset metadata. -/
abbrev payloadFrom (b1 b2 : UInt8) : Nat := idEnd b2 + if Header.offset b1 then 2 else 0

/-- The little-endian word held by the first two bytes of a span. -/
def wordOf (w : Bytes) : Nat := Bytes.word (w.getD 0 0) (w.getD 1 0)

theorem payloadFrom_of_set (ho : Header.offset b1 = true) : payloadFrom b1 b2 = idEnd b2 + 2 := by
  simp [payloadFrom, ho]

theorem payloadFrom_of_clear (ho : Header.offset b1 = false) : payloadFrom b1 b2 = idEnd b2 := by
  simp [payloadFrom, ho]

theorem crcStart_eq (b0 b1 b2 : UInt8) :
    crcStart b0 b1 b2 = payloadFrom b1 b2 + Header.dataLength b0 b1 := rfl

theorem idEnd_le_crcStart (b0 b1 b2 : UInt8) : idEnd b2 ≤ crcStart b0 b1 b2 := by
  rw [crcStart_eq]; simp only [payloadFrom]; omega

theorem offsetEnd_le_crcStart (ho : Header.offset b1 = true) : idEnd b2 + 2 ≤ crcStart b0 b1 b2 := by
  rw [crcStart_eq, payloadFrom_of_set ho]; omega

theorem five_le_sizeOf (b0 b1 b2 : UInt8) : 5 ≤ sizeOf b0 b1 b2 := by
  simp only [sizeOf, Header.frameSize, Header.baseSize]; omega

theorem span_of_lt {start stop : Nat} (h : p.length < stop) :
    p.span start stop = .error (.spanPastEnd p.length stop) := by
  simp [span, h]

theorem slice_take {bs : Bytes} {n start stop : Nat} (h : stop ≤ n) :
    Bytes.slice (bs.take n) start stop = Bytes.slice bs start stop := by
  simp only [Bytes.slice, List.take_take, Nat.min_eq_left h]

section Header

variable (hp : p.bytes = b0 :: b1 :: b2 :: rest) (hid : Header.idLength b2 ≠ 0)
include hp hid

theorem msgIdRaw_span : p.msgIdRaw = p.span 3 (idEnd b2) := by
  simp only [msgIdRaw, idLength_ok hp hid, ok_bind]

theorem offsetRaw_span (ho : Header.offset b1 = true) :
    p.offsetRaw = (fun w => some (wordOf w)) <$> p.span (idEnd b2) (idEnd b2 + 2) := by
  have hend : 5 + Header.idLength b2 = idEnd b2 + 2 := by simp only [idEnd]; omega
  simp only [offsetRaw, offset_eq hp, ho, idLength_ok hp hid, ok_bind, hend]
  rfl

theorem payload_span : p.payload = p.span (payloadFrom b1 b2) (crcStart b0 b1 b2) := by
  simp only [payload, payloadStart_eq hp hid, dataLength_eq hp, ok_bind]

theorem checksum_span :
    p.checksum = wordOf <$> p.span (crcStart b0 b1 b2) (crcStart b0 b1 b2 + 2) := by
  simp only [checksum, checksumStart_eq hp hid, ok_bind]
  rfl

theorem computeChecksum_span :
    p.computeChecksum = (fun bs => (Checksum.crc16 bs).toNat) <$> p.span 0 (crcStart b0 b1 b2) := by
  simp only [computeChecksum, checksumStart_eq hp hid, ok_bind]
  rfl

omit hid in
theorem offsetRaw_of_clear (ho : Header.offset b1 = false) : p.offsetRaw = .ok none := by
  simp only [offsetRaw, offset_eq hp, ho, ok_bind]
  rfl

theorem checkPayloadLength_eq : p.checkPayloadLength =
    if p.length < sizeOf b0 b1 b2 then .error (.spanPastEnd p.length (sizeOf b0 b1 b2)) else .ok () := by
  simp only [checkPayloadLength, wireSize_eq hp hid, ok_bind]
  split <;> rfl

theorem checkChecksum_eq (h : sizeOf b0 b1 b2 ≤ p.length) : p.checkChecksum =
    if (Checksum.crc16 (p.bytes.take (crcStart b0 b1 b2))).toNat ≠ wordAt p.bytes (crcStart b0 b1 b2)
    then .error (.checksumMismatch (wordAt p.bytes (crcStart b0 b1 b2))
      (Checksum.crc16 (p.bytes.take (crcStart b0 b1 b2))).toNat)
    else .ok () := by
  have hc := crcStart_add_two b0 b1 b2
  simp only [checkChecksum, checksum_eq hp hid (by omega), computeChecksum_eq hp hid (by omega),
    ok_bind]
  split <;> rfl

theorem copy_eq : p.copy = .ok ⟨p.bytes.take (sizeOf b0 b1 b2), false⟩ := by
  simp only [copy, wireSize_eq hp hid, ok_bind]
  rfl

end Header

/-! ## The first bytes of a packet -/

/-- Two packets whose accessors all read alike. -/
structure SameFields (p q : Packet) : Prop where
  dataLength : p.dataLength = q.dataLength
  typeCode : p.typeCode = q.typeCode
  typ : p.typ = q.typ
  internal : p.internal = q.internal
  offset : p.offset = q.offset
  idLengthRaw : p.idLengthRaw = q.idLengthRaw
  idLength : p.idLength = q.idLength
  response : p.response = q.response
  acknum : p.acknum = q.acknum
  msgIdRaw : p.msgIdRaw = q.msgIdRaw
  msgId : p.msgId = q.msgId
  offsetRaw : p.offsetRaw = q.offsetRaw
  payload : p.payload = q.payload
  checksum : p.checksum = q.checksum
  computeChecksum : p.computeChecksum = q.computeChecksum
  wireSize : p.wireSize = q.wireSize
  summary : p.summary = q.summary

theorem take_header {n : Nat} (hp : p.bytes = b0 :: b1 :: b2 :: rest) (h3 : 3 ≤ n) :
    p.bytes.take n = b0 :: b1 :: b2 :: rest.take (n - 3) := by
  obtain ⟨k, rfl⟩ : ∃ k, n = k + 3 := ⟨n - 3, by omega⟩
  simp [hp]

theorem wordAt_take {bs : Bytes} {n i : Nat} (h : i + 2 ≤ n) :
    wordAt (bs.take n) i = wordAt bs i := by
  simp only [wordAt, slice_take h]

theorem span_take {n start stop : Nat} (w : Bool) (h : stop ≤ n) (hn : n ≤ p.length) :
    (⟨p.bytes.take n, w⟩ : Packet).span start stop = p.span start stop := by
  have hq : (⟨p.bytes.take n, w⟩ : Packet).length = n := by
    simp only [length, List.length_take]; exact Nat.min_eq_left hn
  rw [span_of_le (by omega), span_of_le (by omega), slice_take h]

/-- Every accessor reads a packet's first `n` bytes alike, when they hold the whole size that the
header describes. -/
theorem sameFields_take {n : Nat} (w : Bool) (hp : p.bytes = b0 :: b1 :: b2 :: rest)
    (hid : Header.idLength b2 ≠ 0) (hsize : sizeOf b0 b1 b2 ≤ n) (hn : n ≤ p.length) :
    SameFields p ⟨p.bytes.take n, w⟩ := by
  have h3 : 3 ≤ n := by have := five_le_sizeOf b0 b1 b2; omega
  have hq : (⟨p.bytes.take n, w⟩ : Packet).bytes = b0 :: b1 :: b2 :: rest.take (n - 3) :=
    take_header hp h3
  have hc := crcStart_add_two b0 b1 b2
  have hmsg : p.msgIdRaw = (⟨p.bytes.take n, w⟩ : Packet).msgIdRaw := by
    have := idEnd_le_crcStart b0 b1 b2
    rw [msgIdRaw_span hp hid, msgIdRaw_span hq hid, span_take w (by omega) hn]
  have hoff : p.offsetRaw = (⟨p.bytes.take n, w⟩ : Packet).offsetRaw := by
    cases ho : Header.offset b1
    · rw [offsetRaw_of_clear hp ho, offsetRaw_of_clear hq ho]
    · have hend : idEnd b2 + 2 ≤ crcStart b0 b1 b2 := offsetEnd_le_crcStart ho
      rw [offsetRaw_span hp hid ho, offsetRaw_span hq hid ho, span_take w (by omega) hn]
  exact {
    dataLength := by rw [dataLength_eq hp, dataLength_eq hq]
    typeCode := by rw [typeCode_eq hp, typeCode_eq hq]
    typ := by simp only [typ, typeCode_eq hp, typeCode_eq hq]
    internal := by simp only [internal, byte_one hp, byte_one hq]
    offset := by rw [offset_eq hp, offset_eq hq]
    idLengthRaw := by rw [idLengthRaw_eq hp, idLengthRaw_eq hq]
    idLength := by rw [idLength_ok hp hid, idLength_ok hq hid]
    response := by simp only [response, byte_two hp, byte_two hq]
    acknum := by simp only [acknum, byte_two hp, byte_two hq]
    msgIdRaw := hmsg
    msgId := by simp only [msgId, hmsg]
    offsetRaw := hoff
    payload := by rw [payload_span hp hid, payload_span hq hid, span_take w (by omega) hn]
    checksum := by rw [checksum_span hp hid, checksum_span hq hid, span_take w (by omega) hn]
    computeChecksum := by
      rw [computeChecksum_span hp hid, computeChecksum_span hq hid, span_take w (by omega) hn]
    wireSize := by rw [wireSize_eq hp hid, wireSize_eq hq hid]
    summary := by
      simp only [summary, dataLength_eq hp, dataLength_eq hq, typeCode_eq hp, typeCode_eq hq,
        internal, offset_eq hp, offset_eq hq, idLengthRaw_eq hp, idLengthRaw_eq hq, response,
        acknum, byte_one hp, byte_one hq, byte_two hp, byte_two hq] }

/-! ## Checked packets -/

theorem idLength_le (b2 : UInt8) : Header.idLength b2 ≤ 15 := by
  unfold Header.idLength; omega

/-- What the check asks of a buffer that holds its header bytes. -/
theorem new_ok_iff {bs : Bytes} {s w : Bool} (hb : bs = b0 :: b1 :: b2 :: rest) :
    Packet.new bs s w = .ok ⟨bs, w⟩ ↔ 5 ≤ bs.length ∧ Header.idLength b2 ≠ 0 ∧
      sizeOf b0 b1 b2 ≤ bs.length ∧
      (Checksum.crc16 (bs.take (crcStart b0 b1 b2))).toNat = wordAt bs (crcStart b0 b1 b2) ∧
      ¬(s = true ∧ 13 ≤ Header.typeCode b1) := by
  rw [new_eq s w hb]
  by_cases h5 : bs.length < 5
  · rw [if_pos h5]; exact ⟨(fun h => by cases h), fun h => absurd h.1 (by omega)⟩
  rw [if_neg h5]
  by_cases hid : Header.idLength b2 = 0
  · rw [if_pos hid]; exact ⟨(fun h => by cases h), fun h => absurd hid h.2.1⟩
  rw [if_neg hid]
  by_cases hs : bs.length < sizeOf b0 b1 b2
  · rw [if_pos hs]; exact ⟨(fun h => by cases h), fun h => absurd h.2.2.1 (by omega)⟩
  rw [if_neg hs]
  by_cases hc : (Checksum.crc16 (bs.take (crcStart b0 b1 b2))).toNat ≠ wordAt bs (crcStart b0 b1 b2)
  · rw [if_pos hc]; exact ⟨(fun h => by cases h), fun h => absurd h.2.2.2.1 hc⟩
  rw [if_neg hc]
  by_cases ht : s = true ∧ 13 ≤ Header.typeCode b1
  · rw [if_pos ht]; exact ⟨(fun h => by cases h), fun h => absurd ht h.2.2.2.2⟩
  rw [if_neg ht]
  exact ⟨fun _ => ⟨by omega, hid, by omega, Classical.not_not.mp hc, ht⟩, fun _ => rfl⟩

theorem header_of_new {bs : Bytes} {s w : Bool} {p : Packet} (h : Packet.new bs s w = .ok p) :
    ∃ b0 b1 b2 rest, bs = b0 :: b1 :: b2 :: rest := by
  match bs, h with
  | [], h | [_], h | [_, _], h => rw [new_of_lt_three s w (by simp)] at h; cases h
  | b0 :: b1 :: b2 :: rest, _ => exact ⟨b0, b1, b2, rest, rfl⟩

section Room

variable (hp : p.bytes = b0 :: b1 :: b2 :: rest) (hid : Header.idLength b2 ≠ 0)
  (hroom : sizeOf b0 b1 b2 ≤ p.length)
include hp hid hroom

theorem msgIdRaw_of_room : p.msgIdRaw = .ok (p.bytes.slice 3 (idEnd b2)) := by
  have := idEnd_le_crcStart b0 b1 b2
  have hc := crcStart_add_two b0 b1 b2
  rw [msgIdRaw_span hp hid, span_of_le (by omega)]

/-- The identifier of a packet with room for it is refused only when it is the single byte
`0x00`: the length field gives it one to fifteen bytes. -/
theorem msgId_error {f : Fault} (h : p.msgId = .error f) :
    f = .idInvalid [0] ∧ p.msgIdRaw = .ok [0] := by
  have hraw := msgIdRaw_of_room hp hid hroom
  have hlen : (p.bytes.slice 3 (idEnd b2)).length = Header.idLength b2 := by
    have := idEnd_le_crcStart b0 b1 b2
    have hc := crcStart_add_two b0 b1 b2
    have he : idEnd b2 = 3 + Header.idLength b2 := rfl
    simp only [Bytes.slice, List.length_drop, List.length_take, length] at hroom ⊢
    omega
  have hmax := idLength_le b2
  rw [msgId, hraw, ok_bind, MessageId.ofBytes] at h
  split at h
  · cases h
  · next hv =>
    cases h
    have h0 : p.bytes.slice 3 (idEnd b2) = [0] := by
      simp only [MessageId.Valid, not_and, Classical.not_not] at hv
      exact hv (by omega) (by omega)
    exact ⟨by rw [h0], by rw [hraw, h0]⟩

end Room

/-- The copy of a checked packet is its first wire-size bytes, which the check accepts again with
the same strictness, and its accessors all read as the original's. -/
theorem copy_of_new {bs : Bytes} {s w : Bool} {p : Packet} (h : Packet.new bs s w = .ok p) :
    ∃ n q, p.wireSize = .ok n ∧ p.copy = .ok q ∧ q.bytes = bs.take n ∧
      Packet.new q.bytes s q.writable = .ok q ∧ SameFields p q := by
  obtain ⟨b0, b1, b2, rest, hb⟩ := header_of_new h
  obtain rfl := eq_of_new h
  obtain ⟨-, hid, hroom, hcrc, hty⟩ := (new_ok_iff hb).mp h
  have hpb : (⟨bs, w⟩ : Packet).bytes = b0 :: b1 :: b2 :: rest := hb
  refine ⟨sizeOf b0 b1 b2, _, wireSize_eq hpb hid, copy_eq hpb hid, rfl, ?_,
    sameFields_take false hpb hid (Nat.le_refl _) hroom⟩
  have hc := crcStart_add_two b0 b1 b2
  have h5 := five_le_sizeOf b0 b1 b2
  have hlen : (bs.take (sizeOf b0 b1 b2)).length = sizeOf b0 b1 b2 := by
    rw [List.length_take]; exact Nat.min_eq_left hroom
  refine (new_ok_iff (take_header hpb (by omega))).mpr
    ⟨Nat.le_trans h5 (Nat.le_of_eq hlen.symm), hid, Nat.le_of_eq hlen.symm, ?_, hty⟩
  rw [List.take_take, Nat.min_eq_left (by omega), wordAt_take (by omega)]
  exact hcrc

/-! ## The layout -/

/-- The spans the accessors read, each starting where the one before ends: the identifier from
byte `3` to `idEnd`, the offset metadata from there to `payloadFrom` when the flag is set, the
payload to `crcStart`, and the checksum, which ends at the wire size, the sum that `bufferLen`
computes. -/
structure Tiled (p : Packet) (b0 b1 b2 : UInt8) : Prop where
  msgIdRaw : p.msgIdRaw = p.span 3 (idEnd b2)
  offsetRaw : Header.offset b1 = true →
    p.offsetRaw = (fun w => some (wordOf w)) <$> p.span (idEnd b2) (payloadFrom b1 b2)
  payload : p.payload = p.span (payloadFrom b1 b2) (crcStart b0 b1 b2)
  checksum : p.checksum = wordOf <$> p.span (crcStart b0 b1 b2) (crcStart b0 b1 b2 + 2)
  wireSize : p.wireSize = .ok (crcStart b0 b1 b2 + 2)
  bufferLen : ((crcStart b0 b1 b2 + 2 : Nat) : Int) =
    Header.bufferLen (Header.idLength b2) (Header.dataLength b0 b1) (Header.offset b1)

/-- Every span can be read, and the checksum test can fail only on the checksum. -/
structure Readable (p : Packet) : Prop where
  msgIdRaw : ∃ x, p.msgIdRaw = .ok x
  offsetRaw : ∃ x, p.offsetRaw = .ok x
  payload : ∃ x, p.payload = .ok x
  computeChecksum : ∃ x, p.computeChecksum = .ok x
  copy : ∃ q, p.copy = .ok q
  checkChecksum : ∀ f, p.checkChecksum = .error f → ∃ c c', f = .checksumMismatch c c'

section Layout

variable (hp : p.bytes = b0 :: b1 :: b2 :: rest) (hid : Header.idLength b2 ≠ 0)
include hp hid

theorem tiled : p.Tiled b0 b1 b2 where
  msgIdRaw := msgIdRaw_span hp hid
  offsetRaw ho := by rw [payloadFrom_of_set ho]; exact offsetRaw_span hp hid ho
  payload := payload_span hp hid
  checksum := checksum_span hp hid
  wireSize := by rw [crcStart_add_two]; exact wireSize_eq hp hid
  bufferLen := by rw [crcStart_add_two, Header.bufferLen_ofNat]

theorem checkPayloadLength_ok_iff : p.checkPayloadLength = .ok () ↔ sizeOf b0 b1 b2 ≤ p.length := by
  rw [checkPayloadLength_eq hp hid]
  by_cases h : p.length < sizeOf b0 b1 b2
  · rw [if_pos h]; exact ⟨(fun h' => by cases h'), fun h' => absurd h' (by omega)⟩
  · rw [if_neg h]; exact ⟨fun _ => by omega, fun _ => rfl⟩

theorem checksum_reads_iff :
    (∀ n m, p.checksum ≠ .error (.spanPastEnd n m)) ↔ sizeOf b0 b1 b2 ≤ p.length := by
  rw [checksum_span hp hid, ← crcStart_add_two]
  by_cases h : p.length < crcStart b0 b1 b2 + 2
  · rw [span_of_lt h]
    exact ⟨fun h' => absurd rfl (h' _ _), fun h' => absurd h' (by omega)⟩
  · rw [span_of_le (by omega)]
    exact ⟨fun _ => by omega, fun _ n m h' => by cases h'⟩

theorem readable (hroom : sizeOf b0 b1 b2 ≤ p.length) : p.Readable := by
  have hc := crcStart_add_two b0 b1 b2
  have hid' := idEnd_le_crcStart b0 b1 b2
  refine ⟨⟨_, msgIdRaw_of_room hp hid hroom⟩, ?_,
    ⟨_, by rw [payload_span hp hid, span_of_le (by omega)]⟩,
    ⟨_, computeChecksum_eq hp hid (by omega)⟩, ⟨_, copy_eq hp hid⟩, ?_⟩
  · cases ho : Header.offset b1
    · exact ⟨_, offsetRaw_of_clear hp ho⟩
    · have hend : idEnd b2 + 2 ≤ crcStart b0 b1 b2 := offsetEnd_le_crcStart ho
      exact ⟨_, by rw [offsetRaw_span hp hid ho, span_of_le (by omega)]; rfl⟩
  · intro f hf
    rw [checkChecksum_eq hp hid hroom] at hf
    split at hf
    · cases hf; exact ⟨_, _, rfl⟩
    · cases hf

end Layout

/-- The layout the header describes is the one the accessors read. -/
theorem spans_tile_wireSize :
    (∀ (p : Packet) (b0 b1 b2 : UInt8) (rest : Bytes), p.bytes = b0 :: b1 :: b2 :: rest →
      Header.idLength b2 ≠ 0 →
      p.Tiled b0 b1 b2 ∧
      (p.checkPayloadLength = .ok () ↔ sizeOf b0 b1 b2 ≤ p.length) ∧
      ((∀ n m, p.checksum ≠ .error (.spanPastEnd n m)) ↔ sizeOf b0 b1 b2 ≤ p.length) ∧
      (sizeOf b0 b1 b2 ≤ p.length → p.Readable)) ∧
    (∀ (bs : Bytes) (s w : Bool) (p : Packet), Packet.new bs s w = .ok p →
      (∀ f, p.msgId = .error f → f = .idInvalid [0] ∧ p.msgIdRaw = .ok [0]) ∧
      ∃ n q, p.wireSize = .ok n ∧ p.copy = .ok q ∧ q.bytes = bs.take n ∧
        Packet.new q.bytes s q.writable = .ok q ∧ SameFields p q) := by
  refine ⟨fun p b0 b1 b2 rest hp hid => ⟨tiled hp hid, checkPayloadLength_ok_iff hp hid,
    checksum_reads_iff hp hid, readable hp hid⟩, fun bs s w p h => ⟨?_, copy_of_new h⟩⟩
  obtain ⟨b0, b1, b2, rest, hb⟩ := header_of_new h
  obtain rfl := eq_of_new h
  obtain ⟨-, hid, hroom, -⟩ := (new_ok_iff hb).mp h
  exact fun f hf => msgId_error hb hid hroom hf

set_option maxRecDepth 4000 in
theorem spans_tile_wireSize_offset :
    let bs : Bytes := [1, 128, 1, 7, 0, 0, 9, 218, 247]
    let p : Packet := ⟨bs, true⟩
    (p.bytes = 1 :: 128 :: 1 :: [7, 0, 0, 9, 218, 247] ∧ Header.idLength 1 ≠ 0 ∧
      p.Tiled 1 128 1 ∧ (p.checkPayloadLength = .ok () ↔ sizeOf 1 128 1 ≤ p.length) ∧
      ((∀ n m, p.checksum ≠ .error (.spanPastEnd n m)) ↔ sizeOf 1 128 1 ≤ p.length) ∧
      (sizeOf 1 128 1 ≤ p.length → p.Readable)) ∧
    (Packet.new bs false true = .ok p ∧
      (∀ f, p.msgId = .error f → f = .idInvalid [0] ∧ p.msgIdRaw = .ok [0]) ∧
      ∃ n q, p.wireSize = .ok n ∧ p.copy = .ok q ∧ q.bytes = bs.take n ∧
        Packet.new q.bytes false q.writable = .ok q ∧ SameFields p q) := by
  intro bs p
  have hnew : Packet.new bs false true = .ok p :=
    (new_ok_iff rfl).mpr ⟨by decide, by decide, by decide, by decide, by decide⟩
  exact ⟨⟨rfl, by decide, spans_tile_wireSize.1 p 1 128 1 _ rfl (by decide)⟩, hnew,
    spans_tile_wireSize.2 bs false true p hnew⟩

end PacketLink.Packet
