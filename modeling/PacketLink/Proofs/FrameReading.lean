import PacketLink.Proofs.Deframing
import PacketLink.Proofs.DecoderShape
/-! # Reading one frame

A rearmed decoder fed a frame byte by byte does what decoding the frame in bulk and checking
the result as a packet does. While the frame is shorter than the size its header describes,
every byte the de-framing stage passes on is stored and nothing is raised; the byte that
completes the frame gives the check's result, and the delimiter rearms. A frame longer than the
storage raises one storage fault instead, at the first byte that finds the storage full.
-/
namespace PacketLink.Stream

theorem frameExtent?_append {xs : Bytes} (t : Bytes) (h3 : 3 ≤ xs.length) :
    frameExtent? (xs ++ t) = frameExtent? xs := by
  match xs, h3 with
  | _ :: _ :: _ :: _, _ => rfl

namespace Decoder

variable {d d' : Decoder} {x : Bytes} {c : UInt8}

/-- The bytes the parser has taken in the current frame: none before the first code byte, then
the zero that the first code byte stands for and the stored bytes. -/
def fed (d : Decoder) : Bytes := if d.phase = .frameOffset then [] else 0 :: d.stored

theorem Ready.fed (h : d.Ready) : d.fed = [] := by simp [Decoder.fed, h.phase]

/-- From `d` to `d'` the parser took in `q` with no result: nothing raised, nothing counted,
nothing skipped. -/
structure Gathers (d d' : Decoder) (q : Bytes) : Prop where
  wellFormed : d'.WellFormed
  active : d'.discarding = false
  fed : d'.fed = d.fed ++ q
  count : d'.count = d.count
  invalidCount : d'.invalidCount = d.invalidCount

theorem Gathers.refl (hw : d.WellFormed) (hd : d.discarding = false) : Gathers d d [] :=
  ⟨hw, hd, by simp, rfl, rfl⟩

theorem Gathers.trans {d'' : Decoder} {q q' : Bytes} (h : Gathers d d' q) (h' : Gathers d' d'' q') :
    Gathers d d'' (q ++ q') :=
  ⟨h'.wellFormed, h'.active, by rw [h'.fed, h.fed, List.append_assoc], h'.count.trans h.count,
    h'.invalidCount.trans h.invalidCount⟩

/-- What the header of a frame implies: the frame is no longer than the size its header
describes, when it has a header. -/
def Fits (x : Bytes) : Prop := ∀ n, frameExtent? x = some n → x.length ≤ n

theorem fits_of_extent (h : frameExtent? x = some x.length) : Fits x := fun n hn => by
  rw [h] at hn
  cases hn
  exact Nat.le_refl _

theorem six_le_of_extent (hx : frameExtent? x = some x.length) : 6 ≤ x.length := by
  match x, hx with
  | b0 :: b1 :: b2 :: r, hx =>
    simp only [frameExtent?, Option.some.injEq, Header.frameSize, Header.baseSize] at hx
    have := hx ▸ (show 6 ≤ 5 + max 1 (Header.idLength b2) + Header.dataLength b0 b1 +
      (if Header.offset b1 then 2 else 0) by omega)
    exact this

theorem WellFormed.crcB1_of_dropLast (hw : d.WellFormed) (hx : frameExtent? x = some x.length)
    (hst : d.stored = x.dropLast) : d.phase = .crcB1 := by
  have h6 := six_le_of_extent hx
  have hne : x ≠ [] := by rintro rfl; simp at h6
  have hext : frameExtent? x.dropLast = some x.length := by
    rw [← frameExtent?_append [x.getLast hne] (by simp; omega), List.dropLast_concat_getLast hne, hx]
  have h3 : 3 ≤ d.stored.length := by rw [hst]; simp; omega
  obtain ⟨hhh, -, hcrc⟩ := hw.lt_size h3
  have hsize : d.size = x.length := by
    have := hhh.extent
    rw [hst, hext] at this
    exact (Option.some.inj this).symm
  exact hcrc (by rw [hst, hsize]; simp; omega)

theorem parse_quiet (hx : Fits x) (hw : d.WellFormed) (h0 : d.phase ≠ .frameOffset)
    (hpre : d.stored ++ [c] <+: x) (hlen : d.stored.length + 1 < x.length)
    (hroom : d.stored.length < d.capacity) :
    (d.parse c).2 = .ok none ∧ (d.parse c).1.Continues d c := by
  refine parse_of_lt h0 (fun h1 => ?_) hroom
  obtain ⟨-, hshape⟩ := hw
  simp only [h1] at hshape
  obtain ⟨hh, hs⟩ := hshape
  have h3 : 3 ≤ d.stored.length := by
    obtain ⟨b0, b1, b2, rest, hst, -⟩ := hh; simp [hst]
  have hext : frameExtent? x = some d.size := by
    obtain ⟨t, ht⟩ := (List.prefix_append d.stored [c]).trans hpre
    rw [← ht, frameExtent?_append t h3, hh.extent]
  have := hx _ hext
  omega

theorem absorb_quiet (hx : Fits x) (hw : d.WellFormed) (hd : d.discarding = false)
    (o : Option UInt8) (hpre : d.fed ++ o.toList <+: 0 :: x)
    (hlen : (d.fed ++ o.toList).length ≤ x.length) (hroom : (d.fed ++ o.toList).length ≤ d.capacity + 1) :
    (d.absorb o).2 = .ok none ∧ Gathers d (d.absorb o).1 o.toList ∧ (d.absorb o).1.deframer = d.deframer := by
  cases o with
  | none => exact ⟨rfl, Gathers.refl hw hd, rfl⟩
  | some c =>
    simp only [absorb, hd, Bool.false_eq_true, if_false, Option.toList_some] at hpre hlen hroom ⊢
    by_cases h0 : d.phase = .frameOffset
    · have hst : d.stored = [] := by have := hw.2; simp only [h0] at this; exact this
      have hfed : d.fed = [] := by simp [fed, h0]
      have hc : c = 0 := by rw [hfed] at hpre; exact (List.cons_prefix_cons.mp hpre).1
      have hw' := wellFormed_parse hw c
      rw [parse_frameOffset h0] at hw' ⊢
      exact ⟨rfl, ⟨hw', hd, by simp [fed, h0, hst, hc], rfl, rfl⟩, rfl⟩
    · have hfed : d.fed = 0 :: d.stored := by simp [fed, h0]
      rw [hfed] at hpre hlen hroom
      simp only [List.cons_append, List.length_cons, List.length_append] at hlen hroom
      obtain ⟨hr, hc⟩ := parse_quiet hx hw h0 (List.cons_prefix_cons.mp hpre).2 (by omega)
        (by omega)
      refine ⟨hr, ⟨wellFormed_parse hw c, hc.discarding.trans hd, ?_, hc.count, hc.invalidCount⟩,
        hc.deframer⟩
      simp [fed, hc.phase, hc.stored, h0]

theorem decode_quiet (hx : Fits x) (hw : d.WellFormed) (hd : d.discarding = false) {b : UInt8}
    (hb : b ≠ 0) (hpre : d.fed ++ (d.deframer.step b).1.toList <+: 0 :: x)
    (hlen : (d.fed ++ (d.deframer.step b).1.toList).length ≤ x.length)
    (hroom : (d.fed ++ (d.deframer.step b).1.toList).length ≤ d.capacity + 1) :
    (d.decode b).2 = .ok none ∧ Gathers d (d.decode b).1 (d.deframer.step b).1.toList ∧
      (d.decode b).1.deframer = (d.deframer.step b).2 := by
  rw [decode_eq hb]
  obtain ⟨hr, hg, hdf⟩ :=
    absorb_quiet (d := { d with deframer := (d.deframer.step b).2 }) hx hw hd _ hpre hlen hroom
  exact ⟨hr, ⟨hg.wellFormed, hg.active, hg.fed, hg.count, hg.invalidCount⟩, hdf⟩

theorem run_quiet (hx : Fits x) (hw : d.WellFormed) (hd : d.discarding = false) {g : Bytes}
    (hz : 0 ∉ g) (hpre : d.fed ++ (d.deframer.run g).1 <+: 0 :: x)
    (hlen : (d.fed ++ (d.deframer.run g).1).length ≤ x.length)
    (hroom : (d.fed ++ (d.deframer.run g).1).length ≤ d.capacity + 1) :
    (d.run g).2 = List.replicate g.length (.ok none) ∧ Gathers d (d.run g).1 (d.deframer.run g).1 ∧
      (d.run g).1.deframer = (d.deframer.run g).2 := by
  induction g generalizing d with
  | nil => exact ⟨rfl, by simpa using Gathers.refl hw hd, rfl⟩
  | cons b r ih =>
    have hb : b ≠ 0 := fun h => hz (h ▸ List.mem_cons_self)
    rw [Deframer.run_cons, ← List.append_assoc] at hpre hlen hroom
    have hpre1 := (List.prefix_append _ _).trans hpre
    obtain ⟨hr, hg, hdf⟩ := decode_quiet hx hw hd hb hpre1
      (by simp only [List.length_append] at hlen ⊢; omega)
      (by simp only [List.length_append] at hroom ⊢; omega)
    rw [← hg.fed, ← hdf] at hpre hlen hroom
    have hroom' : ((d.decode b).1.fed ++ ((d.decode b).1.deframer.run r).1).length ≤
        (d.decode b).1.capacity + 1 := by rw [(capacity_decode d b).1]; exact hroom
    obtain ⟨hr', hg', hdf'⟩ := ih hg.wellFormed hg.active (fun h => hz (List.mem_cons_of_mem _ h))
      hpre hlen hroom'
    rw [run_cons, Deframer.run_cons, hr, hr', ← hdf]
    exact ⟨rfl, hg.trans hg', hdf'⟩

/-- The first byte of a frame is its first code byte: it stands for a zero, which the first phase
takes. -/
theorem Ready.decode_first (hd : d.Ready) {b : UInt8} (hb : b ≠ 0) :
    d.decode b = ({ d with deframer := ⟨b.toNat, b == 0xFF⟩, phase := .headerB0 }, .ok none) := by
  rw [decode_eq hb, hd.deframer, Deframer.step_of_le (Nat.zero_le 1)]
  simp only [Deframer.start, Bool.false_eq_true, if_false, absorb, hd.discarding]
  exact parse_frameOffset hd.phase

theorem Ready.run_tail (hd : d.Ready) {h : Bytes} (hz : 0 ∉ h) (h1 : h.length ≤ 1) :
    (d.run (h ++ [0])).2 = List.replicate (h.length + 1) (.ok none) ∧ (d.run (h ++ [0])).1.Ready ∧
      (d.run (h ++ [0])).1.count = d.count ∧ (d.run (h ++ [0])).1.invalidCount = d.invalidCount := by
  match h, h1 with
  | [], _ => exact ⟨rfl, ready_reset d, rfl, rfl⟩
  | [b], _ =>
    have hb : b ≠ 0 := fun e => hz (e ▸ List.mem_singleton_self b)
    rw [List.singleton_append, run_cons, hd.decode_first hb]
    exact ⟨rfl, ready_reset _, rfl, rfl⟩

theorem fed_eq_cons {s : Bytes} (h : d.fed = 0 :: s) : d.phase ≠ .frameOffset ∧ d.stored = s := by
  unfold fed at h
  split at h
  · cases h
  · next h0 => exact ⟨h0, (List.cons.inj h).2⟩

variable {g h : Bytes} {b : UInt8}

theorem zero_not_mem_parts (hz : 0 ∉ g ++ b :: h) : 0 ∉ g ∧ b ≠ 0 ∧ 0 ∉ h :=
  ⟨fun m => hz (List.mem_append_left _ m),
    fun e => hz (List.mem_append_right _ (e ▸ List.mem_cons_self)),
    fun m => hz (List.mem_append_right _ (List.mem_cons_of_mem _ m))⟩

theorem decode_crcB1 (hph : d.phase = .crcB1) (hact : d.discarding = false)
    (hroom : d.stored.length < d.capacity) (hb : b ≠ 0) (hstep : (d.deframer.step b).1 = some c) :
    (d.decode b).1.Ready ∧ (d.decode b).1.capacity = d.capacity ∧
      (d.decode b).1.strict = d.strict ∧
      (d.decode b).2 = (Packet.new (d.stored ++ [c]) d.strict).map some ∧
      (d.decode b).1.count = d.count + (Packet.new (d.stored ++ [c]) d.strict).toBool.toNat ∧
      (d.decode b).1.invalidCount =
        d.invalidCount + (!(Packet.new (d.stored ++ [c]) d.strict).toBool).toNat := by
  have hdec : d.decode b =
      { { d with deframer := (d.deframer.step b).2 } with stored := d.stored ++ [c] }.finish := by
    rw [decode_eq hb, hstep]
    simp only [absorb, hact, Bool.false_eq_true, if_false]
    exact parse_crcB1 hph hroom
  rw [hdec]
  exact finish_eq _

theorem Ready.run_gather (hd : d.Ready) (hx : Fits x) (hzg : 0 ∉ g) {p : Bytes}
    (hg : (Deframer.start.run g).1 = 0 :: p) (hpre : p <+: x) (hlen : p.length < x.length)
    (hroom : p.length ≤ d.capacity) :
    (d.run g).2 = List.replicate g.length (.ok none) ∧ Gathers d (d.run g).1 (0 :: p) ∧
      (d.run g).1.phase ≠ .frameOffset ∧ (d.run g).1.stored = p ∧
      (d.run g).1.deframer = (Deframer.start.run g).2 := by
  obtain ⟨hr, hgat, hdf⟩ := run_quiet hx hd.wellFormed hd.discarding hzg
    (by rw [hd.fed, hd.deframer, hg]; exact List.cons_prefix_cons.mpr ⟨rfl, hpre⟩)
    (by rw [hd.fed, hd.deframer, hg, List.nil_append, List.length_cons]; omega)
    (by rw [hd.fed, hd.deframer, hg, List.nil_append, List.length_cons]; omega)
  rw [hd.deframer] at hgat hdf
  rw [hg] at hgat
  obtain ⟨h0, hst⟩ := fed_eq_cons (d := (d.run g).1) (by rw [hgat.fed, hd.fed, List.nil_append])
  exact ⟨hr, hgat, h0, hst, hdf⟩

/-- A whole frame from a rearmed decoder: quiet up to the byte that passes on the frame's last
byte, which gives the check's result; then the rest and the delimiter leave it rearmed. -/
theorem Ready.run_frame (hd : d.Ready) (hx : frameExtent? x = some x.length)
    (hcap : x.length ≤ d.capacity) (hz : 0 ∉ g ++ b :: h)
    (hg : (Deframer.start.run g).1 = (0 :: x).dropLast)
    (hb : ((Deframer.start.run g).2.step b).1 = x.getLast?)
    (hh : (((Deframer.start.run g).2.step b).2.run h).1 = []) :
    (d.run (g ++ b :: h ++ [0])).2 = List.replicate g.length (.ok none) ++
        (Packet.new x d.strict).map some :: List.replicate (h.length + 1) (.ok none) ∧
      (d.run (g ++ b :: h ++ [0])).1.Ready ∧
      (d.run (g ++ b :: h ++ [0])).1.count = d.count + (Packet.new x d.strict).toBool.toNat ∧
      (d.run (g ++ b :: h ++ [0])).1.invalidCount =
        d.invalidCount + (!(Packet.new x d.strict).toBool).toNat := by
  have h6 := six_le_of_extent hx
  have hne : x ≠ [] := by rintro rfl; simp at h6
  obtain ⟨hzg, hbz, hzh⟩ := zero_not_mem_parts hz
  -- the bytes before the last one are gathered quietly
  have hdrop : (0 :: x).dropLast = 0 :: x.dropLast := List.dropLast_cons_of_ne_nil hne
  obtain ⟨hr, hgat, -, hst, hdf⟩ := hd.run_gather (fits_of_extent hx) hzg (hg.trans hdrop)
    (List.dropLast_prefix x) (by rw [List.length_dropLast]; omega)
    (by rw [List.length_dropLast]; omega)
  -- the bytes gathered so far are the frame less its last byte, so the last byte is the second
  -- checksum byte
  have hlast : x.dropLast ++ [x.getLast hne] = x := List.dropLast_concat_getLast hne
  have hph := hgat.wellFormed.crcB1_of_dropLast hx hst
  have hstep : ((d.run g).1.deframer.step b).1 = some (x.getLast hne) := by
    rw [hdf, hb, List.getLast?_eq_some_getLast hne]
  obtain ⟨hR, -, -, hres, hcnt, hinv⟩ := decode_crcB1 hph hgat.active
    (by rw [hst, (capacity_run d g).1]; simp; omega) hbz hstep
  rw [hst, hlast, (capacity_run d g).2] at hres hcnt hinv
  -- what follows the last byte passes nothing on
  have h1 : h.length ≤ 1 := by
    rcases Deframer.eq_nil_or_of_run_eq_nil hh with rfl | ⟨b', rfl, -⟩ <;> simp
  obtain ⟨tr, tR, tc, ti⟩ := hR.run_tail hzh h1
  rw [List.append_assoc, List.cons_append, run_append, run_cons, hr, hres, tr]
  exact ⟨rfl, tR, by rw [tc, hcnt, hgat.count], by rw [ti, hinv, hgat.invalidCount]⟩

/-- A frame longer than the storage: quiet up to the byte that finds the storage full, which raises
the storage fault; then nothing is raised up to and including the delimiter. -/
theorem Ready.run_overflow (hd : d.Ready) (hx : Fits x) (hcap : d.capacity < x.length)
    (hz : 0 ∉ g ++ b :: h) (hg : (Deframer.start.run g).1 = 0 :: x.take d.capacity)
    (hb : ((Deframer.start.run g).2.step b).1 = some c) :
    ∃ ph, (d.run (g ++ b :: h ++ [0])).2 = List.replicate g.length (.ok none) ++
      .error (.storageFull d.capacity ph) :: List.replicate (h.length + 1) (.ok none) := by
  obtain ⟨hzg, hbz, hzh⟩ := zero_not_mem_parts hz
  have hlent : (x.take d.capacity).length = d.capacity := List.length_take_of_le (Nat.le_of_lt hcap)
  -- the first bytes of the frame, as many as the storage holds, are gathered quietly
  obtain ⟨hr, hgat, h0, hst, hdf⟩ := hd.run_gather hx hzg hg (List.take_prefix _ _)
    (by rw [hlent]; exact hcap) (Nat.le_of_eq hlent)
  have hcapD := (capacity_run d g).1
  have hfull : (d.run g).1.capacity ≤ (d.run g).1.stored.length :=
    Nat.le_of_eq (by rw [hst, hlent, hcapD])
  have hdec : (d.run g).1.decode b =
      ({ { (d.run g).1 with deframer := ((d.run g).1.deframer.step b).2 } with discarding := true },
        .error (.storageFull (d.run g).1.capacity (d.run g).1.phase)) := by
    have hstep : ((d.run g).1.deframer.step b).1 = some c := by rw [hdf, hb]
    rw [decode_eq hbz, hstep, absorb, if_neg (by rw [hgat.active]; decide)]
    exact parse_of_le (d := { (d.run g).1 with deframer := ((d.run g).1.deframer.step b).2 }) h0 hfull
  generalize hE : { { (d.run g).1 with deframer := ((d.run g).1.deframer.step b).2 } with
    discarding := true } = E at hdec
  -- the decoder skips the rest of the frame
  obtain ⟨htr, -⟩ := run_of_discarding (d := E) (by rw [← hE]) hzh
  refine ⟨(d.run g).1.phase, ?_⟩
  rw [List.append_assoc, List.cons_append, run_append, run_cons, hdec, hr, hcapD, run_append, htr]
  simp [run, decode_zero, List.replicate_succ']

theorem Ready.run_too_long {f : Bytes} (hd : d.Ready) (hz : 0 ∉ f)
    (hrun : (Deframer.start.run f).1 = 0 :: x) (hx : Fits x) (hcap : d.capacity < x.length) :
    ∃ i ph, i < f.length ∧ (d.run (f ++ [0])).2 =
      List.replicate i (.ok none) ++ .error (.storageFull d.capacity ph) ::
        List.replicate (f.length - i) (.ok none) := by
  have hcut : 0 :: x = (0 :: x.take d.capacity) ++ x[d.capacity] :: x.drop (d.capacity + 1) := by
    rw [List.cons_append, ← List.drop_eq_getElem_cons hcap, List.take_append_drop]
  obtain ⟨g, b, h, rfl, hg, hb, -⟩ := Deframer.run_split (hrun.trans hcut)
  obtain ⟨ph, hres⟩ := hd.run_overflow hx hcap hz hg hb
  refine ⟨g.length, ph, by simp, ?_⟩
  rw [hres]
  simp only [List.length_append, List.length_cons]
  congr 3
  omega

/-- Byte by byte, a rearmed decoder does what decoding in bulk and checking the packet does. -/
theorem run_agrees_with_frame_decode {f : Bytes} (hz : 0 ∉ f) (hdec : Frame.decode (f ++ [0]) = .ok x)
    (hx : Fits x) (hd : d.Ready) :
    (d.capacity < x.length → ∃ i ph, i < f.length ∧ (d.run (f ++ [0])).2 =
      List.replicate i (.ok none) ++ .error (.storageFull d.capacity ph) ::
        List.replicate (f.length - i) (.ok none)) ∧
    (x.length ≤ d.capacity → frameExtent? x = some x.length →
      ∃ g b h, f = g ++ b :: h ∧ (Deframer.start.run g).1.length = x.length ∧
        (Deframer.start.run (g ++ [b])).1 = 0 :: x ∧ (f = Frame.cobs x → h = []) ∧
        (d.run (f ++ [0])).2 = List.replicate g.length (.ok none) ++
          (Packet.new x d.strict).map some :: List.replicate (h.length + 1) (.ok none) ∧
        (∀ p, Packet.new x d.strict = .ok p → p.bytes = x ∧
          (d.run (f ++ [0])).1.count = d.count + 1 ∧
          (d.run (f ++ [0])).1.invalidCount = d.invalidCount) ∧
        (∀ e, Packet.new x d.strict = .error e → e.raised.isPacketError = true ∧
          (d.run (f ++ [0])).1.count = d.count ∧
          (d.run (f ++ [0])).1.invalidCount = d.invalidCount + 1)) := by
  obtain ⟨hne, hblk⟩ := Frame.codec_decode_of_decode hz hdec
  have hrun : (Deframer.start.run f).1 = 0 :: x :=
    (Deframer.run_of_decodeBlocks hz hne hblk (Nat.zero_le 1)).1
  constructor
  · exact hd.run_too_long hz hrun hx
  · -- cut the stream at the byte that passes on the frame's last byte
    intro hcap hext
    have hxne : x ≠ [] := by rintro rfl; cases hext
    obtain ⟨g, b, h, rfl, hg, hb, hgb, hh, hc⟩ := Deframer.split_last hrun hxne
    obtain ⟨hres, -, hcnt, hinv⟩ := hd.run_frame hext hcap hz hg hb hh
    refine ⟨g, b, h, rfl, by rw [hg]; simp, hgb, hc, hres, ?_, ?_⟩
    · intro p hp
      rw [hp] at hcnt hinv
      exact ⟨by rw [Packet.eq_of_new hp], hcnt, hinv⟩
    · intro e he
      rw [he] at hcnt hinv
      exact ⟨Packet.new_error_isPacketError he, hcnt, hinv⟩

theorem run_agrees_with_frame_decode_short :
    (0 : UInt8) ∉ [1, 6, 4, 1, 7, 214, 27] ∧
    Frame.decode ([1, 6, 4, 1, 7, 214, 27] ++ [0]) = .ok [0, 4, 1, 7, 214, 27] ∧
    Fits [0, 4, 1, 7, 214, 27] ∧ ({ capacity := 16, strict := false } : Decoder).Ready ∧
    (16 < 6 → ∃ i ph, i < 7 ∧ (({ capacity := 16, strict := false } : Decoder).run
      ([1, 6, 4, 1, 7, 214, 27] ++ [0])).2 = List.replicate i (.ok none) ++
        .error (.storageFull 16 ph) :: List.replicate (7 - i) (.ok none)) ∧
    (6 ≤ 16 → frameExtent? [0, 4, 1, 7, 214, 27] = some 6 →
      ∃ g b h, [1, 6, 4, 1, 7, 214, 27] = g ++ b :: h ∧ (Deframer.start.run g).1.length = 6 ∧
        (Deframer.start.run (g ++ [b])).1 = 0 :: [0, 4, 1, 7, 214, 27] ∧
        ([1, 6, 4, 1, 7, 214, 27] = Frame.cobs [0, 4, 1, 7, 214, 27] → h = []) ∧
        (({ capacity := 16, strict := false } : Decoder).run ([1, 6, 4, 1, 7, 214, 27] ++ [0])).2 =
          List.replicate g.length (.ok none) ++ (Packet.new [0, 4, 1, 7, 214, 27] false).map some ::
            List.replicate (h.length + 1) (.ok none) ∧
        (∀ p, Packet.new [0, 4, 1, 7, 214, 27] false = .ok p → p.bytes = [0, 4, 1, 7, 214, 27] ∧
          (({ capacity := 16, strict := false } : Decoder).run
            ([1, 6, 4, 1, 7, 214, 27] ++ [0])).1.count = 0 + 1 ∧
          (({ capacity := 16, strict := false } : Decoder).run
            ([1, 6, 4, 1, 7, 214, 27] ++ [0])).1.invalidCount = 0) ∧
        (∀ e, Packet.new [0, 4, 1, 7, 214, 27] false = .error e → e.raised.isPacketError = true ∧
          (({ capacity := 16, strict := false } : Decoder).run
            ([1, 6, 4, 1, 7, 214, 27] ++ [0])).1.count = 0 ∧
          (({ capacity := 16, strict := false } : Decoder).run
            ([1, 6, 4, 1, 7, 214, 27] ++ [0])).1.invalidCount = 0 + 1)) := by
  have hz : (0 : UInt8) ∉ [1, 6, 4, 1, 7, 214, 27] := by decide
  have hdec : Frame.decode ([1, 6, 4, 1, 7, 214, 27] ++ [0]) = .ok [0, 4, 1, 7, 214, 27] := by
    simp [Frame.decode, Frame.body, Frame.decodeBlocks]
  have hx : Fits [0, 4, 1, 7, 214, 27] := fun n hn => by cases hn; decide
  have hd : ({ capacity := 16, strict := false } : Decoder).Ready := ⟨rfl, rfl, rfl, rfl⟩
  exact ⟨hz, hdec, hx, hd, run_agrees_with_frame_decode hz hdec hx hd⟩

end Decoder

end PacketLink.Stream
