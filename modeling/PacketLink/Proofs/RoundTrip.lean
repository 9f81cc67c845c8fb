import PacketLink.Proofs.BuildLayout
import PacketLink.Proofs.FrameReading
/-! # Round trip through the stream

The frames of built packets, sent one after another, are read back by a decoder whose storage
holds the largest of them: each frame gives its packet at the last byte before its delimiter,
or the fault for an unknown type when types are strict, and nothing on any other byte.
-/
namespace PacketLink.Stream

variable {x : Bytes}

theorem frameExtent?_of_build {s : Packet.Spec} (h : s.build = .ok x) :
    frameExtent? x = some x.length := by
  obtain ⟨b0, b1, b2, rest, rfl, hid, hsize⟩ := Packet.Spec.header_of_build h
  rw [frameExtent?, ← hsize, Nat.max_eq_right (Nat.one_le_iff_ne_zero.2 hid)]

namespace Decoder

variable {d : Decoder}

/-- What a decoder gives for the frame of a built packet of type code `t`: nothing until the
last byte of the encoding, which gives the packet, or the fault for an unknown type when types
are strict; nothing for the delimiter. -/
def frameResults (x : Bytes) (t : Int) (strict : Bool) : List Result :=
  List.replicate ((Frame.cobs x).length - 1) (.ok none) ++
    [if strict ∧ 13 ≤ t then .error (.typeUndefined t) else .ok (some ⟨x, true⟩), .ok none]

theorem Ready.run_encode (hd : d.Ready) (hx : frameExtent? x = some x.length)
    (hcap : x.length ≤ d.capacity) :
    (d.run (Frame.encode x)).2 = List.replicate ((Frame.cobs x).length - 1) (.ok none) ++
        [(Packet.new x d.strict).map some, .ok none] ∧
      (d.run (Frame.encode x)).1.Ready ∧
      (d.run (Frame.encode x)).1.count = d.count + (Packet.new x d.strict).toBool.toNat ∧
      (d.run (Frame.encode x)).1.invalidCount =
        d.invalidCount + (!(Packet.new x d.strict).toBool).toNat := by
  have hxne : x ≠ [] := by rintro rfl; cases hx
  -- the canonical encoding passes on the last byte of the data with its own last byte
  obtain ⟨g, b, h, hf, hg, hb, -, hh, hc⟩ := Deframer.split_last (Deframer.run_cobs x) hxne
  obtain rfl := hc rfl
  have hz := Deframer.zero_not_mem_cobs x
  rw [hf] at hz
  obtain ⟨hres, hR, hcnt, hinv⟩ := hd.run_frame hx hcap hz hg hb hh
  rw [Frame.encode, Frame.standard_encode, hf]
  refine ⟨?_, hR, hcnt, hinv⟩
  rw [hres]
  simp

theorem Ready.run_build {s : Packet.Spec} (hd : d.Ready) (hb : s.build = .ok x)
    (hcap : x.length ≤ d.capacity) :
    (d.run (Frame.encode x)).2 = frameResults x s.typeCode d.strict ∧
      (d.run (Frame.encode x)).1.Ready ∧
      (d.run (Frame.encode x)).1.count = d.count + (if d.strict ∧ 13 ≤ s.typeCode then 0 else 1) ∧
      (d.run (Frame.encode x)).1.invalidCount =
        d.invalidCount + (if d.strict ∧ 13 ≤ s.typeCode then 1 else 0) := by
  obtain ⟨hres, hR, hcnt, hinv⟩ := hd.run_encode (frameExtent?_of_build hb) hcap
  rw [Packet.Spec.new_of_build hb] at hres hcnt hinv
  by_cases ht : d.strict ∧ 13 ≤ s.typeCode
  · rw [if_pos ht] at hres hcnt hinv
    exact ⟨by rw [hres, frameResults, if_pos ht]; rfl, hR, by rw [hcnt, if_pos ht]; rfl,
      by rw [hinv, if_pos ht]; rfl⟩
  · rw [if_neg ht] at hres hcnt hinv
    exact ⟨by rw [hres, frameResults, if_neg ht]; rfl, hR, by rw [hcnt, if_neg ht]; rfl,
      by rw [hinv, if_neg ht]; rfl⟩

variable {ps : List (Packet.Spec × Bytes)}

theorem Ready.run_builds (hd : d.Ready) (hps : ∀ p ∈ ps, p.1.build = .ok p.2)
    (hcap : ∀ p ∈ ps, p.2.length ≤ d.capacity) :
    (d.run (ps.flatMap fun p => Frame.encode p.2)).2 =
        ps.flatMap (fun p => frameResults p.2 p.1.typeCode d.strict) ∧
      (d.run (ps.flatMap fun p => Frame.encode p.2)).1.count =
        d.count + (ps.filter fun p => ¬(d.strict ∧ 13 ≤ p.1.typeCode)).length ∧
      (d.run (ps.flatMap fun p => Frame.encode p.2)).1.invalidCount =
        d.invalidCount + (ps.filter fun p => d.strict ∧ 13 ≤ p.1.typeCode).length := by
  induction ps generalizing d with
  | nil => exact ⟨rfl, rfl, rfl⟩
  | cons p ps ih =>
    have hp := hps p List.mem_cons_self
    obtain ⟨hres, hR, hcnt, hinv⟩ := hd.run_build hp (hcap p List.mem_cons_self)
    obtain ⟨hcapE, hstrE⟩ := capacity_run d (Frame.encode p.2)
    obtain ⟨hres', hcnt', hinv'⟩ := ih hR (fun q hq => hps q (List.mem_cons_of_mem _ hq))
      (fun q hq => by rw [hcapE]; exact hcap q (List.mem_cons_of_mem _ hq))
    rw [hstrE] at hres' hcnt' hinv'
    rw [List.flatMap_cons, run_append, hres, hres', List.flatMap_cons]
    refine ⟨rfl, ?_, ?_⟩
    · rw [hcnt', hcnt, List.filter_cons]
      by_cases ht : d.strict ∧ 13 ≤ p.1.typeCode
      · rw [if_pos ht, if_neg (by rw [decide_eq_true_eq]; exact not_not_intro ht)]
        omega
      · rw [if_neg ht, if_pos (decide_eq_true ht), List.length_cons]
        omega
    · rw [hinv', hinv, List.filter_cons]
      by_cases ht : d.strict ∧ 13 ≤ p.1.typeCode
      · rw [if_pos ht, if_pos (decide_eq_true ht), List.length_cons]
        omega
      · rw [if_neg ht, if_neg (by rw [decide_eq_true_eq]; exact ht)]
        omega

theorem filterMap_copy_frameResults {s : Packet.Spec} (hb : s.build = .ok x) (st : Bool) :
    (frameResults x s.typeCode st).filterMap Result.copy? =
      if st ∧ 13 ≤ s.typeCode then [] else [⟨x, false⟩] := by
  have hnone : (List.replicate ((Frame.cobs x).length - 1) (.ok none : Result)).filterMap
      Result.copy? = [] := List.filterMap_eq_nil_iff.2 (by simp [Result.copy?])
  rw [frameResults, List.filterMap_append, hnone, List.nil_append]
  by_cases ht : st ∧ 13 ≤ s.typeCode
  · simp [ht, Result.copy?]
  · simp [ht, Result.copy?, Packet.Spec.copy_of_build hb, Except.toOption]

theorem filterMap_copy_builds (hps : ∀ p ∈ ps, p.1.build = .ok p.2) (st : Bool) :
    (ps.flatMap fun p => frameResults p.2 p.1.typeCode st).filterMap Result.copy? =
      (ps.filter fun p => ¬(st ∧ 13 ≤ p.1.typeCode)).map fun p => ⟨p.2, false⟩ := by
  induction ps with
  | nil => rfl
  | cons p ps ih =>
    rw [List.flatMap_cons, List.filterMap_append,
      filterMap_copy_frameResults (hps p List.mem_cons_self),
      ih (fun q hq => hps q (List.mem_cons_of_mem _ hq)), List.filter_cons]
    by_cases ht : st ∧ 13 ≤ p.1.typeCode <;> simp [ht]

/-- A fresh decoder reads back every built packet sent to it, in order. -/
theorem run_encoded_packets (hps : ∀ p ∈ ps, p.1.build = .ok p.2) {size : Int} {s w : Bool}
    (hnew : Decoder.new size s w = .ok d) (hcap : ∀ p ∈ ps, p.2.length ≤ d.capacity) :
    (d.run (ps.flatMap fun p => Frame.encode p.2)).2 =
        ps.flatMap (fun p => frameResults p.2 p.1.typeCode s) ∧
      (d.run (ps.flatMap fun p => Frame.encode p.2)).1.count =
        (ps.filter fun p => ¬(s ∧ 13 ≤ p.1.typeCode)).length ∧
      (d.run (ps.flatMap fun p => Frame.encode p.2)).1.invalidCount =
        (ps.filter fun p => s ∧ 13 ≤ p.1.typeCode).length ∧
      (d.decodeAll (ps.flatMap fun p => Frame.encode p.2)).2 =
        (ps.filter fun p => ¬(s ∧ 13 ≤ p.1.typeCode)).map fun p => ⟨p.2, false⟩ := by
  have hs := (capacity_of_new hnew).2.2
  obtain ⟨hc0, hi0⟩ := counts_of_new hnew
  obtain ⟨hres, hcnt, hinv⟩ := (ready_of_new hnew).run_builds hps hcap
  rw [hs] at hres hcnt hinv
  refine ⟨hres, by rw [hcnt, hc0, Nat.zero_add], by rw [hinv, hi0, Nat.zero_add], ?_⟩
  rw [decodeAll, hres]
  exact filterMap_copy_builds hps s

theorem run_encoded_packets_strict :
    let ps : List (Packet.Spec × Bytes) :=
      [({ msgId := [7], typeCode := 1 }, [0, 4, 1, 7, 214, 27]),
        ({ msgId := [7], typeCode := 13 }, [0, 52, 1, 7, 115, 222])]
    let d : Decoder := { capacity := 16, strict := true }
    (∀ p ∈ ps, p.1.build = .ok p.2) ∧ Decoder.new 16 true = .ok d ∧
      (∀ p ∈ ps, p.2.length ≤ d.capacity) ∧
      (d.run (ps.flatMap fun p => Frame.encode p.2)).2 =
          ps.flatMap (fun p => frameResults p.2 p.1.typeCode true) ∧
        (d.run (ps.flatMap fun p => Frame.encode p.2)).1.count =
          (ps.filter fun p => ¬(true ∧ 13 ≤ p.1.typeCode)).length ∧
        (d.run (ps.flatMap fun p => Frame.encode p.2)).1.invalidCount =
          (ps.filter fun p => true ∧ 13 ≤ p.1.typeCode).length ∧
        (d.decodeAll (ps.flatMap fun p => Frame.encode p.2)).2 =
          (ps.filter fun p => ¬(true ∧ 13 ≤ p.1.typeCode)).map fun p => ⟨p.2, false⟩ := by
  intro ps d
  have hps : ∀ p ∈ ps, p.1.build = .ok p.2 := by
    intro p hp
    simp only [ps, List.mem_cons, List.not_mem_nil, or_false] at hp
    rcases hp with rfl | rfl <;> (set_option maxRecDepth 4000 in rfl)
  have hnew : Decoder.new 16 true = .ok d := rfl
  have hcap : ∀ p ∈ ps, p.2.length ≤ d.capacity := by
    intro p hp
    simp only [ps, List.mem_cons, List.not_mem_nil, or_false] at hp
    rcases hp with rfl | rfl <;> decide
  exact ⟨hps, hnew, hcap, run_encoded_packets hps hnew hcap⟩

end Decoder

end PacketLink.Stream
