import PacketLink.Proofs.Framing
import PacketLink.Stream.Deframer
/-! # The de-framing stage against the block decoder

Run from the start of a frame, the de-framing stage passes on a `0x00` for the frame's first code
byte, then exactly the bytes that `Frame.decodeBlocks` reads from the frame. On the canonical
encoding the frame's last byte passes on the last byte of the data. Once everything is passed
on, at most one more byte can go by unseen: a code byte right after a full block.
-/
namespace PacketLink.Stream.Deframer

variable {d : Deframer}

@[simp] theorem run_nil (d : Deframer) : d.run [] = ([], d) := rfl

theorem run_cons (d : Deframer) (b : UInt8) (r : Bytes) :
    d.run (b :: r) = ((d.step b).1.toList ++ ((d.step b).2.run r).1, ((d.step b).2.run r).2) :=
  rfl

theorem step_of_lt (h : 1 < d.countdown) (b : UInt8) :
    d.step b = (some b, { d with countdown := d.countdown - 1 }) := by
  simp [step, h]

theorem step_of_le (h : d.countdown ≤ 1) (b : UInt8) :
    d.step b = (if d.fullBlock then none else some 0, ⟨b.toNat, b == 0xFF⟩) := by
  simp [step, Nat.not_lt.2 h]

/-- The zero that a code byte stands for at a block boundary. -/
def lead (d : Deframer) : Bytes := if d.fullBlock then [] else [0]

theorem step_of_le_toList (h : d.countdown ≤ 1) (b : UInt8) :
    (d.step b).1.toList = d.lead := by
  rw [step_of_le h, lead]; cases d.fullBlock <;> rfl

theorem run_of_lt (ys : Bytes) (h : ys.length < d.countdown) :
    d.run ys = (ys, { d with countdown := d.countdown - ys.length }) := by
  induction ys generalizing d with
  | nil => simp
  | cons y ys ih =>
    simp only [List.length_cons] at h
    rw [run_cons, step_of_lt (by omega), ih (by simp; omega)]
    simp only [Option.toList_some, List.cons_append, List.nil_append, List.length_cons,
      Nat.sub_sub, Nat.add_comm 1]

theorem run_block (h : d.countdown ≤ 1) (c : UInt8) (ys : Bytes) (hc : ys.length + 1 = c.toNat) :
    d.run (c :: ys) = (d.lead ++ ys, ⟨1, c == 0xFF⟩) := by
  rw [run_cons, step_of_le_toList h, step_of_le h, run_of_lt ys (by simp; omega)]
  simp only [Prod.mk.injEq, true_and, mk.injEq, and_true]
  omega

/-! ## Valid frames -/

/-- On every chain of blocks that `Frame.decodeBlocks` reads, the stage passes on the zero the
first code byte stands for, then the decoded bytes, and stops at a block boundary. -/
theorem run_of_decodeBlocks {bs x : Bytes} (hz : 0 ∉ bs) (hne : bs ≠ [])
    (h : Frame.decodeBlocks bs = some x) (hd : d.countdown ≤ 1) :
    (d.run bs).1 = d.lead ++ x ∧ (d.run bs).2.countdown ≤ 1 := by
  induction bs using Frame.decodeBlocks.induct generalizing d x with
  | case1 => exact absurd rfl hne
  | case2 c r hr => simp [Frame.decodeBlocks, hr] at h
  | case3 c r hr hdrop =>
    rw [Frame.decodeBlocks] at h
    simp only [hr, if_false, hdrop, if_true, Option.some.injEq] at h
    have hc : c ≠ 0 := fun hc => hz (hc ▸ List.mem_cons_self)
    have hlen : r.length = c.toNat - 1 := by
      have := List.length_drop (l := r) (i := c.toNat - 1); rw [hdrop] at this; simp at this; omega
    have hc1 : r.length + 1 = c.toNat := by
      have : c.toNat ≠ 0 := fun h0 => hc (UInt8.toNat_inj.mp h0); omega
    subst h
    rw [List.take_of_length_le (by omega), run_block hd c r hc1]
    exact ⟨rfl, Nat.le_refl 1⟩
  | case4 c r hr hdrop ih =>
    rw [Frame.decodeBlocks] at h
    simp only [hr, if_false, hdrop, Option.map_eq_some_iff] at h
    obtain ⟨tail, htail, rfl⟩ := h
    have hc : c ≠ 0 := fun hc => hz (hc ▸ List.mem_cons_self)
    have hc1 : (r.take (c.toNat - 1)).length + 1 = c.toNat := by
      have : c.toNat ≠ 0 := fun h0 => hc (UInt8.toNat_inj.mp h0)
      simp; omega
    have hsplit : c :: r = (c :: r.take (c.toNat - 1)) ++ r.drop (c.toNat - 1) := by simp
    rw [hsplit, run_append, run_block hd c _ hc1]
    obtain ⟨hout, hend⟩ := ih (d := ⟨1, c == 0xFF⟩)
      (fun hm => hz (List.mem_cons_of_mem _ (List.mem_of_mem_drop hm))) hdrop htail (Nat.le_refl 1)
    refine ⟨?_, hend⟩
    rw [hout]
    simp only [lead, List.append_assoc]
    by_cases h : c.toNat < 0xFF
    · have hne : (c == 0xFF) = false := by
        simp only [beq_eq_false_iff_ne]; rintro rfl; exact absurd h (by decide)
      simp [h, hne]
    · have heq : c = 0xFF := UInt8.toNat_inj.mp (by have := c.toNat_lt; simp; omega)
      simp [heq]

/-- Where the data ends: when a string passes on `L`, then `y`, then `M`, it splits at the byte
that passes on `y`. -/
theorem run_split {f L M : Bytes} {y : UInt8} (h : (d.run f).1 = L ++ y :: M) :
    ∃ g b t, f = g ++ b :: t ∧ (d.run g).1 = L ∧ ((d.run g).2.step b).1 = some y ∧
      (((d.run g).2.step b).2.run t).1 = M := by
  induction f generalizing d L with
  | nil => simp at h
  | cons b r ih =>
    rw [run_cons] at h
    cases ho : (d.step b).1 with
    | none =>
      rw [ho] at h
      obtain ⟨g, b', t, rfl, hg, hb, ht⟩ := ih h
      exact ⟨b :: g, b', t, rfl, by simp [run_cons, ho, hg], by simpa [run_cons] using hb,
        by simpa [run_cons] using ht⟩
    | some c =>
      rw [ho] at h
      cases L with
      | nil =>
        simp only [Option.toList_some, List.nil_append, List.cons_append, List.cons.injEq] at h
        obtain ⟨rfl, hr⟩ := h
        exact ⟨[], b, r, rfl, rfl, ho, hr⟩
      | cons c' L =>
        simp only [Option.toList_some, List.cons_append, List.nil_append, List.cons.injEq] at h
        obtain ⟨rfl, hr⟩ := h
        obtain ⟨g, b', t, rfl, hg, hb, ht⟩ := ih hr
        exact ⟨b :: g, b', t, rfl, by simp [run_cons, ho, hg], by simpa [run_cons] using hb,
          by simpa [run_cons] using ht⟩

/-- The byte that completes a run's output is the one that passes on its last byte. -/
theorem step_of_run_concat {g L : Bytes} {b y : UInt8} (hg : (d.run g).1 = L)
    (h : (d.run (g ++ [b])).1 = L ++ [y]) : ((d.run g).2.step b).1 = some y := by
  rw [run_append, hg, run_cons, run_nil, List.append_nil, List.append_cancel_left_eq] at h
  exact Option.toList_eq_singleton_iff.mp h

theorem eq_nil_or_of_run_eq_nil {t : Bytes} (h : (d.run t).1 = []) :
    t = [] ∨ ∃ b, t = [b] ∧ d.countdown ≤ 1 ∧ d.fullBlock = true := by
  cases t with
  | nil => exact .inl rfl
  | cons b r =>
    rw [run_cons, List.append_eq_nil_iff, Option.toList_eq_nil_iff] at h
    obtain ⟨hb, hr⟩ := h
    have hd : d.countdown ≤ 1 := Nat.le_of_not_lt fun hlt => by
      rw [step_of_lt hlt] at hb; cases hb
    have hfull : d.fullBlock = true := by
      rw [step_of_le hd] at hb; revert hb; cases d.fullBlock <;> simp
    refine .inr ⟨b, ?_, hd, hfull⟩
    cases r with
    | nil => rfl
    | cons b' r =>
      rw [step_of_le hd, run_cons, List.append_eq_nil_iff, Option.toList_eq_nil_iff] at hr
      have hb1 : b.toNat ≤ 1 := Nat.le_of_not_lt fun hlt => by
        have h := hr.1; rw [step_of_lt (by simpa using hlt)] at h; cases h
      have hff : (b == 0xFF) = false := by
        simp only [beq_eq_false_iff_ne]; rintro rfl; exact absurd hb1 (by decide)
      have h := hr.1
      rw [step_of_le (by simpa using hb1)] at h
      simp [hff] at h

/-! ## The canonical encoding -/

theorem encodeFrom_ne_nil (blk r : Bytes) : Frame.encodeFrom blk r ≠ [] := by
  induction blk, r using Frame.encodeFrom.induct with
  | case1 blk => simp [Frame.encodeFrom]
  | case2 blk r _ => simp [Frame.encodeFrom]
  | case3 blk b r hb hfull _ => simp [Frame.encodeFrom, hb, hfull]
  | case4 blk b r hb hfull ih => rw [Frame.encodeFrom, if_neg hb, if_neg hfull]; exact ih

theorem toNat_ofNat_succ {n : Nat} (h : n ≤ 254) : (UInt8.ofNat (n + 1)).toNat = n + 1 := by
  simp [UInt8.toNat_ofNat]; omega

theorem ofNat_succ_ne_zero {n : Nat} (h : n ≤ 254) : UInt8.ofNat (n + 1) ≠ 0 := fun h0 => by
  have := toNat_ofNat_succ h
  rw [h0] at this
  simp at this

theorem zero_not_mem_encodeFrom (blk r : Bytes) (hz : 0 ∉ blk) (hb : blk.length ≤ 254)
    (hfull : blk.length = 254 → r = []) : 0 ∉ Frame.encodeFrom blk r := by
  induction blk, r using Frame.encodeFrom.induct with
  | case1 blk =>
    rw [Frame.encodeFrom, List.mem_cons, not_or]
    exact ⟨Ne.symm (ofNat_succ_ne_zero hb), hz⟩
  | case2 blk r ih =>
    rw [Frame.encodeFrom, if_pos rfl, List.cons_append, List.mem_cons, List.mem_append]
    exact not_or.2 ⟨Ne.symm (ofNat_succ_ne_zero hb), not_or.2 ⟨hz, ih (by simp) (by simp) (by simp)⟩⟩
  | case3 blk b r hb0 hfull' ih =>
    rw [Frame.encodeFrom, if_neg hb0, if_pos hfull']
    simp [hz, Ne.symm hb0, ih (by simp) (by simp) (by simp)]
  | case4 blk b r hb0 hfull' ih =>
    rw [Frame.encodeFrom, if_neg hb0, if_neg hfull']
    have hlen : blk.length ≤ 253 := by
      have := mt hfull (List.cons_ne_nil b r); omega
    exact ih (by simp [hz, Ne.symm hb0]) (by simp; omega)
      (fun h => Classical.byContradiction fun hr => hfull' ⟨by simpa using h, hr⟩)

theorem run_encodeFrom (blk r : Bytes) (hb : blk.length ≤ 254) (hfull : blk.length = 254 → r = [])
    (hd : d.countdown ≤ 1) :
    (d.run (Frame.encodeFrom blk r)).1 = d.lead ++ blk ++ r ∧
      (d.run (Frame.encodeFrom blk r)).2.countdown ≤ 1 := by
  induction blk, r using Frame.encodeFrom.induct generalizing d with
  | case1 blk =>
    rw [Frame.encodeFrom, run_block hd _ blk (toNat_ofNat_succ hb).symm]
    exact ⟨by simp, Nat.le_refl 1⟩
  | case2 blk r ih =>
    have hb' : blk.length ≤ 253 := by
      have := mt hfull (List.cons_ne_nil 0 r); omega
    have hcode : (UInt8.ofNat (blk.length + 1) == 0xFF) = false := by
      simp only [beq_eq_false_iff_ne]; intro h
      have := toNat_ofNat_succ (n := blk.length) (by omega); rw [h] at this; simp at this; omega
    rw [Frame.encodeFrom, if_pos rfl, run_append, run_block hd _ blk (toNat_ofNat_succ hb).symm]
    obtain ⟨hout, hend⟩ := ih (d := ⟨1, false⟩) (by simp) (by simp) (Nat.le_refl 1)
    simp only [hcode]
    exact ⟨by simp [hout, lead], hend⟩
  | case3 blk b r hb0 hfull' ih =>
    rw [Frame.encodeFrom, if_neg hb0, if_pos hfull']
    have hsplit : (0xFF :: blk ++ b :: Frame.encodeFrom [] r) =
        (0xFF :: (blk ++ [b])) ++ Frame.encodeFrom [] r := by simp
    rw [hsplit, run_append, run_block hd 0xFF (blk ++ [b]) (by simp; omega)]
    obtain ⟨hout, hend⟩ := ih (d := ⟨1, true⟩) (by simp) (by simp) (Nat.le_refl 1)
    exact ⟨by simp [hout, lead], hend⟩
  | case4 blk b r hb0 hfull' ih =>
    rw [Frame.encodeFrom, if_neg hb0, if_neg hfull']
    have hlen : blk.length ≤ 253 := by
      have := mt hfull (List.cons_ne_nil b r); omega
    obtain ⟨hout, hend⟩ := ih (d := d) (by simp; omega)
      (fun h => Classical.byContradiction fun hr => hfull' ⟨by simpa using h, hr⟩) hd
    exact ⟨by simp [hout], hend⟩

/-- The same run without the encoding's last byte passes on all but the last byte, unless the
encoding is a lone empty block right after a full one. -/
theorem run_encodeFrom_dropLast (blk r : Bytes) (hb : blk.length ≤ 254)
    (hfull : blk.length = 254 → r = []) (hd : d.countdown ≤ 1)
    (hlast : d.fullBlock = true → blk ++ r ≠ []) :
    (d.run (Frame.encodeFrom blk r).dropLast).1 = (d.lead ++ blk ++ r).dropLast := by
  induction blk, r using Frame.encodeFrom.induct generalizing d with
  | case1 blk =>
    rw [Frame.encodeFrom]
    cases blk with
    | nil =>
      have hf : d.fullBlock = false := by
        cases h : d.fullBlock
        · rfl
        · exact absurd rfl (hlast h)
      simp [lead, hf]
    | cons y ys =>
      rw [List.dropLast_cons_of_ne_nil (List.cons_ne_nil y ys), run_cons, step_of_le_toList hd,
        step_of_le hd,
        run_of_lt ((y :: ys).dropLast)
          (by simp only [toNat_ofNat_succ hb, List.length_dropLast]; omega)]
      simp [List.dropLast_append_of_ne_nil]
  | case2 blk r ih =>
    rw [Frame.encodeFrom, if_pos rfl, List.dropLast_append_of_ne_nil (encodeFrom_ne_nil [] r),
      run_append, run_block hd _ blk (toNat_ofNat_succ hb).symm]
    have hcode : (UInt8.ofNat (blk.length + 1) == 0xFF) = false := by
      have hb' : blk.length ≤ 253 := by
        have := mt hfull (List.cons_ne_nil 0 r); omega
      simp only [beq_eq_false_iff_ne]; intro h
      have := toNat_ofNat_succ (n := blk.length) (by omega); rw [h] at this; simp at this; omega
    simp only [hcode]
    rw [ih (d := ⟨1, false⟩) (by simp) (by simp) (Nat.le_refl 1) (by simp)]
    simp [lead, List.dropLast_append_of_ne_nil]
  | case3 blk b r hb0 hfull' ih =>
    rw [Frame.encodeFrom, if_neg hb0, if_pos hfull']
    have hsplit : (0xFF :: blk ++ b :: Frame.encodeFrom [] r) =
        (0xFF :: (blk ++ [b])) ++ Frame.encodeFrom [] r := by simp
    rw [hsplit, List.dropLast_append_of_ne_nil (encodeFrom_ne_nil [] r), run_append,
      run_block hd 0xFF (blk ++ [b]) (by simp; omega)]
    dsimp only
    rw [beq_self_eq_true,
      ih (d := ⟨1, true⟩) (by simp) (by simp) (Nat.le_refl 1) (by simpa using hfull'.2)]
    simp [lead, List.dropLast_cons_of_ne_nil hfull'.2]
  | case4 blk b r hb0 hfull' ih =>
    rw [Frame.encodeFrom, if_neg hb0, if_neg hfull']
    have hlen : blk.length ≤ 253 := by
      have := mt hfull (List.cons_ne_nil b r); omega
    rw [ih (d := d) (by simp; omega)
      (fun h => Classical.byContradiction fun hr => hfull' ⟨by simpa using h, hr⟩) hd (by simp)]
    simp

@[simp] theorem lead_start : start.lead = [0] := rfl

theorem run_cobs (x : Bytes) : (start.run (Frame.cobs x)).1 = 0 :: x :=
  (run_encodeFrom [] x (by simp) (by simp) (Nat.zero_le 1)).1

theorem run_cobs_dropLast (x : Bytes) : (start.run (Frame.cobs x).dropLast).1 = (0 :: x).dropLast :=
  run_encodeFrom_dropLast [] x (by simp) (by simp) (Nat.zero_le 1) (by simp [start])

theorem zero_not_mem_cobs (x : Bytes) : 0 ∉ Frame.cobs x :=
  zero_not_mem_encodeFrom [] x (by simp) (by simp) (by simp)

/-- Where a frame's data ends: the byte that passes on its last byte, after which nothing more
is passed on; in the canonical encoding that byte is the last one. -/
theorem split_last {f x : Bytes} (h : (start.run f).1 = 0 :: x) (hx : x ≠ []) :
    ∃ g b t, f = g ++ b :: t ∧ (start.run g).1 = (0 :: x).dropLast ∧
      ((start.run g).2.step b).1 = x.getLast? ∧ (start.run (g ++ [b])).1 = 0 :: x ∧
      (((start.run g).2.step b).2.run t).1 = [] ∧ (f = Frame.cobs x → t = []) := by
  have hcut : 0 :: x = (0 :: x).dropLast ++ [x.getLast hx] := by
    rw [← List.getLast_cons hx (a := 0), List.dropLast_concat_getLast]
  obtain ⟨g, b, t, rfl, hg, hb, ht⟩ := run_split (h.trans hcut)
  have hgb : (start.run (g ++ [b])).1 = 0 :: x := by
    rw [run_append, hg, run_cons, hb]
    exact hcut.symm
  refine ⟨g, b, t, rfl, hg, by rw [hb, List.getLast?_eq_some_getLast hx], hgb, ht, fun hc => ?_⟩
  rcases eq_nil_or_of_run_eq_nil ht with hnil | ⟨b', rfl, -⟩
  · exact hnil
  · -- a byte after it would leave the whole data passed on without the encoding's last byte
    have hdl := run_cobs_dropLast x
    rw [← hc, show g ++ [b, b'] = (g ++ [b]) ++ [b'] by simp, List.dropLast_concat, hgb] at hdl
    have := congrArg List.length hdl
    simp at this

end PacketLink.Stream.Deframer

namespace PacketLink.Stream.Deframer

/-! ## The de-framing stage is the block decoder -/

/-- The de-framing stage passes on what decoding the frame gives, the last byte with the
encoding's last byte. -/
theorem run_decodes_frame :
    (∀ f x, 0 ∉ f → Frame.decode (f ++ [0]) = .ok x → (start.run f).1 = 0 :: x) ∧
    ∀ x, ∃ g b, Frame.cobs x = g ++ [b] ∧ (start.run g).1 = (0 :: x).dropLast ∧
      ((start.run g).2.step b).1 = (0 :: x).getLast? := by
  refine ⟨fun f x hz h => ?_, fun x => ?_⟩
  · obtain ⟨hne, hblk⟩ := Frame.codec_decode_of_decode hz h
    exact (run_of_decodeBlocks hz hne hblk (Nat.zero_le 1)).1
  · -- cut the encoding before its last byte, where the output is still one byte short
    have hne : Frame.cobs x ≠ [] := encodeFrom_ne_nil [] x
    have hcut := List.dropLast_concat_getLast hne
    refine ⟨(Frame.cobs x).dropLast, (Frame.cobs x).getLast hne, hcut.symm, run_cobs_dropLast x, ?_⟩
    rw [List.getLast?_eq_some_getLast (List.cons_ne_nil 0 x)]
    refine step_of_run_concat (run_cobs_dropLast x) ?_
    rw [hcut, List.dropLast_concat_getLast (List.cons_ne_nil 0 x)]
    exact run_cobs x

theorem run_decodes_frame_trailing_zero :
    (0 : UInt8) ∉ [2, 5, 1] ∧ Frame.decode ([2, 5, 1] ++ [0]) = .ok [5, 0] ∧
      (start.run [2, 5, 1]).1 = [0, 5, 0] := by
  have hz : (0 : UInt8) ∉ [2, 5, 1] := by decide
  have hdec : Frame.decode ([2, 5, 1] ++ [0]) = .ok [5, 0] := by
    simp [Frame.decode, Frame.body, Frame.decodeBlocks]
  exact ⟨hz, hdec, run_decodes_frame.1 _ _ hz hdec⟩

end PacketLink.Stream.Deframer
