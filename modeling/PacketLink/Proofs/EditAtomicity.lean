import PacketLink.Packet.Edit
/-! # Which edits fail without writing

An edit runs on a buffer and returns its result with the buffer afterwards. An edit is atomic
when a failure leaves the buffer as it was. Reads, the writability check and failures keep the
buffer; a byte write that fails writes nothing, and a span write cannot fail. Every setter runs
its checks and reads before its one write, or before a write that cannot fail, so every setter is
atomic but one: the data length's setter writes byte 0 before it reads byte 1, and on a writable
buffer of one byte it fails after that write.
-/
namespace PacketLink.Edit

variable {α β : Type}

/-! ## Running edits -/

theorem run_bind (x : Edit α) (f : α → Edit β) (p : Packet) :
    (x >>= f).run p = match x.run p with
      | (.ok a, q) => (f a).run q
      | (.error e, q) => (.error e, q) := by
  simp only [run, ExceptT.run_bind, StateT.run_bind]
  rcases (ExceptT.run x).run p with ⟨_ | _, q⟩ <;> rfl

theorem run_bind_ok {x : Edit α} {p q : Packet} {a : α} (f : α → Edit β)
    (h : x.run p = (.ok a, q)) : (x >>= f).run p = (f a).run q := by
  rw [run_bind, h]

theorem run_bind_error {x : Edit α} {p q : Packet} {e : Fault} (f : α → Edit β)
    (h : x.run p = (.error e, q)) : (x >>= f).run p = (.error e, q) := by
  rw [run_bind, h]

theorem run_get (p : Packet) : (get : Edit Packet).run p = (.ok p, p) := rfl

theorem run_throw (e : Fault) (p : Packet) : (throw e : Edit α).run p = (.error e, p) := rfl

theorem run_read (g : Packet → Except Fault α) (p : Packet) : (read g).run p = (g p, p) := by
  simp only [read, run_bind, run_get]
  cases g p <;> rfl

theorem run_checkWritable (p : Packet) :
    checkWritable.run p = (if p.writable then .ok () else .error .readOnly, p) := by
  simp only [checkWritable, run_bind, run_get]
  cases p.writable <;> rfl

theorem run_writeByte (i : Nat) (b : UInt8) (p : Packet) :
    (writeByte i b).run p = if i < p.length then (.ok (), { p with bytes := p.bytes.set i b })
      else (.error (.byteMissing i), p) := by
  simp only [writeByte, run_bind, run_get]
  by_cases h : i < p.length
  · rw [if_pos h, if_pos h]; rfl
  · rw [if_neg h, if_neg h]; rfl

theorem run_writeSpan (s : Nat) (src : Bytes) (p : Packet) :
    (writeSpan s src).run p = (.ok (), { p with bytes := p.bytes.overwrite s src }) := rfl

theorem run_writeBits (i : Nat) (mask x : UInt8) (p : Packet) :
    (writeBits i mask x).run p = match p.bytes[i]? with
      | some b => (.ok (), { p with bytes := p.bytes.set i ((b &&& ~~~mask) ||| x) })
      | none => (.error (.byteMissing i), p) := by
  simp only [writeBits, run_bind, run_read, Packet.byte]
  cases h : p.bytes[i]? with
  | none => rfl
  | some b =>
    have hi : i < p.length := (List.getElem?_eq_some_iff.mp h).1
    simp only [run_writeByte, if_pos hi]

/-- The data length's setter: its checks, then the write of byte 0, then the read of byte 1. -/
theorem run_setDataLength (v : Int) (p : Packet) :
    (setDataLength v).run p =
      if ¬(0 ≤ v ∧ v ≤ Header.maxDataLength) then (.error (.dataLengthOutOfRange v), p)
      else if p.writable = false then (.error .readOnly, p)
      else match p.bytes with
        | [] => (.error (.byteMissing 0), p)
        | [_] => (.error (.byteMissing 1), { p with bytes := [UInt8.ofNat v.toNat] })
        | _ :: b1 :: r => (.ok (), { p with bytes := UInt8.ofNat v.toNat ::
            ((b1 &&& ~~~Header.dataLengthHighBits) ||| UInt8.ofNat (v.toNat / 256)) :: r }) := by
  unfold setDataLength
  by_cases hv : 0 ≤ v ∧ v ≤ Header.maxDataLength
  · rw [if_pos hv, if_neg (not_not_intro hv)]
    simp only [run_bind, run_checkWritable]
    cases hw : p.writable
    · rfl
    · simp only [if_true, Bool.true_eq_false, if_false]
      obtain ⟨bs, w⟩ := p
      cases hw
      rcases bs with _ | ⟨b0, _ | ⟨b1, r⟩⟩
      · rfl
      · rfl
      · simp [run_writeByte, run_writeBits, Packet.length]
  · rw [if_neg hv, if_pos hv, run_bind, run_throw]

/-! ## Atomic edits -/

/-- The edit never changes the buffer. -/
def Keeps (e : Edit α) : Prop := ∀ p, (e.run p).2 = p

/-- A failure of the edit on `p` leaves `p` as it was. -/
def AtomicAt (e : Edit α) (p : Packet) : Prop := ∀ f, (e.run p).1 = .error f → (e.run p).2 = p

/-- A failure of the edit leaves the buffer as it was. -/
def Atomic (e : Edit α) : Prop := ∀ p, AtomicAt e p

/-- The edit never fails. -/
def Total (e : Edit α) : Prop := ∀ p, ∃ a, (e.run p).1 = .ok a

theorem Keeps.atomic {e : Edit α} (h : Keeps e) : Atomic e := fun p _ _ => h p

theorem Total.atomic {e : Edit α} (h : Total e) : Atomic e := by
  intro p f hf
  obtain ⟨a, ha⟩ := h p
  rw [ha] at hf
  cases hf

theorem keeps_read (g : Packet → Except Fault α) : Keeps (read g) := fun p => by rw [run_read]

theorem keeps_checkWritable : Keeps checkWritable := fun p => by rw [run_checkWritable]

theorem keeps_throw_bind (e : Fault) (f : α → Edit β) : Keeps (throw e >>= f) := fun p => by
  rw [run_bind, run_throw]

theorem atomic_writeByte (i : Nat) (b : UInt8) : Atomic (writeByte i b) := by
  intro p f h
  rw [run_writeByte] at h ⊢
  split
  · rw [if_pos ‹_›] at h; cases h
  · rfl

theorem total_writeSpan (s : Nat) (src : Bytes) : Total (writeSpan s src) := fun p =>
  ⟨(), by rw [run_writeSpan]⟩

/-- Checks that keep the buffer, then an atomic edit. -/
theorem Atomic.bind_of_keeps {x : Edit α} {f : α → Edit β} (hx : Keeps x)
    (hf : ∀ a, Atomic (f a)) : Atomic (x >>= f) := by
  intro p e he
  have hp := hx p
  rw [run_bind] at he ⊢
  rcases h : x.run p with ⟨_ | a, q⟩
  · rw [h] at hp; exact hp
  · rw [h] at hp he
    subst hp
    exact hf a _ e he

/-- An atomic edit, then one that cannot fail. -/
theorem Atomic.bind_of_total {x : Edit α} {f : α → Edit β} (hx : Atomic x)
    (hf : ∀ a, Total (f a)) : Atomic (x >>= f) := by
  intro p e he
  rw [run_bind] at he ⊢
  rcases h : x.run p with ⟨e' | a, q⟩
  · have := hx p e' (by rw [h])
    rw [h] at this
    exact this
  · rw [h] at he
    obtain ⟨b, hb⟩ := hf a q
    rw [hb] at he
    cases he

theorem atomic_ite {c : Prop} [Decidable c] {x y : Edit α} (hx : Atomic x) (hy : Atomic y) :
    Atomic (if c then x else y) := by
  split
  · exact hx
  · exact hy

/-! ## The setters -/

theorem atomic_writeBits (i : Nat) (mask x : UInt8) : Atomic (writeBits i mask x) :=
  Atomic.bind_of_keeps (keeps_read _) fun _ => atomic_writeByte _ _

theorem atomic_setFlag (i : Nat) (bit : UInt8) (v : Bool) : Atomic (setFlag i bit v) :=
  Atomic.bind_of_keeps keeps_checkWritable fun _ => atomic_writeBits _ _ _

-- a refused value fails at once, through the join point of `unless`
theorem atomic_setTypeCode (c : Int) : Atomic (setTypeCode c) :=
  atomic_ite (Atomic.bind_of_keeps keeps_checkWritable fun _ => atomic_writeBits _ _ _)
    (keeps_throw_bind _ _).atomic

theorem atomic_setIdLength (v : IntArg) : Atomic (setIdLength v) :=
  atomic_ite (Atomic.bind_of_keeps keeps_checkWritable fun _ => atomic_writeBits _ _ _)
    (keeps_throw_bind _ _).atomic

theorem atomic_setAcknum (v : Int) : Atomic (setAcknum v) :=
  Atomic.bind_of_keeps keeps_checkWritable fun _ => atomic_writeBits _ _ _

/-- The identifier's setter checks the span before it sets the length; the copy after the
length cannot fail. -/
theorem atomic_setMsgId (bs : Bytes) : Atomic (setMsgId bs) :=
  Atomic.bind_of_keeps (keeps_read _) fun _ => Atomic.bind_of_keeps keeps_checkWritable fun _ =>
    Atomic.bind_of_keeps (keeps_read _) fun _ =>
      Atomic.bind_of_total (atomic_setIdLength _) fun _ => total_writeSpan _ _

theorem atomic_setOffsetRaw (v : Int) : Atomic (setOffsetRaw v) :=
  Atomic.bind_of_keeps (keeps_read _) fun _ =>
    atomic_ite
      (Atomic.bind_of_keeps (keeps_read _) fun _ =>
        Atomic.bind_of_keeps keeps_checkWritable fun _ => Atomic.bind_of_keeps (keeps_read _) fun _ =>
          (total_writeSpan _ _).atomic)
      (keeps_throw_bind _ _).atomic

theorem atomic_setChecksum (v : Int) : Atomic (setChecksum v) :=
  Atomic.bind_of_keeps (keeps_read _) fun _ => Atomic.bind_of_keeps keeps_checkWritable fun _ =>
    Atomic.bind_of_keeps (keeps_read _) fun _ => (total_writeSpan _ _).atomic

/-- A failed data length edit keeps the buffer, but on a buffer of one byte, where it has
written byte 0 before it finds no byte 1. -/
theorem setDataLength_failure {v : Int} {p q : Packet} {f : Fault}
    (h : (setDataLength v).run p = (.error f, q)) :
    q = p ∨ (p.length = 1 ∧ q = { p with bytes := [UInt8.ofNat v.toNat] }) := by
  rw [run_setDataLength] at h
  split at h
  · cases h; exact .inl rfl
  split at h
  · cases h; exact .inl rfl
  split at h
  · cases h; exact .inl rfl
  · cases h
    exact .inr ⟨by simp [Packet.length, *], rfl⟩
  · cases h

theorem atomicAt_setDataLength {p : Packet} (hp : p.length ≠ 1) (v : Int) :
    AtomicAt (setDataLength v) p := by
  intro f hf
  rcases hr : (setDataLength v).run p with ⟨r, q⟩
  rw [hr] at hf
  obtain rfl : r = .error f := hf
  rcases setDataLength_failure hr with h | ⟨h1, -⟩
  · exact h
  · exact absurd h1 hp

/-- A setter that fails leaves the buffer as it was, except the data length's on one byte. -/
theorem setters_atomic_but_dataLength (p : Packet) (hp : p.length ≠ 1) :
    (∀ v, AtomicAt (setDataLength v) p) ∧ (∀ c, AtomicAt (setTypeCode c) p) ∧
    (∀ v, AtomicAt (setInternal v) p) ∧ (∀ v, AtomicAt (setOffset v) p) ∧
    (∀ v, AtomicAt (setIdLength v) p) ∧ (∀ v, AtomicAt (setResponse v) p) ∧
    (∀ v, AtomicAt (setAcknum v) p) ∧ (∀ bs, AtomicAt (setMsgId bs) p) ∧
    (∀ v, AtomicAt (setOffsetRaw v) p) ∧ (∀ v, AtomicAt (setChecksum v) p) :=
  ⟨atomicAt_setDataLength hp, fun c => atomic_setTypeCode c p,
    fun _ => atomic_setFlag _ _ _ p, fun _ => atomic_setFlag _ _ _ p,
    fun v => atomic_setIdLength v p, fun _ => atomic_setFlag _ _ _ p,
    fun v => atomic_setAcknum v p, fun bs => atomic_setMsgId bs p,
    fun v => atomic_setOffsetRaw v p, fun v => atomic_setChecksum v p⟩

/-- On the two-byte buffer `05 00` the data length's setter is atomic. -/
theorem setters_atomic_but_dataLength_two_bytes :
    (⟨[5, 0], true⟩ : Packet).length ≠ 1 ∧ ∀ v, AtomicAt (setDataLength v) ⟨[5, 0], true⟩ :=
  ⟨by decide, (setters_atomic_but_dataLength ⟨[5, 0], true⟩ (by decide)).1⟩

/-- Setting the data length 1023 on the writable buffer `05` fails for want of byte 1 after
writing `ff` over byte 0. -/
theorem setDataLength_partial_write :
    (setDataLength 1023).run ⟨[5], true⟩ = (.error (.byteMissing 1), ⟨[255], true⟩) := by
  rw [run_setDataLength]
  rfl

end PacketLink.Edit
