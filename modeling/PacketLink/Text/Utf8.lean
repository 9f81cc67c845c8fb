import PacketLink.Bytes
import PacketLink.Text.CodePoints
/-! # Strict UTF-8

Every Unicode scalar value has one encoding, its shortest. Decoding accepts exactly the
concatenations of such encodings: it refuses overlong forms, surrogates, values above
`U+10FFFF`, truncated sequences and stray continuation bytes.
-/
namespace PacketLink.Text.Utf8

/-- Whether `n` is a Unicode scalar value: a code point that is not a surrogate. -/
def IsScalar (n : Nat) : Prop := n < 0xD800 ∨ (0xDFFF < n ∧ n < 0x110000)

instance (n : Nat) : Decidable (IsScalar n) := by unfold IsScalar; infer_instance

def encodeScalar (n : Nat) : Bytes :=
  if n < 0x80 then [UInt8.ofNat n]
  else if n < 0x800 then [UInt8.ofNat (0xC0 + n / 64), UInt8.ofNat (0x80 + n % 64)]
  else if n < 0x10000 then
    [UInt8.ofNat (0xE0 + n / 4096), UInt8.ofNat (0x80 + n / 64 % 64), UInt8.ofNat (0x80 + n % 64)]
  else
    [UInt8.ofNat (0xF0 + n / 262144), UInt8.ofNat (0x80 + n / 4096 % 64),
      UInt8.ofNat (0x80 + n / 64 % 64), UInt8.ofNat (0x80 + n % 64)]

def encode (s : String) : Bytes := s.toList.flatMap (fun c => encodeScalar c.toNat)

/-- The encoding of a sequence of code points, or `none` if one of them is no scalar value. -/
def encodePoints? (ps : CodePoints) : Option Bytes :=
  (ps.mapM fun p => if IsScalar p then some (encodeScalar p) else none).map List.flatten

/-- The bounds of the second byte of a sequence led by `b`: they exclude overlong forms,
surrogates and values above `U+10FFFF`. -/
def secondRange (b : Nat) : Nat × Nat :=
  if b = 0xE0 then (0xA0, 0xBF)
  else if b = 0xED then (0x80, 0x9F)
  else if b = 0xF0 then (0x90, 0xBF)
  else if b = 0xF4 then (0x80, 0x8F)
  else (0x80, 0xBF)

def within (r : Nat × Nat) (c : UInt8) : Bool := r.1 ≤ c.toNat && c.toNat ≤ r.2

def low (c : UInt8) : Nat := c.toNat % 64

/-- The scalar values that `bs` encodes, or `none` if it is not strict UTF-8. -/
def decodeScalars? : Bytes → Option (List Nat)
  | [] => some []
  | b :: r =>
    if b.toNat < 0x80 then (decodeScalars? r).map (b.toNat :: ·)
    else if b.toNat < 0xC2 then none
    else if b.toNat < 0xE0 then
      match r with
      | c1 :: r =>
        if within (0x80, 0xBF) c1 then
          (decodeScalars? r).map (((b.toNat - 0xC0) * 64 + low c1) :: ·)
        else none
      | [] => none
    else if b.toNat < 0xF0 then
      match r with
      | c1 :: c2 :: r =>
        if within (secondRange b.toNat) c1 && within (0x80, 0xBF) c2 then
          (decodeScalars? r).map (((b.toNat - 0xE0) * 4096 + low c1 * 64 + low c2) :: ·)
        else none
      | _ => none
    else if b.toNat < 0xF5 then
      match r with
      | c1 :: c2 :: c3 :: r =>
        if within (secondRange b.toNat) c1 && within (0x80, 0xBF) c2 && within (0x80, 0xBF) c3
        then
          (decodeScalars? r).map
            (((b.toNat - 0xF0) * 262144 + low c1 * 4096 + low c2 * 64 + low c3) :: ·)
        else none
      | _ => none
    else none

def decode? (bs : Bytes) : Option String :=
  (decodeScalars? bs).map fun ns => String.ofList (ns.map Char.ofNat)

end PacketLink.Text.Utf8
