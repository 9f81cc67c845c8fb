/-! # Binary interchange formats

The IEEE 754 formats binary32 and binary64 as bit patterns. A finite pattern stands for
`m * 2 ^ e`; a rational number goes to the nearest pattern, a tie to the even significand, and
past the largest finite number to infinity. A NaN keeps its sign and the leading bits of its
payload and becomes quiet when it changes format.
-/
namespace PacketLink.Binary

structure Format where
  expBits : Nat
  fracBits : Nat

/-- What a bit pattern stands for. A NaN payload is `payload` read as a fraction of `width`
bits. -/
inductive Value where
  | finite (neg : Bool) (m : Nat) (e : Int)
  | infinite (neg : Bool)
  | nan (neg : Bool) (payload width : Nat)

/-- `num / (den * 2 ^ e)` as a pair of naturals. -/
def scaled (num den : Nat) (e : Int) : Nat × Nat :=
  if e ≤ 0 then (num * Nat.pow 2 e.natAbs, den) else (num, den * Nat.pow 2 e.natAbs)

/-- The integer part of the binary logarithm of `num / den`, for positive `num` and `den`. -/
def floorLog2 (num den : Nat) : Int :=
  let k : Int := (num.log2 : Int) - den.log2
  if (scaled num den k).2 ≤ (scaled num den k).1 then k else k - 1

/-- The natural number nearest to `n / d`, a tie going to the even one. -/
def roundHalfEven (n d : Nat) : Nat :=
  if 2 * (n % d) < d then n / d
  else if d < 2 * (n % d) then n / d + 1
  else if n / d % 2 = 0 then n / d else n / d + 1

namespace Format

def binary32 : Format := ⟨8, 23⟩

def binary64 : Format := ⟨11, 52⟩

def bias (f : Format) : Nat := Nat.pow 2 (f.expBits - 1) - 1

/-- The weight of the last fraction bit of a subnormal. -/
def minExp (f : Format) : Int := 1 - (f.bias : Int) - f.fracBits

def infBits (f : Format) : Nat := (Nat.pow 2 f.expBits - 1) * Nat.pow 2 f.fracBits

def signBit (f : Format) : Nat := Nat.pow 2 (f.expBits + f.fracBits)

def quietBit (f : Format) : Nat := Nat.pow 2 (f.fracBits - 1)

def signOf (f : Format) (neg : Bool) : Nat := if neg then f.signBit else 0

def infinity (f : Format) (neg : Bool) : Nat := f.signOf neg + f.infBits

def quietNaN (f : Format) : Nat := f.infBits + f.quietBit

/-- The magnitude bits nearest to `num / den`. The significand is rounded at the exponent of the
number's leading bit, never below the subnormal one; a carry out of the significand moves into
the exponent field by itself. A result of `f.infBits` or more means the number lies beyond the
largest finite one. -/
def roundRatio (f : Format) (num den : Nat) : Nat :=
  if num = 0 then 0
  else
    let e := max (floorLog2 num den - f.fracBits) f.minExp
    (e - f.minExp).toNat * Nat.pow 2 f.fracBits + roundHalfEven (scaled num den e).1 (scaled num den e).2

/-- The pattern of `±num / den`, or `none` when it rounds past the largest finite number. -/
def ofRatio? (f : Format) (neg : Bool) (num den : Nat) : Option Nat :=
  if f.roundRatio num den < f.infBits then some (f.signOf neg + f.roundRatio num den) else none

def ofInt? (f : Format) (n : Int) : Option Nat := f.ofRatio? (decide (n < 0)) n.natAbs 1

/-- The pattern nearest to `±m * 10 ^ e`, infinite past the largest finite number. Exponents far
outside the format are settled without building the power: `10 ^ e ≥ 8 ^ e`. -/
def ofDecimal (f : Format) (neg : Bool) (m : Nat) (e : Int) : Nat :=
  let digits : Int := (Nat.toDigits 10 m).length
  if m = 0 then f.signOf neg
  else if Int.pow 2 (f.expBits - 1) < 3 * e then f.signOf neg + f.infBits
  else if 3 * (digits + e) < f.minExp - 1 then f.signOf neg
  else
    let (num, den) := if 0 ≤ e then (m * Nat.pow 10 e.toNat, 1) else (m, Nat.pow 10 e.natAbs)
    (f.ofRatio? neg num den).getD (f.signOf neg + f.infBits)

def decode (f : Format) (bits : Nat) : Value :=
  let neg := decide (bits / f.signBit % 2 = 1)
  let E := bits % f.signBit / Nat.pow 2 f.fracBits
  let M := bits % Nat.pow 2 f.fracBits
  if E = Nat.pow 2 f.expBits - 1 then
    if M = 0 then .infinite neg else .nan neg M f.fracBits
  else if E = 0 then .finite neg M f.minExp
  else .finite neg (M + Nat.pow 2 f.fracBits) (f.minExp + E - 1)

/-- The pattern of a value, or `none` when a finite value rounds past the largest finite
number. A NaN payload is cut or padded at its low end to the fraction field and made quiet. -/
def encode? (f : Format) : Value → Option Nat
  | .finite neg m e => f.ofRatio? neg (scaled m 1 (-e)).1 (scaled m 1 (-e)).2
  | .infinite neg => some (f.signOf neg + f.infBits)
  | .nan neg payload width =>
    let frac := if width ≤ f.fracBits then payload * Nat.pow 2 (f.fracBits - width)
      else payload / Nat.pow 2 (width - f.fracBits)
    some (f.signOf neg + f.infBits + (frac ||| f.quietBit))

def convert? (f src : Format) (bits : Nat) : Option Nat := f.encode? (src.decode bits)

end Format

end PacketLink.Binary
