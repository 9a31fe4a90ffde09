import BinaryTemplate.Integer

/-!
# Binary floating-point numbers

A number in the 64-bit binary format of IEEE 754, kept as its bits. A finite number is
`(-1)^sign · significand · 2^exponent`, with the significand and the exponent decoded from the
bits as exact integers, and every operation below works on these: the comparison, the integer
that a number equals, the nearest number to an integer, and the widening of the 32-bit format.
-/

namespace BinaryTemplate

structure Binary64 where
  bits : UInt64
deriving DecidableEq, Repr, Inhabited

namespace Binary64

def signBit : Nat := 0x8000000000000000

/-- The weight of the lowest bit of the exponent field. The significand of a normal number has
this bit too, but it is not written. -/
def hiddenBit : Nat := 0x10000000000000

def isNegative (x : Binary64) : Bool := signBit ≤ x.bits.toNat

def exponentField (x : Binary64) : Nat := x.bits.toNat / hiddenBit % 0x800

def fraction (x : Binary64) : Nat := x.bits.toNat % hiddenBit

/-- All bits but the sign; they order the numbers of one sign by magnitude. -/
def magnitudeBits (x : Binary64) : Nat := x.bits.toNat % signBit

def isNaN (x : Binary64) : Bool := x.exponentField == 2047 && x.fraction != 0

def isInfinite (x : Binary64) : Bool := x.exponentField == 2047 && x.fraction == 0

def isFinite (x : Binary64) : Bool := x.exponentField != 2047

def significand (x : Binary64) : Nat :=
  if x.exponentField = 0 then x.fraction else hiddenBit + x.fraction

def exponent (x : Binary64) : Int :=
  if x.exponentField = 0 then -1074 else (x.exponentField : Int) - 1075

/-- Applies the sign of `x` to a magnitude. -/
def applySign (x : Binary64) (magnitude : Int) : Int :=
  if x.isNegative then -magnitude else magnitude

/-! ## Integers -/

/-- The integer that a finite number equals, if its value is an integer. -/
def toInt? (x : Binary64) : Option Int :=
  if !x.isFinite then none
  else
    let m := x.significand
    match x.exponent with
    | .ofNat k => some (x.applySign (m <<< k : Nat))
    | .negSucc k =>
      if m % (1 <<< (k + 1)) = 0 then some (x.applySign (m >>> (k + 1) : Nat)) else none

/-- The half-to-even rounding of `n / 2^shift`. -/
def roundShift (n shift : Nat) : Nat :=
  let quotient := n >>> shift
  let remainder := n % (1 <<< shift)
  if 1 <<< shift < 2 * remainder ∨ (2 * remainder = 1 <<< shift ∧ quotient % 2 = 1) then
    quotient + 1
  else
    quotient

/-- The bits, sign aside, of the number nearest to `n`, for `n` below `2^1023`. A significand
that rounds up to the next power of two carries into the exponent field. -/
def magnitudeOfNat (n : Nat) : Nat :=
  if n = 0 then 0
  else
    let length := n.log2 + 1
    let significand :=
      if length ≤ 53 then n <<< (53 - length) else roundShift n (length - 53)
    (1022 + length) * hiddenBit + significand - hiddenBit

/-- The number nearest to an integer of 64 bits, with or without sign; of two equally near ones
the even. -/
def ofInt (n : Int) : Binary64 :=
  ⟨UInt64.ofNat ((if n < 0 then signBit else 0) + magnitudeOfNat n.natAbs)⟩

/-! ## Comparison -/

/-- The place of a number in the order of the numbers; both zeros have the same. -/
def rank (x : Binary64) : Int := x.applySign x.magnitudeBits

/-- Whether `x` is less than `y`; false when either is not a number. -/
def lt (x y : Binary64) : Bool :=
  !x.isNaN && !y.isNaN && x.rank < y.rank

/-! ## The 32-bit format -/

/-- The value of a number in the 32-bit format. Every such value is representable; a pattern
that is not a number becomes quiet and keeps its payload. -/
def ofBinary32 (bits : Nat) : Binary64 :=
  let sign := if bits.testBit 31 then signBit else 0
  let exponentField := bits / 0x800000 % 0x100
  let fraction := bits % 0x800000
  let magnitude :=
    if exponentField = 255 then
      if fraction = 0 then 2047 * hiddenBit
      else 2047 * hiddenBit + hiddenBit / 2 + (fraction % 0x400000) <<< 29
    else if exponentField = 0 then
      if fraction = 0 then 0
      else
        -- A subnormal of the short format is a normal number here.
        (874 + fraction.log2) * hiddenBit + fraction <<< (52 - fraction.log2) - hiddenBit
    else
      (exponentField + 896) * hiddenBit + fraction <<< 29
  ⟨UInt64.ofNat (sign + magnitude)⟩

end Binary64

end BinaryTemplate
