import BinaryTemplate.Decode.State

/-!
# Fields

What all fields have in common: references are evaluated at the place of the element, lengths are
counted in the unit of the element, and no read crosses the end of the innermost frame.
-/

namespace BinaryTemplate.Decoder

open DecodeM (fail resolved onSource tell seek)

variable {σ : Type} (d : Decoder σ)

/-! ## References -/

def evalInteger (p : Place) (n : Node d.schema) (offset : Nat) : Reference → DecodeM σ Int64
  | .literal k => pure k
  | .expression text =>
    match d.evaluator.evaluate (p.context d.schema) text with
    | .ok (.integer k) => pure k
    | .ok (.element id) =>
      fail n offset (.expression (.notNumeric (text ++ " (element " ++ id.text ++ ")")))
    | .error e => fail n offset (.expression e)

/-- A quantity that must not be negative. -/
def asCount (n : Node d.schema) (offset : Nat) (k : Int) : DecodeM σ Nat :=
  if 0 ≤ k then pure k.toNat else fail n offset (.range (toString k) (some 0) none)

def evalCount (p : Place) (n : Node d.schema) (offset : Nat) (r : Reference) : DecodeM σ Nat := do
  let k ← d.evalInteger p n offset r
  d.asCount n offset k.toInt

def evalOptional (p : Place) (n : Node d.schema) (offset : Nat) :
    Option Reference → DecodeM σ (Option Int64)
  | none => pure none
  | some r => do
    let k ← d.evalInteger p n offset r
    return some k

/-- The effective value of a reference attribute, evaluated if it is set. -/
def evalAttribute (p : Place) (n : Node d.schema) (offset : Nat) (a : Attribute Reference) :
    DecodeM σ (Option Int64) := do
  let r ← resolved n offset (n.lookup a)
  d.evalOptional p n offset r

/-! ## Lengths -/

/-- So many units in whole bytes. -/
def toBytes (n : Node d.schema) (offset units : Nat) (unit : LengthUnit) : DecodeM σ Nat :=
  let bits := units * unit.bits
  if positionLimit ≤ bits then fail n offset (.unsupported (.lengthOverflow units))
  -- Only numbers and pointers may end inside a byte.
  else if bits % 8 ≠ 0 then fail n offset (.unsupported (.partialByte bits))
  else pure (bits / 8)

def lengthBytes (p : Place) (n : Node d.schema) (offset : Nat) (length : Reference) :
    DecodeM σ Nat := do
  let units ← d.evalCount p n offset length
  let unit ← resolved n offset n.lengthUnit
  d.toBytes n offset units unit

def declaredBytes (p : Place) (n : Node d.schema) (offset : Nat) : DecodeM σ (Option Nat) := do
  match ← resolved n offset (n.lookup .length) with
  | some length =>
    let bytes ← d.lengthBytes p n offset length
    return some bytes
  | none => return none

/-! ## Reads within the frame -/

variable [ByteSource σ]

/-- The cursor, if so many bytes can be used from there on. -/
def checkBound (p : Place) (n : Node d.schema) (count : Nat) : DecodeM σ Nat := do
  let position ← tell n
  if p.limit < position + count then
    fail n position (.shortRead count (p.limit - position))
  return position

def read (p : Place) (n : Node d.schema) (count : Nat) : DecodeM σ (List UInt8) := do
  let position ← d.checkBound p n count
  onSource n position (ByteSource.readExact count)

def skip (p : Place) (n : Node d.schema) (count : Nat) : DecodeM σ Unit := do
  let position ← d.checkBound p n count
  seek n position (position + count)

end BinaryTemplate.Decoder
