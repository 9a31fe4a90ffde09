import BinaryTemplate.Binary64.Shortest

/-!
# Number values

The value of a number field: an unsigned or signed integer of 64 bits or a float. The views below
are what other parts of a decode see of it: an integer, if it is one; the nearest float; the bits
that masks are applied to; the text of messages.
-/

namespace BinaryTemplate

inductive NumberValue where
  | unsigned (n : UInt64)
  | signed (n : Int64)
  | float (x : Binary64)
deriving DecidableEq, Repr, Inhabited

namespace NumberValue

/-- The integer of 64 bits that a float stands for: its value if that is an integer in range,
and the greatest integer for `2^63`, the float next to it. -/
def floatToInt? (x : Binary64) : Option Int64 :=
  x.toInt?.bind fun n =>
    if n ≤ Integer.greatest + 1 then Integer.narrow? (min n Integer.greatest) else none

/-- The value as an integer with sign, if it has one of 64 bits. -/
def toInt? : NumberValue → Option Int64
  | unsigned n => Integer.narrow? n.toNat
  | signed n => some n
  | float x => floatToInt? x

def toFloat : NumberValue → Binary64
  | unsigned n => Binary64.ofInt n.toNat
  | signed n => Binary64.ofInt n.toInt
  | float x => x

/-- The bit pattern that masks are applied to. -/
def rawBits : NumberValue → UInt64
  | unsigned n => n
  | signed n => n.toUInt64
  | float x => x.bits

def text : NumberValue → String
  | unsigned n => toString n.toNat
  | signed n => toString n.toInt
  | float x => x.text

/-- Whether the value is less than an integer bound. A float is compared with the float nearest
to the bound. -/
def isBelow (bound : Int64) : NumberValue → Bool
  | unsigned n => (n.toNat : Int) < bound.toInt
  | signed n => n.toInt < bound.toInt
  | float x => x.lt (Binary64.ofInt bound.toInt)

/-- Whether the value is greater than an integer bound. -/
def isAbove (bound : Int64) : NumberValue → Bool
  | unsigned n => bound.toInt < (n.toNat : Int)
  | signed n => bound.toInt < n.toInt
  | float x => (Binary64.ofInt bound.toInt).lt x

end NumberValue

end BinaryTemplate
