/-!
# Bits and bytes as numbers

Bits are counted from the least significant one of each byte, so the bits of a file form one long
sequence. A number is the sum of its bits, or of its bytes in either order, by their weights.
-/

namespace BinaryTemplate

namespace Bits

/-- The eight bits of a byte, the least significant one first. -/
def ofByte (b : UInt8) : List Bool := (List.range 8).map b.toNat.testBit

/-- The number that bits denote, the least significant one first. -/
def toNat : List Bool → Nat
  | [] => 0
  | bit :: rest => bit.toNat + 2 * toNat rest

def patterns (width : Nat) : Nat := 1 <<< width

/-- The number of `width` bits that the two's complement pattern `raw` stands for. -/
def signed (raw width : Nat) : Int :=
  if 2 * raw < patterns width then raw else (raw : Int) - patterns width

end Bits

namespace Bytes

/-- The number that bytes denote, the least significant one first. -/
def toNatLittle : List UInt8 → Nat
  | [] => 0
  | b :: rest => b.toNat + 256 * toNatLittle rest

/-- The number that bytes denote, the most significant one first. -/
def toNatBig (bytes : List UInt8) : Nat := toNatLittle bytes.reverse

end Bytes

end BinaryTemplate
