/-!
# Numerals

Natural numbers written and read in a positional base. Writing is the digit printer of the
standard library with the base prefixes that messages and renderings use; reading accepts the
digits `0`–`9`, `a`–`f` and `A`–`F` below the base and refuses the empty text.
-/

namespace BinaryTemplate.Text.Numeral

/-- The value of a digit character, hexadecimal letters of either case included. -/
def digit? (c : Char) : Option Nat :=
  let n := c.toNat
  if 0x30 ≤ n ∧ n ≤ 0x39 then some (n - 0x30)
  else if 0x61 ≤ n ∧ n ≤ 0x66 then some (n - 0x61 + 10)
  else if 0x41 ≤ n ∧ n ≤ 0x46 then some (n - 0x41 + 10)
  else none

def digitOf? (base : Nat) (c : Char) : Option Nat :=
  (digit? c).filter (· < base)

/-- Reads the remaining digits after those that gave `acc`. -/
def continue? (base : Nat) (acc : Nat) : List Char → Option Nat
  | [] => some acc
  | c :: cs => (digitOf? base c).bind fun d => continue? base (acc * base + d) cs

/-- The number that a non-empty text of digits denotes. -/
def parse? (base : Nat) (cs : List Char) : Option Nat :=
  if cs.isEmpty then none else continue? base 0 cs

/-- Lower-case hexadecimal digits, without a base mark. -/
def hexDigits (n : Nat) : String :=
  String.ofList (Nat.toDigits 16 n)

/-- Lower-case hexadecimal with its base mark, the form that offsets have in messages. -/
def hex (n : Nat) : String :=
  "0x" ++ hexDigits n

def hexByte (b : UInt8) : String :=
  String.ofList [(b.toNat / 16).digitChar, (b.toNat % 16).digitChar]

/-- Bytes as pairs of hexadecimal digits with `separator` between them. -/
def hexBytes (separator : String) (bytes : List UInt8) : String :=
  separator.intercalate (bytes.map hexByte)

end BinaryTemplate.Text.Numeral
