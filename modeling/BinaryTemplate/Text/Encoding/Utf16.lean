/-!
# UTF-16

Strict reading of UTF-16 in either byte order: an odd number of bytes, and a surrogate without
its partner, are malformed.
-/

namespace BinaryTemplate.Text.Utf16

/-- The 16-bit units of a byte sequence, the low byte first. -/
def unitsLittle : List UInt8 → Option (List Nat)
  | [] => some []
  | [_] => none
  | low :: high :: rest => (unitsLittle rest).map ((high.toNat * 256 + low.toNat) :: ·)

/-- The 16-bit units of a byte sequence, the high byte first. -/
def unitsBig : List UInt8 → Option (List Nat)
  | [] => some []
  | [_] => none
  | high :: low :: rest => (unitsBig rest).map ((high.toNat * 256 + low.toNat) :: ·)

def isHighSurrogate (u : Nat) : Bool := 0xD800 ≤ u && u ≤ 0xDBFF

def isLowSurrogate (u : Nat) : Bool := 0xDC00 ≤ u && u ≤ 0xDFFF

/-- The characters of a sequence of units in which surrogates come in pairs. -/
def decodeUnits : List Nat → Option (List Char)
  | [] => some []
  | u :: rest =>
    if isLowSurrogate u then none
    else if isHighSurrogate u then
      match rest with
      | [] => none
      | v :: rest =>
        if isLowSurrogate v then
          (decodeUnits rest).map
            (Char.ofNat (0x10000 + (u - 0xD800) * 1024 + (v - 0xDC00)) :: ·)
        else none
    else (decodeUnits rest).map (Char.ofNat u :: ·)

end BinaryTemplate.Text.Utf16
