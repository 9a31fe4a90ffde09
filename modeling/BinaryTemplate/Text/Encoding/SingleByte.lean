/-!
# Single-byte encodings

Encodings that give every byte a character: ASCII in the lower half, and one of the tables below
in the upper half. Every byte sequence is well formed in them.
-/

namespace BinaryTemplate.Text.SingleByte

/-- The characters of the bytes `0x80` to `0x9F` in windows-1252. -/
def windows1252Controls : Array Nat :=
  #[0x20AC, 0x81, 0x201A, 0x0192, 0x201E, 0x2026, 0x2020, 0x2021,
    0x02C6, 0x2030, 0x0160, 0x2039, 0x0152, 0x8D, 0x017D, 0x8F,
    0x90, 0x2018, 0x2019, 0x201C, 0x201D, 0x2022, 0x2013, 0x2014,
    0x02DC, 0x2122, 0x0161, 0x203A, 0x0153, 0x9D, 0x017E, 0x0178]

/-- windows-1252 differs from Latin-1 between `0x80` and `0x9F`. -/
def windows1252 (b : Nat) : Nat :=
  if 0x80 ≤ b ∧ b < 0xA0 then windows1252Controls.getD (b - 0x80) b else b

/-- ISO-8859-5 has the Cyrillic letters in the order of their code points. -/
def iso8859_5 (b : Nat) : Nat :=
  if b ≤ 0xA0 ∨ b = 0xAD then b
  else if b = 0xF0 then 0x2116
  else if b = 0xFD then 0xA7
  else b - 0xA0 + 0x400

/-- ISO-8859-15 differs from Latin-1 at eight bytes. -/
def iso8859_15 (b : Nat) : Nat :=
  match b with
  | 0xA4 => 0x20AC
  | 0xA6 => 0x0160
  | 0xA8 => 0x0161
  | 0xB4 => 0x017D
  | 0xB8 => 0x017E
  | 0xBC => 0x0152
  | 0xBD => 0x0153
  | 0xBE => 0x0178
  | _ => b

/-- x-user-defined puts the upper half into the private use area. -/
def userDefined (b : Nat) : Nat :=
  if b < 0x80 then b else b - 0x80 + 0xF780

/-- The characters of a byte sequence by the given table. -/
def decode (table : Nat → Nat) (bytes : List UInt8) : List Char :=
  bytes.map fun b => Char.ofNat (table b.toNat)

end BinaryTemplate.Text.SingleByte
