import BinaryTemplate.Text.GraphemeExtend
import BinaryTemplate.Text.Numeral
import BinaryTemplate.Text.Unprintable

/-!
# Quoted text

The form in which messages show the text of a value: between double quotes, with everything that
could be misread written as an escape. The quote, the backslash and four control characters have
escapes of their own; other unprintable characters, and those that would attach themselves to the
character in front, are written by their code point.
-/

namespace BinaryTemplate.Text

def codePointEscape (c : Char) : List Char :=
  '\\' :: 'u' :: '\x7b' :: (Numeral.hexDigits c.toNat).toList ++ ['\x7d']

/-- One character as it stands between the quotes. -/
def escaped (c : Char) : List Char :=
  match c with
  | '"' => ['\\', '"']
  | '\\' => ['\\', '\\']
  | '\n' => ['\\', 'n']
  | '\r' => ['\\', 'r']
  | '\t' => ['\\', 't']
  | '\x00' => ['\\', '0']
  | _ =>
    if 0x20 ≤ c.toNat ∧ c.toNat < 0x7F then [c]
    else if attaches c || !isPrintable c then codePointEscape c
    else [c]

/-- The text between double quotes, with escapes. -/
def quoted (text : String) : String :=
  String.ofList ('"' :: text.toList.flatMap escaped ++ ['"'])

end BinaryTemplate.Text
