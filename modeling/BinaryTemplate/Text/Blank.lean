/-!
# Blank characters

The characters with the Unicode property `White_Space`, and the trimming of a text at both ends.
The attribute texts of a template are trimmed by this rule before they are read as an integer or
kept as an expression, so a text of blanks alone counts as absent.
-/

namespace BinaryTemplate.Text

/-- Whether `c` has the Unicode property `White_Space`. -/
def isBlank (c : Char) : Bool :=
  let n := c.toNat
  (0x09 ≤ n && n ≤ 0x0D) || n == 0x20 || n == 0x85 || n == 0xA0 || n == 0x1680 ||
    (0x2000 ≤ n && n ≤ 0x200A) || n == 0x2028 || n == 0x2029 || n == 0x202F ||
    n == 0x205F || n == 0x3000

def trimRight (cs : List Char) : List Char :=
  (cs.reverse.dropWhile isBlank).reverse

/-- The text without the blanks at either end. -/
def trim (cs : List Char) : List Char :=
  trimRight (cs.dropWhile isBlank)

@[simp] theorem trim_nil : trim [] = [] := rfl

end BinaryTemplate.Text
