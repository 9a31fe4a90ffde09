import BinaryTemplate.Integer
import BinaryTemplate.Text.Blank
import BinaryTemplate.Text.Numeral

/-!
# References

Lengths, repeat counts, bounds and computed values of a template are *references*: a literal
integer, or an expression that is evaluated against the values decoded so far. A reference is
written as text. Blank text means that the attribute is not set, which keeps an absent attribute
apart from a literal zero; text that is one integer literal is that integer, and everything else
is kept as an expression.
-/

namespace BinaryTemplate

open Text (trim)

namespace Literal

/-- The magnitude written after a base mark: digits of `base`, with one plus sign allowed in
front of them. -/
def afterMark? (base : Nat) : List Char → Option Nat
  | '+' :: digits => Text.Numeral.parse? base digits
  | digits => Text.Numeral.parse? base digits

/-- The magnitude of a literal: hexadecimal after `0x`, binary after `0b`, decimal otherwise. -/
def magnitude? : List Char → Option Nat
  | '0' :: 'x' :: rest => afterMark? 16 rest
  | '0' :: 'X' :: rest => afterMark? 16 rest
  | '0' :: 'b' :: rest => afterMark? 2 rest
  | '0' :: 'B' :: rest => afterMark? 2 rest
  | digits => Text.Numeral.parse? 10 digits

/-- The integer that a whole text denotes: an optional minus sign and a magnitude. Values
outside 64 bits are no literals. -/
def parse? : List Char → Option Int64
  | '-' :: rest => (magnitude? rest).bind fun n => Integer.narrow? (-(n : Int))
  | cs => (magnitude? cs).bind fun n => Integer.narrow? n

end Literal

/-- A quantity of a template: known when the template is written, or computed from data. -/
inductive Reference where
  | literal (value : Int64)
  | expression (text : String)
deriving DecidableEq, Repr, Inhabited

namespace Reference

/-- The reference written as `text`; `none` for blank text. -/
def parse (text : String) : Option Reference :=
  match trim text.toList with
  | [] => none
  | trimmed => some <| match Literal.parse? trimmed with
    | some n => .literal n
    | none => .expression (String.ofList trimmed)

def literal? : Reference → Option Int64
  | .literal n => some n
  | .expression _ => none

/-- The text of a reference; a literal is written in decimal. -/
def text : Reference → String
  | .literal n => toString n.toInt
  | .expression e => e

end Reference

end BinaryTemplate
