import BinaryTemplate.Expression
import BinaryTemplate.Source
import BinaryTemplate.Text.Encoding
import BinaryTemplate.Value.Validation

/-!
# Decode errors

A failed decode names the element, the place and the cause. Some causes only mean that the
instance tried is not there: these *mismatches* end an open-ended run of repeats and reject an
alternative, while every other cause fails the whole decode.
-/

namespace BinaryTemplate

/-- A link of the template that a decode cannot follow. -/
inductive BrokenLink where
  | notInSchema (id : ElementId)
  | noStructure
  | notAStructure (id : ElementId) (kind : String)
  | noScript
  | notAScript (id : ElementId) (kind : String)
  | noGrammar (filename : String)
  | notAGrammar (id : ElementId) (kind : String)
  | baseNotDecoded (id : ElementId)
  | sizeNotDecoded (id : ElementId)
deriving DecidableEq, Repr

namespace BrokenLink

def message : BrokenLink → String
  | notInSchema id => "element " ++ id.text ++ " is not part of the grammar"
  | noStructure => "structref without structure"
  | notAStructure id kind => id.text ++ " is a " ++ kind ++ ", not a structure"
  | noScript => "custom element without script"
  | notAScript id kind => id.text ++ " is a " ++ kind ++ ", not a script"
  | noGrammar filename => "grammar `" ++ filename ++ "` is not linked"
  | notAGrammar id kind => id.text ++ " is a " ++ kind ++ ", not a grammar"
  | baseNotDecoded id => "relativeTo " ++ id.text ++ " is neither open nor decoded"
  | sizeNotDecoded id => "referenced size " ++ id.text ++ " not decoded yet"

end BrokenLink

/-- What a template asks for and no decode can do. -/
inductive Unsupported where
  | negativeRepeatMin (min : Int64)
  | noNumberLength
  | numberWidth (units : Nat) (unit : LengthUnit)
  | floatWidth (bits : Nat)
  | unknownEncoding (label : String)
  | lengthOverflow (units : Nat)
  | partialByte (bits : Nat)
deriving DecidableEq, Repr

namespace Unsupported

def message : Unsupported → String
  | negativeRepeatMin min => "negative repeatMin " ++ toString min.toInt
  | noNumberLength => "number without length"
  | numberWidth units unit =>
    toString units ++ " " ++ unit.name ++ "s is not a 1..64-bit number"
  | floatWidth bits => toString bits ++ "-bit float"
  | unknownEncoding label => "unknown encoding `" ++ label ++ "`"
  | lengthOverflow units => "length " ++ toString units ++ " overflows"
  | partialByte bits =>
    "length of " ++ toString bits ++ " bits is not a whole number of bytes"

end Unsupported

inductive Failure where
  | shortRead (wanted available : Nat)
  | device (fault : DeviceFault)
  | validation (cause : ValidationError)
  | lengthMismatch (declared consumed : Nat)
  | mustMatch (value : String) (allowed : List String)
  | range (value : String) (min max : Option Int64)
  | expression (cause : ExpressionError)
  | cycle (cause : CycleError)
  | unresolved (link : BrokenLink)
  | script (text : String)
  | malformed (encoding : Text.Encoding)
  | unsupported (what : Unsupported)
  | depthExceeded (limit : Nat)
  | pointerLoop (target : Nat)
  | repeatLimit (limit : Nat)
  | repeatMin (min found : Nat)
  /-- The index of a bit at this position does not fit 64 bits. -/
  | bitIndexOverflow (position : Nat)
deriving DecidableEq, Repr

namespace Failure

def boundText : Option Int64 → String
  | some n => toString n.toInt
  | none => "-"

def message : Failure → String
  | shortRead wanted available =>
    "short read: wanted " ++ toString wanted ++ " bytes, " ++ toString available ++ " available"
  | device fault => "IO: " ++ fault.message
  | validation cause => "Validation: " ++ cause.message
  | lengthMismatch declared consumed =>
    "length mismatch: declared " ++ toString declared ++ " bytes, consumed " ++ toString consumed
  | mustMatch value allowed =>
    "value " ++ value ++ " matches none of [" ++ ", ".intercalate allowed ++ "]"
  | range value min max =>
    "value " ++ value ++ " outside [" ++ boundText min ++ ", " ++ boundText max ++ "]"
  | expression cause => "expression: " ++ cause.message
  | cycle cause => cause.message
  | unresolved link => "unresolved: " ++ link.message
  | script text => "script: " ++ text
  | malformed encoding => "encoding: malformed " ++ encoding.name ++ " text"
  | unsupported what => "unsupported: " ++ what.message
  | depthExceeded limit => "nesting deeper than " ++ toString limit
  | pointerLoop target => "pointer loop at " ++ Text.Numeral.hex target
  | repeatLimit limit => "more than " ++ toString limit ++ " instances"
  | repeatMin min found =>
    toString found ++ " instances, at least " ++ toString min ++ " required"
  | bitIndexOverflow position =>
    "the bits at " ++ Text.Numeral.hex position ++ " have no index of 64 bits"

/-- Whether the cause only means that the instance tried is not there. -/
def isMismatch : Failure → Bool
  | shortRead .. | mustMatch .. | range .. | lengthMismatch .. | repeatMin .. | malformed .. => true
  | _ => false

/-- A failed operation on the source as the cause of a failed decode. -/
def ofInput : InputError → Failure
  | .shortRead _ wanted got => .shortRead wanted got.length
  | .device fault => .device fault

end Failure

/-- A failed decode: the element with its label, the byte offset and the cause. -/
structure DecodeError where
  element : ElementId
  name : String
  offset : Nat
  failure : Failure
deriving DecidableEq, Repr

namespace DecodeError

def message (e : DecodeError) : String :=
  e.name ++ " at " ++ Text.Numeral.hex e.offset ++ ": " ++ e.failure.message

def isMismatch (e : DecodeError) : Bool := e.failure.isMismatch

/-- Where the read that came up short would have ended. -/
def shortReadStop? (e : DecodeError) : Option Nat :=
  match e.failure with
  | .shortRead wanted _ => some (min (e.offset + wanted) (positionLimit - 1))
  | _ => none

end DecodeError

end BinaryTemplate
