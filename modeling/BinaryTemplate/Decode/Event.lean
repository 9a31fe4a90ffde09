import BinaryTemplate.Decode.Error

/-!
# Events of a decode

What happens during a decode, in order, attempts that are given up included. The events can be
read as lines of a log, or as the kinds of the elements that were tried.
-/

namespace BinaryTemplate

/-- Something that happens during a decode. Elements are named by their labels. -/
inductive Event where
  | tried (kind : String)
  | opened (container : String) (start stop : Nat)
  | disabled (element : String)
  | runEnded (element : String) (count : Nat) (cause : DecodeError)
  | rejected (element : String) (position : Nat) (cause : DecodeError)
  | followed (offset target : String) (position : Nat)
  | bytesRead (number : String) (raw position : Nat)
  | bitsRead (number : String) (width raw firstBit : Nat)
  | numberDecoded (number : String) (value : NumberValue)
  | stringDecoded (string : String) (text : String)
  | bytesSkipped (binary : String) (count position : Nat)
  /-- A violated constraint that lenient decoding tolerates. -/
  | tolerated (violation : DecodeError)
deriving DecidableEq, Repr

namespace Event

open Text.Numeral (hex)

/-- The event as a line of a log, the level in front; not every event has one. -/
def line? : Event → Option String
  | tried _ => none
  | opened container start stop =>
    some ("DEBUG " ++ container ++ " [" ++ hex start ++ ".." ++ hex stop ++ "]")
  | disabled element => some ("TRACE " ++ element ++ " disabled")
  | runEnded element count cause =>
    some ("DEBUG " ++ element ++ " ends after " ++ toString count ++ " instances: " ++
      cause.message)
  | rejected element position cause =>
    some ("TRACE " ++ element ++ " does not match at " ++ hex position ++ ": " ++ cause.message)
  | followed offset target position =>
    some ("DEBUG " ++ offset ++ " -> " ++ target ++ " at " ++ hex position)
  | bytesRead number raw position =>
    some ("TRACE " ++ number ++ " read " ++ hex raw ++ " at " ++ hex position)
  | bitsRead number width raw firstBit =>
    some ("TRACE " ++ number ++ " read " ++ toString width ++ " bits " ++ hex raw ++ " at bit " ++
      toString firstBit)
  | numberDecoded number value => some ("TRACE " ++ number ++ " = " ++ value.text)
  | stringDecoded string text => some ("TRACE " ++ string ++ " = " ++ Text.quoted text)
  | bytesSkipped binary count position =>
    some ("TRACE " ++ binary ++ " " ++ toString count ++ " bytes at " ++ hex position)
  | tolerated violation => some ("WARN " ++ violation.message)

def triedKind? : Event → Option String
  | tried kind => some kind
  | _ => none

def log (events : List Event) : List String := events.filterMap line?

/-- The kinds of the elements that were tried, in alphabetical order. -/
def triedKinds (events : List Event) : List String :=
  (events.filterMap triedKind?).eraseDups.mergeSort

end Event

end BinaryTemplate
