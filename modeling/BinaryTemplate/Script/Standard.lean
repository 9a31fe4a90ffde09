import BinaryTemplate.Evaluator
import BinaryTemplate.Script

/-!
# The standard script host

Four small languages, told apart by the language of a script. `hex` shows bytes, `len` takes as
many bytes as its source says, `info` shows what the script was called with, and `context` answers
questions about the decode, one per line of its source. A script in any other language fails.
-/

namespace BinaryTemplate.Script

variable {σ : Type} [ByteSource σ]

abbrev ScriptM (σ : Type) := ExceptT String (StateM σ)

/-- An operation on the source; its failure is the failure of the script. -/
def onSource {α : Type} (operation : SourceM σ α) : ScriptM σ α := fun source =>
  match operation source with
  | (.ok a, source) => (.ok a, source)
  | (.error e, source) => (.error e.message, source)

def optionText : Option Nat → String
  | some n => "Some(" ++ toString n ++ ")"
  | none => "None"

def hexLimit : Nat := 4096

/-- Shows the bytes of the declared length, or two bytes. -/
def runHex (call : ScriptCall) : ScriptM σ ScriptOutput := do
  let len := call.length?.getD 2
  let bytes ← onSource (ByteSource.readExact (min len hexLimit))
  return ⟨len, Text.Numeral.hexBytes "" bytes⟩

/-- The unsigned integer of 64 bits that a text denotes, one plus sign in front allowed. -/
def count? (text : String) : Option Nat :=
  let digits := match text.toList with
    | '+' :: rest => rest
    | cs => cs
  (Text.Numeral.parse? 10 digits).filter (· < Integer.unsignedLimit)

/-- Takes as many bytes as the source says. -/
def runLen (source : String) : ScriptM σ ScriptOutput :=
  match count? source with
  | some len => return ⟨len, ""⟩
  | none => throw "bad len"

/-- Shows the element and its bounds, after moving the cursor to the end of the source. -/
def runInfo (call : ScriptCall) : ScriptM σ ScriptOutput := do
  let _ ← onSource (ByteSource.seek (.stop 0))
  let text := call.element.text ++ " start=" ++ toString call.start ++ " length=" ++
    optionText call.length? ++ " limit=" ++ toString call.limit
  return ⟨call.length?.getD 0, text⟩

/-! ## Questions about the context -/

/-- The lines of a text. A line ends at a line feed, a carriage return before that being part of
its end; what stands behind the last line feed is a line as it is, unless it is empty. -/
def lines (text : String) : List String :=
  match (text.splitOn "\n").reverse with
  | [] => []
  | last :: ended => ended.reverse.map withoutReturn ++ if last.isEmpty then [] else [last]
where
  /-- A line without the carriage return at its end. -/
  withoutReturn (line : String) : String :=
    match line.toList.reverse with
    | '\r' :: rest => String.ofList rest.reverse
    | _ => line

/-- The answer to the question for the value of an expression. -/
def evalAnswer (c : Context) (text : String) : String :=
  match Evaluator.standard.evaluate c text with
  | .ok (.integer n) => toString n.toInt
  | .ok (.element id) => "element " ++ id.text
  | .error e => e.message

def valueAnswer : Option Value → String
  | some v => v.display
  | none => "none"

/-- The element that a text means by its index. -/
def elementOf (text : String) : ElementId := ⟨(count? text).getD 0⟩

def words (text : String) : List String :=
  (text.splitToList Text.isBlank).filter (!·.isEmpty)

/-- The answer to one line: a command, and its argument behind a space. -/
def answer (c : Context) (line : String) : String :=
  let command := String.ofList (line.toList.takeWhile (· != ' '))
  let argument := String.ofList ((line.toList.dropWhile (· != ' ')).drop 1)
  match command with
  | "eval" => evalAnswer c argument
  | "lookup" => valueAnswer (c.lookup (words argument))
  | "find" => valueAnswer (c.find? (elementOf argument))
  | "start" => optionText (c.containerStart? (elementOf argument))
  | "siblings" => ", ".intercalate (c.siblings.map Value.display)
  | "elements" => toString c.schema.size
  | _ => ""

/-- Answers the questions in the source, one line each. -/
def runContext (source : String) (call : ScriptCall) : ScriptM σ ScriptOutput :=
  return ⟨call.length?.getD 0, "\n".intercalate ((lines source).map (answer call.context))⟩

def standardHost : ScriptHost σ where
  run script call :=
    let source := script.source.getD ""
    match script.language with
    | some "hex" => runHex call
    | some "len" => runLen source
    | some "info" => runInfo call
    | some "context" => runContext source call
    | language => throw (language.getD "none" ++ ": " ++ source)

end BinaryTemplate.Script
