import BinaryTemplate.Bits
import BinaryTemplate.Source
import BinaryTemplate.Value

/-!
# Rendering values

A value is rendered by its content: numbers in the radix of their element, texts as they are, runs
of bytes by a preview that is read again from the source, and containers as nothing. A dump has
one line per value of a tree, indented by depth, with the masks of a number and the side tree of
an offset below it.
-/

namespace BinaryTemplate

/-- Why a value cannot be rendered. -/
inductive RenderError where
  | cycle (cause : CycleError)
  | input (cause : InputError)
deriving DecidableEq, Repr

namespace RenderError

def message : RenderError → String
  | cycle cause => cause.message
  | input cause => cause.message

end RenderError

/-- A rendering that may read from a source. -/
abbrev RenderM (σ : Type) := ExceptT RenderError (StateM σ)

namespace NumberValue

/-- The bits of an integer as far as they are in a field of `width` bits; a width of zero, or of
64 and more, keeps them all. -/
def fieldBits (bits width : Nat) : Nat :=
  if 0 < width ∧ width < 64 then bits % Bits.patterns width else bits

/-- A pattern of bits with the mark of its base. -/
def patternText (radix : Radix) (bits : Nat) : String :=
  match radix with
  | .dec => String.ofList (Nat.toDigits 10 bits)
  | .hex => "0x" ++ String.ofList ((Nat.toDigits 16 bits).map Char.toUpper)
  | .octal => "0o" ++ String.ofList (Nat.toDigits 8 bits)
  | .binary => "0b" ++ String.ofList (Nat.toDigits 2 bits)

/-- A number in the given radix. Other than in decimal an integer is shown by its pattern in a
field of `width` bits; floats are always shown in decimal. -/
def format (radix : Radix) (width : Nat) (value : NumberValue) : String :=
  match value, radix with
  | .float x, _ => x.text
  | value, .dec => value.text
  | value, radix => patternText radix (fieldBits value.rawBits.toNat width)

end NumberValue

namespace Value

variable {σ : Type}

/-- The effective value of an attribute, as far as a rendering needs it. -/
def resolved {α : Type} : Except CycleError α → RenderM σ α
  | .ok a => pure a
  | .error cycle => throw (.cycle cycle)

def radix (s : Schema) (v : Value) : Except CycleError Radix :=
  match s.node? v.element with
  | some node => node.radix
  | none => .ok .dec

/-- The number of bytes that a rendering shows of a run of bytes. -/
def previewLength : Nat := 32

variable [ByteSource σ]

/-- Reads bytes for a rendering and leaves the cursor alone. -/
def readAt (count offset : Nat) : RenderM σ (List UInt8) := fun source =>
  match ByteSource.readExactAt count offset source with
  | (.ok bytes, source) => (.ok bytes, source)
  | (.error e, source) => (.error (.input e), source)

/-- The first bytes of a run of bytes, and a mark if there are more. -/
def preview (v : Value) : RenderM σ String := do
  let shown := min v.len previewLength
  let bytes ← readAt shown v.offset
  return Text.Numeral.hexBytes " " bytes ++ if shown < v.len then " .." else ""

/-- The content of a value in one line of text. -/
def format (s : Schema) (v : Value) : RenderM σ String := do
  let radix ← resolved (v.radix s)
  match v.payload with
  | .none => return ""
  | .number value matched _ bits =>
    -- A bit field has its own width, which need not be that of its bytes.
    let number := value.format radix ((bits.map (·.bits)).getD (v.len * 8))
    match matched with
    | some name => return name ++ " (" ++ number ++ ")"
    | none => return number
  | .string text _ => return text
  | .custom text => return text
  | .binary (some name) => return name
  | .binary none => v.preview
  | .offset pointer target _ =>
    let pointer := (NumberValue.unsigned pointer).format radix (v.len * 8)
    match target with
    | some target => return pointer ++ " -> " ++ Text.Numeral.hex target
    | none => return pointer ++ " -> null"

/-! ## Dumps -/

def indentation (depth : Nat) : String := String.ofList (List.replicate (2 * depth) ' ')

/-- How a dump calls a value: its name, or else the label of its element. -/
def dumpName (s : Schema) (v : Value) : Except CycleError String :=
  match s.node? v.element with
  | none => .ok v.element.text
  | some node => node.name.map fun name => if name.isEmpty then node.label else name

def dumpLine (s : Schema) (depth : Nat) (v : Value) : RenderM σ String := do
  let name ← resolved (v.dumpName s)
  let content ← v.format s
  let place := indentation depth ++ name ++ " [" ++ Text.Numeral.hex v.offset ++ "+" ++
    toString v.len ++ "]"
  return if content.isEmpty then place else place ++ ": " ++ content

def maskLine (depth : Nat) (m : MaskValue) : String :=
  let place := indentation depth ++ "  ." ++ m.name ++ " = "
  match m.matched with
  | some name => place ++ name ++ " (" ++ toString m.value.toNat ++ ")"
  | none => place ++ toString m.value.toNat

def maskLines (depth : Nat) (payload : Payload Value) : List String :=
  match payload with
  | .number _ _ masks _ => masks.map (maskLine depth)
  | _ => []

mutual

/-- The lines of a tree: the value, its masks, its children, its side tree below an arrow. -/
def dumpLines (s : Schema) (depth : Nat) : Value → RenderM σ (List String)
  | ⟨element, offset, len, order, payload, children⟩ => do
    let line ← dumpLine s depth ⟨element, offset, len, order, payload, children⟩
    let below ← dumpAll s (depth + 1) children
    let side ← match payload with
      | .offset _ _ (some side) => do
        -- The arrow takes the level between an offset and its side tree.
        let lines ← dumpLines s (depth + 2) side
        pure ((indentation depth ++ "  ->") :: lines)
      | _ => pure []
    return line :: maskLines depth payload ++ below ++ side

def dumpAll (s : Schema) (depth : Nat) : List Value → RenderM σ (List String)
  | [] => return []
  | v :: rest => do
    let lines ← dumpLines s depth v
    let others ← dumpAll s depth rest
    return lines ++ others

end

def dump (s : Schema) (v : Value) : RenderM σ String := do
  let lines ← dumpLines s 0 v
  return "\n".intercalate lines

end Value

end BinaryTemplate
