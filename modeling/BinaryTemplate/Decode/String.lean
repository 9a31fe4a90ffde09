import BinaryTemplate.Decode.Field

/-!
# Strings

The bytes of a string are framed in one of four ways: by a fixed length, by a length byte in front,
or by a terminator, which is zero or a delimiter. Terminators are looked for in whole units of the
encoding, counted from the start of the string. The framed bytes are then read in the encoding of
the string and matched with the listed texts.
-/

namespace BinaryTemplate.Decoder

open DecodeM (fail record resolved align tell tellAt)

variable {σ : Type} (d : Decoder σ)

/-! ## Framing -/

/-- The bytes, given in reverse, without the zero units at their end. -/
def dropZeroUnits (unit : Nat) (reversed : List UInt8) : List UInt8 :=
  if 0 < unit ∧ unit ≤ reversed.length ∧ (reversed.take unit).all (· == 0) then
    dropZeroUnits unit (reversed.drop unit)
  else reversed
termination_by reversed.length
decreasing_by
  simp only [List.length_drop]
  omega

def trimZeroUnits (unit : Nat) (bytes : List UInt8) : List UInt8 :=
  (dropZeroUnits unit bytes.reverse).reverse

/-- A terminating character as a unit of the encoding. -/
def terminator (encoding : Text.Encoding) (c : UInt8) : List UInt8 :=
  if encoding = .utf16be then [0, c]
  else if encoding.unitSize = 2 then [c, 0]
  else [c]

def effectiveKind (kind : Option StringKind) (delimiter : Option UInt8) : StringKind :=
  kind.getD (if delimiter.isSome then .delimited else .fixedLength)

variable [ByteSource σ]

/-- Reads at most so many units, up to and including the terminator. Gives the bytes before it
and whether it was there. -/
def readUntil (p : Place) (n : Node d.schema) (terminator : List UInt8) :
    (units : Nat) → DecodeM σ (List UInt8 × Bool)
  | 0 => return ([], false)
  | units + 1 => do
    let bytes ← d.read p n terminator.length
    if bytes = terminator then return ([], true)
    let (rest, found) ← readUntil p n terminator units
    return (bytes ++ rest, found)

/-- The bytes of a string of fixed length; without a length it takes all that is left. -/
def readFixed (p : Place) (n : Node d.schema) (offset unit : Nat) (declared : Option Nat) :
    DecodeM σ (List UInt8) := do
  let bytes ← d.read p n (declared.getD (p.limit - offset))
  return trimZeroUnits unit bytes

/-- The bytes of a string behind its length byte. A declared length has to hold both. -/
def readPascal (p : Place) (n : Node d.schema) (offset : Nat) (declared : Option Nat) :
    DecodeM σ (List UInt8) := do
  let first ← d.read p n 1
  let count := (first.headD 0).toNat
  match declared with
  | none => d.read p n count
  | some slot =>
    -- The slot holds the length byte as well, so the text has to be shorter than the slot.
    if slot ≤ count then fail n offset (.lengthMismatch slot (count + 1))
    let bytes ← d.read p n count
    d.skip p n (slot - count - 1)
    return bytes

/-- The bytes of a string in front of its terminator. A declared length is taken up as a whole;
without one the terminator has to be there. -/
def readTerminated (p : Place) (n : Node d.schema) (offset : Nat) (terminator : List UInt8)
    (declared : Option Nat) : DecodeM σ (List UInt8) := do
  let rest := p.limit - offset
  let unit := terminator.length
  -- What is left of the slot behind the last whole unit cannot hold a terminator.
  let (bytes, found) ← d.readUntil p n terminator (declared.getD rest / unit)
  let consumed := bytes.length + if found then unit else 0
  match declared with
  | some slot => d.skip p n (slot - consumed)
  | none => if !found then fail n offset (.shortRead (consumed + unit) rest)
  return bytes

def readFramed (p : Place) (n : Node d.schema) (offset : Nat) (encoding : Text.Encoding)
    (kind : StringKind) (delimiter : Option UInt8) (declared : Option Nat) :
    DecodeM σ (List UInt8) :=
  match kind with
  | .fixedLength => d.readFixed p n offset encoding.unitSize declared
  | .pascal => d.readPascal p n offset declared
  | .zeroTerminated => d.readTerminated p n offset (terminator encoding 0) declared
  | .delimited =>
    d.readTerminated p n offset (terminator encoding (delimiter.getD 0)) declared

/-! ## Decoding -/

def textChoice (v : NamedValue String) : String := v.name ++ "=" ++ Text.quoted v.value

/-- The name of the listed text that a string equals. Violates the constraint if there are listed
texts, one has to match, and none does. -/
def matchString (n : Node d.schema) (offset : Nat) (text : String) :
    DecodeM σ (Option String) := do
  let choices ← resolved n offset n.stringValues
  let matched := choices.find? (·.value == text)
  if !choices.isEmpty && matched.isNone then
    if ← resolved n offset n.mustMatch then
      d.violation ⟨n.id, n.label, offset, .mustMatch (Text.quoted text) (choices.map textChoice)⟩
  return matched.map (·.name)

def decodeString (p : Place) (n : Node d.schema) : DecodeM σ Value := do
  align
  let offset ← tell n
  let label ← resolved n offset n.encoding
  match d.encodings.ofLabel? label with
  | none => fail n offset (.unsupported (.unknownEncoding label))
  | some encoding =>
    let delimiter ← resolved n offset (n.lookup .delimiter)
    let kind ← resolved n offset (n.lookup .stringKind)
    let declared ← d.declaredBytes p n offset
    let bytes ← d.readFramed p n offset encoding (effectiveKind kind delimiter) delimiter declared
    -- The length is taken from the cursor, since the terminator and the padding count.
    let stop ← tellAt n offset
    match d.encodings.decode? encoding bytes with
    | none => fail n offset (.malformed encoding)
    | some chars =>
      let text := String.ofList chars
      let matched ← d.matchString n offset text
      record (.stringDecoded n.label text)
      return {
        element := n.id
        offset := offset
        len := stop - offset
        order := none
        payload := .string text matched
        children := [] }

end BinaryTemplate.Decoder
