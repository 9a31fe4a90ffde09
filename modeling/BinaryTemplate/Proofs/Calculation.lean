import BinaryTemplate.Decode

/-!
# Calculations with words

Positions, lengths and bit indices are words of 64 bits. Where a decode adds, subtracts, multiplies
and shifts them it mostly does not ask whether the result is a word again. The decode below is the
same with each such calculation made explicit, in front of what uses its result: one that leaves its
type is noted and ends the decode.

Sums and products that the decode does ask about are part of it already, and so are those that stop
at a bound. Sums of three words are made in 128 bits, and instances and levels are only counted up
to the limits that the options set.
-/

namespace BinaryTemplate

/-- A calculation that is made without asking whether its result fits. -/
inductive Calculation where
  | sum (x y : Nat)
  | difference (x y : Nat)
  | product (x y : Nat)
  /-- A shift in a word of so many bits. -/
  | shift (width amount : Nat)
deriving DecidableEq, Repr

namespace Calculation

/-- The result has the type of the operands; a shift is by less than the width of its word. -/
def Fits : Calculation → Prop
  | sum x y => x + y < positionLimit
  | difference x y => y ≤ x
  | product x y => x * y < positionLimit
  | shift width amount => amount < width

instance : DecidablePred Fits := fun c => by
  cases c <;> unfold Fits <;> infer_instance

end Calculation

/-- A source with the calculations that left their type, the most recent one first. -/
structure Calculating (σ : Type) where
  source : σ
  strays : List Calculation := []

namespace Calculating

variable {σ : Type} {α ε : Type}

/-- An operation of the source, in which nothing is calculated. -/
def lifted (operation : ExceptT ε (StateM σ) α) : ExceptT ε (StateM (Calculating σ)) α :=
  fun c => let (answer, source) := operation c.source; (answer, { c with source := source })

instance [ByteSource σ] : ByteSource (Calculating σ) where
  seek target := lifted (ByteSource.seek target)
  tell := lifted ByteSource.tell
  size := lifted ByteSource.size
  readExact count := lifted (ByteSource.readExact count)
  readExactAt count offset := lifted (ByteSource.readExactAt count offset)

end Calculating

/-- Makes a calculation. One whose result does not fit ends the decode, in the way in which bits
without an index do. -/
def DecodeM.calculate {σ : Type} {s : Schema} (n : Node s) (offset : Nat) (c : Calculation) :
    DecodeM (Calculating σ) Unit := do
  if ¬ c.Fits then
    modify fun st => { st with source.strays := c :: st.source.strays }
    fail n offset (.bitIndexOverflow offset)

/-- The same decoder over a source that notes calculations. -/
@[reducible] def Decoder.calculating {σ : Type} (d : Decoder σ) : Decoder (Calculating σ) where
  schema := d.schema
  evaluator := d.evaluator
  encodings := d.encodings
  scripts := d.scripts.map fun host =>
    ⟨fun script call => Calculating.lifted (host.run script call)⟩
  options := d.options

namespace Calculating

open DecodeM (calculate fail record resolved outcome onSource align setPending tell tellAt seek)
open Decoder (RawNumber nextBit lowestSetBit terminator effectiveKind)

variable {σ : Type} [ByteSource σ] (d : Decoder σ)

def skip (p : Place) (n : Node d.schema) (count : Nat) : DecodeM (Calculating σ) Unit := do
  let position ← d.calculating.checkBound p n count
  calculate n position (.sum position count)
  seek n position (position + count)

/-! ## Numbers -/

/-- The bits that are left of the current byte, or those of the next byte if none are left. -/
def refill (p : Place) (n : Node d.schema) (offset wanted consumed : Nat) :
    List Bool → DecodeM (Calculating σ) (List Bool × Nat)
  | [] => do
    calculate n offset (.sum offset consumed)
    if p.limit ≤ offset + consumed then fail n offset (.shortRead ((wanted + 7) / 8) 0)
    let b ← onSource n offset ByteSource.readByte
    calculate n offset (.sum consumed 1)
    return (Bits.ofByte b, consumed + 1)
  | pending => return (pending, consumed)

/-- Takes the last `wanted` bits of a number of `width` bits, one by one. -/
def takeBits (p : Place) (n : Node d.schema) (offset width : Nat) :
    (wanted consumed raw : Nat) → List Bool → DecodeM (Calculating σ) (Nat × Nat)
  | 0, consumed, raw, pending => do
    setPending pending
    return (raw, consumed)
  | wanted + 1, consumed, raw, pending => do
    let (pending, consumed) ← refill d p n offset (wanted + 1) consumed pending
    let place := width - (wanted + 1)
    let bit := pending.headD false
    calculate n offset (.shift 8 (8 - pending.length))
    if bit then calculate n offset (.shift 64 place)
    takeBits p n offset width wanted consumed (raw + bit.toNat <<< place) pending.tail

/-- The index of the next bit is eight times the position of its byte and the bits before it. -/
def indexBit {s : Schema} (n : Node s) (offset pending : Nat) : DecodeM (Calculating σ) Unit :=
  if pending = 0 then calculate n offset (.product offset 8)
  else do
    calculate n offset (.product (offset - 1) 8)
    calculate n offset (.sum ((offset - 1) * 8) (8 - pending))

def readBits (p : Place) (n : Node d.schema) (width : Nat) :
    DecodeM (Calculating σ) RawNumber := do
  let offset ← tell n
  let pending := (← get).pending
  indexBit n offset pending.length
  let firstBit := nextBit offset pending.length
  let (raw, len) ← takeBits d p n offset width width 0 0 pending
  record (.bitsRead n.label width raw firstBit)
  return ⟨raw, offset, len, some ⟨firstBit, width⟩, width⟩

def readRaw (p : Place) (n : Node d.schema) (order : ByteOrder) :
    DecodeM (Calculating σ) RawNumber := do
  let offset ← tell n
  match ← resolved n offset (n.lookup .length) with
  | none => fail n offset (.unsupported .noNumberLength)
  | some length =>
    let unit ← resolved n offset n.lengthUnit
    let units ← d.calculating.evalCount p n offset length
    let width := units * unit.bits
    if width = 0 ∨ 64 < width then fail n offset (.unsupported (.numberWidth units unit))
    match unit with
    | .bit => readBits d p n width
    | .byte => d.calculating.readBytes p n offset order width

/-- A number with a sign is shifted to the end of its word and back. -/
def interpret (n : Node d.schema) (kind : NumberKind) (r : RawNumber) :
    DecodeM (Calculating σ) NumberValue := do
  if kind = .signed ∧ r.width < 64 then do
    calculate n r.offset (.difference 64 r.width)
    calculate n r.offset (.shift 64 (64 - r.width))
  d.calculating.interpret n kind r

/-- The shifts by which masks extract their fields. -/
def shiftMasks (n : Node d.schema) (offset : Nat) : List Mask → DecodeM (Calculating σ) Unit
  | [] => return ()
  | mask :: rest => do
    if mask.mask ≠ 0 then calculate n offset (.shift 64 (lowestSetBit mask.mask))
    shiftMasks n offset rest

def finishNumber (p : Place) (n : Node d.schema) (offset len : Nat) (value : NumberValue)
    (bits : Option BitSpan) (order : ByteOrder) : DecodeM (Calculating σ) Value := do
  let matched ← d.calculating.matchNumber n offset value
  d.calculating.checkRange p n offset value
  let masks ← resolved n offset n.masks
  shiftMasks d n offset masks
  record (.numberDecoded n.label value)
  return {
    element := n.id
    offset := offset
    len := len
    order := some order
    payload := .number value matched (masks.map (Decoder.extract value.rawBits)) bits
    children := [] }

def computedPlace (p : Place) (n : Node d.schema) (offset : Nat) :
    DecodeM (Calculating σ) (Nat × Nat) := do
  match ← resolved n offset (n.lookup .length) with
  | none => return (offset, 0)
  | some length =>
    align
    let start ← tellAt n offset
    let len ← d.calculating.lengthBytes p n start length
    skip d p n len
    return (start, len)

def decodeNumber (p : Place) (n : Node d.schema) : DecodeM (Calculating σ) Value := do
  let offset ← tell n
  let kind ← resolved n offset n.numberKind
  let order ← resolved n offset n.byteOrder
  match ← resolved n offset (n.lookup .valueExpression) with
  | some expression =>
    let k ← d.calculating.evalInteger p n offset expression
    let (start, len) ← computedPlace d p n offset
    finishNumber d p n start len (Decoder.computedValue kind k) none order
  | none =>
    let r ← readRaw d p n order
    let value ← interpret d n kind r
    finishNumber d p n r.offset r.len value r.bits order

/-! ## Strings and runs of bytes -/

def dropZeroUnits (n : Node d.schema) (offset unit : Nat) (reversed : List UInt8) :
    DecodeM (Calculating σ) (List UInt8) :=
  if 0 < unit ∧ unit ≤ reversed.length then do
    calculate n offset (.difference reversed.length unit)
    if (reversed.take unit).all (· == 0) then dropZeroUnits n offset unit (reversed.drop unit)
    else return reversed
  else return reversed
termination_by reversed.length
decreasing_by
  simp only [List.length_drop]
  omega

def readFixed (p : Place) (n : Node d.schema) (offset unit : Nat) (declared : Option Nat) :
    DecodeM (Calculating σ) (List UInt8) := do
  let bytes ← d.calculating.read p n (declared.getD (p.limit - offset))
  let trimmed ← dropZeroUnits d n offset unit bytes.reverse
  return trimmed.reverse

def readPascal (p : Place) (n : Node d.schema) (offset : Nat) (declared : Option Nat) :
    DecodeM (Calculating σ) (List UInt8) := do
  let first ← d.calculating.read p n 1
  let count := (first.headD 0).toNat
  match declared with
  | none => d.calculating.read p n count
  | some slot =>
    if slot ≤ count then do
      calculate n offset (.sum count 1)
      fail n offset (.lengthMismatch slot (count + 1))
    let bytes ← d.calculating.read p n count
    calculate n offset (.difference slot count)
    calculate n offset (.difference (slot - count) 1)
    skip d p n (slot - count - 1)
    return bytes

/-- Reads units as long as a whole one is left in the window, of which so many bytes are
consumed. -/
def readUntil (p : Place) (n : Node d.schema) (offset window : Nat) (terminator : List UInt8)
    (consumed : Nat) : DecodeM (Calculating σ) (List UInt8 × Bool) := do
  calculate n offset (.sum consumed terminator.length)
  if 0 < terminator.length ∧ consumed + terminator.length ≤ window then do
    let bytes ← d.calculating.read p n terminator.length
    if bytes = terminator then return ([], true)
    let (rest, found) ← readUntil p n offset window terminator (consumed + terminator.length)
    return (bytes ++ rest, found)
  else return ([], false)
termination_by window - consumed

def readTerminated (p : Place) (n : Node d.schema) (offset : Nat) (terminator : List UInt8)
    (declared : Option Nat) : DecodeM (Calculating σ) (List UInt8) := do
  let rest := p.limit - offset
  let unit := terminator.length
  let (bytes, found) ← readUntil d p n offset (declared.getD rest) terminator 0
  let consumed := bytes.length + if found then unit else 0
  match declared with
  | some slot =>
    calculate n offset (.difference slot consumed)
    skip d p n (slot - consumed)
  | none =>
    if !found then do
      calculate n offset (.sum consumed unit)
      fail n offset (.shortRead (consumed + unit) rest)
  return bytes

def readFramed (p : Place) (n : Node d.schema) (offset : Nat) (encoding : Text.Encoding)
    (kind : StringKind) (delimiter : Option UInt8) (declared : Option Nat) :
    DecodeM (Calculating σ) (List UInt8) :=
  match kind with
  | .fixedLength => readFixed d p n offset encoding.unitSize declared
  | .pascal => readPascal d p n offset declared
  | .zeroTerminated => readTerminated d p n offset (terminator encoding 0) declared
  | .delimited =>
    readTerminated d p n offset (terminator encoding (delimiter.getD 0)) declared

def decodeString (p : Place) (n : Node d.schema) : DecodeM (Calculating σ) Value := do
  align
  let offset ← tell n
  let label ← resolved n offset n.encoding
  match d.encodings.ofLabel? label with
  | none => fail n offset (.unsupported (.unknownEncoding label))
  | some encoding =>
    let delimiter ← resolved n offset (n.lookup .delimiter)
    let kind ← resolved n offset (n.lookup .stringKind)
    let declared ← d.calculating.declaredBytes p n offset
    let bytes ← readFramed d p n offset encoding (effectiveKind kind delimiter) delimiter declared
    let stop ← tellAt n offset
    calculate n offset (.difference stop offset)
    match d.encodings.decode? encoding bytes with
    | none => fail n offset (.malformed encoding)
    | some chars =>
      let text := String.ofList chars
      let matched ← d.calculating.matchString n offset text
      record (.stringDecoded n.label text)
      return {
        element := n.id
        offset := offset
        len := stop - offset
        order := none
        payload := .string text matched
        children := [] }

def decodeBinary (p : Place) (n : Node d.schema) : DecodeM (Calculating σ) Value := do
  align
  let offset ← tell n
  let declared ← d.calculating.declaredBytes p n offset
  let count := declared.getD (p.limit - offset)
  let choices ← resolved n offset n.binaryValues
  let matched ←
    if choices.isEmpty then do
      skip d p n count
      pure none
    else d.calculating.matchBytes p n offset count choices
  record (.bytesSkipped n.label count offset)
  return {
    element := n.id
    offset := offset
    len := count
    order := none
    payload := .binary matched
    children := [] }

/-! ## Containers and offsets -/

/-- How far a failed read inside a declared length would have reached, from the start of the
container that it overruns. -/
def measureOverrun (p : Place) (n : Node d.schema) (start stop : Nat) (declared : Option Nat)
    (e : DecodeError) : DecodeM (Calculating σ) Unit :=
  match declared, e.shortReadStop? with
  | some _, some reach =>
    if stop < p.limit ∧ start ≤ e.offset ∧ e.offset ≤ stop ∧ stop < reach then
      calculate n start (.difference reach start)
    else pure ()
  | _, _ => pure ()

variable (child : d.calculating.DecodeChild)

def decodeContainer (p : Place) (n : Node d.schema) (definition : Option ElementId)
    (children : List ElementId) (order : ChildOrder) (declared : Option Nat) :
    DecodeM (Calculating σ) Value := do
  align
  let start ← tell n
  let stop ← d.calculating.containerStop p n start declared
  record (.opened n.label start stop)
  let inside := p.enter (.container n.id definition start stop)
  let content ← outcome (d.calculating.decodeContent child n children order inside)
  align
  match content with
  | .error e =>
    measureOverrun d p n start stop declared e
    throw (d.contentFailure p n start stop declared e)
  | .ok inside =>
    let position ← tellAt n start
    let len ← d.calculating.containerLength n start (position - start) declared
    return { Value.empty n.id start len with children := inside.inner.children }

def decodeStructure (p : Place) (n definition : Node d.schema) :
    DecodeM (Calculating σ) Value := do
  align
  let offset ← tell n
  let order ← resolved n offset n.order
  let declared ← d.calculating.structureLength p n offset
  decodeContainer d child p n (if definition.id = n.id then none else some definition.id)
    definition.kind.children order declared

def decodeStructRef (p : Place) (n : Node d.schema) (offset : Nat) :
    DecodeM (Calculating σ) Value := do
  match ← resolved n offset (n.lookup .structure?) with
  | none => fail n offset (.unresolved .noStructure)
  | some target =>
    let definition ← d.calculating.node target offset
    match definition.kind with
    | .structure _ => decodeStructure d child p n definition
    | kind => fail n offset (.unresolved (.notAStructure target kind.name))

def decodeOffset (p : Place) (n : Node d.schema) : DecodeM (Calculating σ) Value := do
  let position ← tell n
  let order ← resolved n position n.byteOrder
  let r ← readRaw d p n order
  let target ← d.calculating.targetAddress p n r.offset r.raw
  let referenced ← d.calculating.followTarget child p n r.offset target
  return {
    element := n.id
    offset := r.offset
    len := r.len
    order := some order
    payload := .offset (UInt64.ofNat r.raw) target referenced
    children := [] }

/-! ## Elements -/

def decodeKind (p : Place) (n : Node d.schema) (offset : Nat) : DecodeM (Calculating σ) Value :=
  match n.kind with
  | .grammar body =>
    let children := match body.start with
      | some start => [start]
      | none => body.children
    decodeContainer d child p n none children .declared none
  | .grammarRef _ => d.calculating.decodeGrammarRef child p n offset
  | .structure _ => decodeStructure d child p n n
  | .structRef _ => decodeStructRef d child p n offset
  | .number _ => decodeNumber d p n
  | .string _ => decodeString d p n
  | .binary _ => decodeBinary d p n
  | .custom _ => do
    match ← resolved n offset (n.lookup .script) with
    | some script => d.calculating.decodeScripted p n script
    | none => fail n offset (.unresolved .noScript)
  | .offset _ => decodeOffset d child p n
  | .script _ => d.calculating.decodeScripted p n n.id

/-- Decodes one instance of an element at the cursor, with every calculation made explicit. -/
def decodeOne : (depth : Nat) → d.calculating.DecodeChild
  | 0, _, n => do
    record (.tried n.kind.name)
    let offset ← tell n
    fail n offset (.depthExceeded d.options.maxDepth)
  | depth + 1, p, n => do
    record (.tried n.kind.name)
    let offset ← tell n
    decodeKind d (decodeOne depth) p n offset

def decodeWhole (element : ElementId) : DecodeM (Calculating σ) Value := do
  let n ← d.calculating.node element 0
  let start ← tell n
  let dataStop ← onSource n start ByteSource.size
  let v ← decodeOne d d.options.maxDepth (Decoder.startPlace element start dataStop) n
  d.calculating.checkTree n v
  return v

/-- Decodes one instance of an element from the cursor of a source, with the calculations that left
their type noted. -/
def decodeElement (element : ElementId) (source : σ) : Report (Calculating σ) :=
  match (decodeWhole d element).run { source := { source := source } } with
  | (result, st) =>
    { result := result.map fun v => (v, st.warnings.reverse)
      source := st.source
      events := st.events.reverse }

end Calculating

end BinaryTemplate
