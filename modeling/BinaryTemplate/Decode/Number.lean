import BinaryTemplate.Bits
import BinaryTemplate.Decode.Field

/-!
# Numbers

A number is read from whole bytes in its byte order, or from bits, or computed by an expression.
Bits are taken from the least significant end of each byte; those of the last byte that are left
over are kept for the next bit field. The value is then matched with the listed values, checked
against its bounds and taken apart by its masks.
-/

namespace BinaryTemplate.Decoder

open DecodeM (fail record resolved onSource align setPending tell tellAt)

variable {σ : Type} [ByteSource σ] (d : Decoder σ)

structure RawNumber where
  raw : Nat
  offset : Nat
  /-- The number of bytes that were newly read. -/
  len : Nat
  bits : Option BitSpan
  width : Nat

/-! ## Reading -/

/-- Reads so many further bytes for a bit field; `consumed` are read already. -/
def pullBytes (p : Place) (n : Node d.schema) (offset : Nat) :
    Nat → (consumed : Nat) → DecodeM σ (List UInt8)
  | 0, _ => pure []
  | more + 1, consumed => do
    -- Each byte is checked against the frame on its own, and the bytes before it stay read.
    if p.limit ≤ offset + consumed then fail n offset (.shortRead (more + 1) 0)
    let b ← onSource n offset ByteSource.readByte
    let rest ← pullBytes p n offset more (consumed + 1)
    return b :: rest

/-- The index of the next bit of the file, given the cursor and the number of bits of the byte
before it that are still unread. -/
def nextBit (position pending : Nat) : Nat :=
  if pending = 0 then position * 8 else (position - 1) * 8 + (8 - pending)

def readBits (p : Place) (n : Node d.schema) (width : Nat) : DecodeM σ RawNumber := do
  let offset ← tell n
  let pending := (← get).pending
  let firstBit := nextBit offset pending.length
  -- Close to the last position a byte has an index and its bits have none.
  if positionLimit ≤ firstBit then fail n offset (.bitIndexOverflow offset)
  -- The subtraction stops at zero: bits that are left over may be enough.
  let bytes ← d.pullBytes p n offset ((width - pending.length + 7) / 8) 0
  let bits := pending ++ bytes.flatMap Bits.ofByte
  setPending (bits.drop width)
  let raw := Bits.toNat (bits.take width)
  record (.bitsRead n.label width raw firstBit)
  return ⟨raw, offset, bytes.length, some ⟨firstBit, width⟩, width⟩

def readBytes (p : Place) (n : Node d.schema) (offset : Nat) (order : ByteOrder) (width : Nat) :
    DecodeM σ RawNumber := do
  align
  let start ← tellAt n offset
  let bytes ← d.read p n (width / 8)
  let raw := match order with
    | .little => Bytes.toNatLittle bytes
    | .big => Bytes.toNatBig bytes
  record (.bytesRead n.label raw start)
  return ⟨raw, start, width / 8, none, width⟩

/-- Reads the pattern of a number or a pointer, of 1 to 64 bits. -/
def readRaw (p : Place) (n : Node d.schema) (order : ByteOrder) : DecodeM σ RawNumber := do
  let offset ← tell n
  match ← resolved n offset (n.lookup .length) with
  | none => fail n offset (.unsupported .noNumberLength)
  | some length =>
    let unit ← resolved n offset n.lengthUnit
    let units ← d.evalCount p n offset length
    let width := units * unit.bits
    if width = 0 ∨ 64 < width then fail n offset (.unsupported (.numberWidth units unit))
    match unit with
    | .bit => d.readBits p n width
    | .byte => d.readBytes p n offset order width

/-- The value that a pattern stands for. -/
def interpret (n : Node d.schema) (kind : NumberKind) (r : RawNumber) : DecodeM σ NumberValue :=
  match kind with
  | .unsigned => pure (.unsigned (UInt64.ofNat r.raw))
  | .signed => pure (.signed (Int64.ofInt (Bits.signed r.raw r.width)))
  | .float =>
    if r.width = 32 then pure (.float (Binary64.ofBinary32 r.raw))
    else if r.width = 64 then pure (.float ⟨UInt64.ofNat r.raw⟩)
    else fail n r.offset (.unsupported (.floatWidth r.width))

/-- The value of a computed number. A negative result of an unsigned number keeps its sign. -/
def computedValue (kind : NumberKind) (k : Int64) : NumberValue :=
  match kind with
  | .float => .float (Binary64.ofInt k.toInt)
  | .unsigned => if 0 ≤ k.toInt then .unsigned k.toUInt64 else .signed k
  | .signed => .signed k

/-! ## Constraints -/

def choiceText (v : NamedValue Int64) : String := v.name ++ "=" ++ toString v.value.toInt

/-- The name of the listed value that a number equals. Violates the constraint if there are
listed values, one has to match, and none does. -/
def matchNumber (n : Node d.schema) (offset : Nat) (value : NumberValue) :
    DecodeM σ (Option String) := do
  let choices ← resolved n offset n.numberValues
  -- What is no integer of 64 bits with a sign matches nothing.
  let matched := value.toInt?.bind fun k => choices.find? (·.value == k)
  if !choices.isEmpty && matched.isNone then
    if ← resolved n offset n.mustMatch then
      d.violation ⟨n.id, n.label, offset, .mustMatch value.text (choices.map choiceText)⟩
  return matched.map (·.name)

def checkRange (p : Place) (n : Node d.schema) (offset : Nat) (value : NumberValue) :
    DecodeM σ Unit := do
  let min ← d.evalAttribute p n offset .minVal
  let max ← d.evalAttribute p n offset .maxVal
  if min.any (value.isBelow ·) || max.any (value.isAbove ·) then
    d.violation ⟨n.id, n.label, offset, .range value.text min max⟩

/-- The number of zero bits below the lowest set bit. -/
def lowestSetBit (mask : UInt64) : Nat :=
  ((List.range 64).find? mask.toNat.testBit).getD 0

/-- The bit field that a mask extracts from a pattern. -/
def extract (raw : UInt64) (mask : Mask) : MaskValue :=
  let value := (raw.toNat &&& mask.mask.toNat) >>> lowestSetBit mask.mask
  { name := mask.name
    value := UInt64.ofNat value
    matched := (mask.values.find? fun v => v.value.toInt == (value : Int)).map (·.name) }

/-- The finished number with all its constraints checked. -/
def finishNumber (p : Place) (n : Node d.schema) (offset len : Nat) (value : NumberValue)
    (bits : Option BitSpan) (order : ByteOrder) : DecodeM σ Value := do
  -- The order of the checks decides which violation is reported first.
  let matched ← d.matchNumber n offset value
  d.checkRange p n offset value
  let masks ← resolved n offset n.masks
  record (.numberDecoded n.label value)
  return {
    element := n.id
    offset := offset
    len := len
    order := some order
    payload := .number value matched (masks.map (extract value.rawBits)) bits
    children := [] }

/-- The place of a computed number: the declared length, which is skipped, or no bytes at all. -/
def computedPlace (p : Place) (n : Node d.schema) (offset : Nat) : DecodeM σ (Nat × Nat) := do
  match ← resolved n offset (n.lookup .length) with
  | none => return (offset, 0)
  | some length =>
    align
    let start ← tellAt n offset
    let len ← d.lengthBytes p n start length
    d.skip p n len
    return (start, len)

def decodeNumber (p : Place) (n : Node d.schema) : DecodeM σ Value := do
  let offset ← tell n
  let kind ← resolved n offset n.numberKind
  let order ← resolved n offset n.byteOrder
  match ← resolved n offset (n.lookup .valueExpression) with
  | some expression =>
    let k ← d.evalInteger p n offset expression
    let (start, len) ← d.computedPlace p n offset
    d.finishNumber p n start len (computedValue kind k) none order
  | none =>
    let r ← d.readRaw p n order
    let value ← d.interpret n kind r
    d.finishNumber p n r.offset r.len value r.bits order

end BinaryTemplate.Decoder
