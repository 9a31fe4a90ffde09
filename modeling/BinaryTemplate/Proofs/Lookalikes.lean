import BinaryTemplate.Decode
import BinaryTemplate.Proofs.Simulation

/-!
# Fields that look alike

How a field is read depends on a few things only: what errors and events call it, where its frame
ends, what expressions come to at its place, and some of its attributes. Two fields that agree in
these, perhaps in different templates and at different places, are read by the very same steps. The
equations below go through the functions that read fields in the order in which they are built from
one another, up to the comparison with listed values.
-/

namespace BinaryTemplate

/-! ## Its names -/

namespace Node.Namesakes

open DecodeM

variable {σ α : Type} {s s' : Schema} {n : Node s} {n' : Node s'} (names : n.Namesakes n')
  {offset : Nat}

include names

theorem fail {failure : Failure} :
    (DecodeM.fail n' offset failure : DecodeM σ α) = DecodeM.fail n offset failure := by
  rw [DecodeM.fail, DecodeM.fail, names.id, names.label]

theorem resolved (r : Except CycleError α) :
    (DecodeM.resolved n' offset r : DecodeM σ α) = DecodeM.resolved n offset r := by
  cases r with
  | ok a => rfl
  | error cycle => exact names.fail

theorem onSource (operation : SourceM σ α) :
    DecodeM.onSource n' offset operation = DecodeM.onSource n offset operation := by
  unfold DecodeM.onSource
  simp only [names.fail]

variable [ByteSource σ]

theorem tellAt : (DecodeM.tellAt n' offset : DecodeM σ Nat) = DecodeM.tellAt n offset :=
  names.onSource _

theorem tell : (DecodeM.tell n' : DecodeM σ Nat) = DecodeM.tell n :=
  names.onSource _

theorem seek (position : Nat) :
    (DecodeM.seek n' offset position : DecodeM σ Unit) = DecodeM.seek n offset position := by
  rw [DecodeM.seek, DecodeM.seek, names.onSource]

end Node.Namesakes

/-! ## Its frame, its expressions and its attributes -/

namespace Decoder

open DecodeM

/-- Two fields that agree in everything that decides how they are read, and in the constraints on
their values but for the listed ones. -/
structure Lookalikes {σ : Type} {d d' : Decoder σ} (p p' : Place) (n : Node d.schema)
    (n' : Node d'.schema) : Prop where
  names : n.Namesakes n'
  limit : p'.limit = p.limit
  evaluates : ∀ text, d'.evaluator.evaluate (p'.context d'.schema) text =
    d.evaluator.evaluate (p.context d.schema) text
  encodings : d'.encodings = d.encodings
  strict : d'.options.strict = d.options.strict
  length : n'.lookup .length = n.lookup .length
  lengthUnit : n'.lengthUnit = n.lengthUnit
  byteOrder : n'.byteOrder = n.byteOrder
  numberKind : n'.numberKind = n.numberKind
  valueExpression : n'.lookup .valueExpression = n.lookup .valueExpression
  minVal : n'.lookup .minVal = n.lookup .minVal
  maxVal : n'.lookup .maxVal = n.lookup .maxVal
  masks : n'.masks = n.masks
  encoding : n'.encoding = n.encoding
  delimiter : n'.lookup .delimiter = n.lookup .delimiter
  stringKind : n'.lookup .stringKind = n.lookup .stringKind

namespace Lookalikes

variable {σ : Type} {d d' : Decoder σ} {p p' : Place} {n : Node d.schema} {n' : Node d'.schema}
  (alike : Lookalikes p p' n n') {offset : Nat}

include alike

theorem violation (e : DecodeError) : d'.violation e = d.violation e := by
  rw [Decoder.violation, alike.strict, Decoder.violation]

/-! ### References and lengths -/

theorem asCount (k : Int) : d'.asCount n' offset k = d.asCount n offset k := by
  rw [Decoder.asCount, Decoder.asCount, alike.names.fail]

theorem toBytes (units : Nat) (unit : LengthUnit) :
    d'.toBytes n' offset units unit = d.toBytes n offset units unit := by
  rw [Decoder.toBytes, Decoder.toBytes, alike.names.fail, alike.names.fail]

theorem evalInteger (r : Reference) :
    d'.evalInteger p' n' offset r = d.evalInteger p n offset r := by
  cases r with
  | literal k => rfl
  | expression text => simp only [Decoder.evalInteger, alike.evaluates, alike.names.fail]

theorem evalCount (r : Reference) : d'.evalCount p' n' offset r = d.evalCount p n offset r := by
  simp only [Decoder.evalCount, alike.evalInteger, alike.asCount]

theorem evalAttribute {a : Attribute Reference} (same : n'.lookup a = n.lookup a) :
    d'.evalAttribute p' n' offset a = d.evalAttribute p n offset a := by
  have optional (r : Option Reference) :
      d'.evalOptional p' n' offset r = d.evalOptional p n offset r := by
    cases r with
    | none => rfl
    | some r => rw [evalOptional, alike.evalInteger, evalOptional]
  simp only [Decoder.evalAttribute, same, alike.names.resolved, optional]

theorem lengthBytes (length : Reference) :
    d'.lengthBytes p' n' offset length = d.lengthBytes p n offset length := by
  simp only [Decoder.lengthBytes, alike.evalCount, alike.lengthUnit, alike.names.resolved,
    alike.toBytes]

theorem declaredBytes : d'.declaredBytes p' n' offset = d.declaredBytes p n offset := by
  simp only [Decoder.declaredBytes, alike.length, alike.names.resolved, alike.lengthBytes]

/-! ### Reads within the frame -/

section Reads

variable [ByteSource σ]

theorem checkBound (count : Nat) : d'.checkBound p' n' count = d.checkBound p n count := by
  simp only [Decoder.checkBound, alike.names.tell, alike.names.fail, alike.limit]

theorem read (count : Nat) : d'.read p' n' count = d.read p n count := by
  simp only [Decoder.read, alike.checkBound, alike.names.onSource]

theorem skip (count : Nat) : d'.skip p' n' count = d.skip p n count := by
  simp only [Decoder.skip, alike.checkBound, alike.names.seek]

theorem readUntil (terminator : List UInt8) (units : Nat) :
    d'.readUntil p' n' terminator units = d.readUntil p n terminator units := by
  induction units with
  | zero => rfl
  | succ units inductionHypothesis =>
    simp only [Decoder.readUntil, alike.read, inductionHypothesis]

theorem readFramed (encoding : Text.Encoding) (kind : StringKind) (delimiter : Option UInt8)
    (declared : Option Nat) :
    d'.readFramed p' n' offset encoding kind delimiter declared =
      d.readFramed p n offset encoding kind delimiter declared := by
  cases kind <;>
    simp only [Decoder.readFramed, Decoder.readFixed, Decoder.readPascal, Decoder.readTerminated,
      alike.read, alike.skip, alike.readUntil, alike.names.fail, alike.limit]

/-! ### Numbers -/

theorem pullBytes (more consumed : Nat) :
    d'.pullBytes p' n' offset more consumed = d.pullBytes p n offset more consumed := by
  induction more generalizing consumed with
  | zero => rfl
  | succ more inductionHypothesis =>
    simp only [Decoder.pullBytes, alike.limit, alike.names.fail, alike.names.onSource,
      inductionHypothesis]

theorem readBits (width : Nat) : d'.readBits p' n' width = d.readBits p n width := by
  simp only [Decoder.readBits, alike.names.tell, alike.names.fail, alike.pullBytes,
    alike.names.label]

theorem readBytes (order : ByteOrder) (width : Nat) :
    d'.readBytes p' n' offset order width = d.readBytes p n offset order width := by
  simp only [Decoder.readBytes, alike.names.tellAt, alike.read, alike.names.label]

theorem readRaw (order : ByteOrder) : d'.readRaw p' n' order = d.readRaw p n order := by
  simp only [Decoder.readRaw, alike.names.tell, alike.length, alike.names.resolved,
    alike.names.fail, alike.lengthUnit, alike.evalCount, alike.readBits, alike.readBytes]

theorem computedPlace : d'.computedPlace p' n' offset = d.computedPlace p n offset := by
  simp only [Decoder.computedPlace, alike.length, alike.names.resolved, alike.names.tellAt,
    alike.lengthBytes, alike.skip]

end Reads

theorem interpret (kind : NumberKind) (r : RawNumber) :
    d'.interpret n' kind r = d.interpret n kind r := by
  cases kind <;> simp only [Decoder.interpret, alike.names.fail]

theorem checkRange (value : NumberValue) :
    d'.checkRange p' n' offset value = d.checkRange p n offset value := by
  simp only [Decoder.checkRange, alike.evalAttribute alike.minVal,
    alike.evalAttribute alike.maxVal, alike.names.id, alike.names.label, alike.violation]

end Lookalikes

end Decoder

end BinaryTemplate
