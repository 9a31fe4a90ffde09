import BinaryTemplate.Decode.Container
import BinaryTemplate.Proofs.Detached
import BinaryTemplate.Proofs.Lookalikes

/-!
# Fields without side trees

A field of the detached template looks like that of the template: it has the same names, frame and
attributes, and expressions come to the same. So what decodes a field in the detached template is
the very step that decodes it in the template.
-/

namespace BinaryTemplate

/-- The decoder of the detached template. -/
@[reducible] def Decoder.detached {σ : Type} (d : Decoder σ) : Decoder σ :=
  { d with schema := d.schema.detached }

theorem Node.namesakes_detached {s : Schema} (n : Node s) : n.Namesakes n.detached :=
  ⟨rfl, n.label_detached.symm⟩

namespace DecodeM

variable {σ α : Type} {s : Schema} (n : Node s) (offset : Nat)

@[simp] theorem fail_detached (failure : Failure) :
    (fail n.detached offset failure : DecodeM σ α) = fail n offset failure :=
  n.namesakes_detached.fail

@[simp] theorem resolved_detached (r : Except CycleError α) :
    (resolved n.detached offset r : DecodeM σ α) = resolved n offset r :=
  n.namesakes_detached.resolved r

@[simp] theorem onSource_detached (operation : SourceM σ α) :
    onSource n.detached offset operation = onSource n offset operation :=
  n.namesakes_detached.onSource operation

variable [ByteSource σ]

@[simp] theorem tellAt_detached : (tellAt n.detached offset : DecodeM σ Nat) = tellAt n offset :=
  onSource_detached n offset _

@[simp] theorem tell_detached : (tell n.detached : DecodeM σ Nat) = tell n :=
  onSource_detached n 0 _

end DecodeM

namespace Decoder

open DecodeM

variable {σ : Type} {d : Decoder σ} {p : Place} {n : Node d.schema} {offset : Nat}

theorem lookalikes_detached (standard : d.evaluator = .standard) :
    @Lookalikes σ d d.detached p p.detached n n.detached where
  names := n.namesakes_detached
  limit := p.limit_detached
  evaluates text := by
    rw [standard, Place.context_detached]
    exact Evaluator.evaluateStandard_detached (p.context d.schema) text
  encodings := rfl
  strict := rfl
  length := n.lookup_detached rfl
  lengthUnit := n.lookupD_detached (a := .lengthUnit) rfl _
  byteOrder := n.lookupD_detached (a := .byteOrder) rfl _
  numberKind := n.lookupD_detached (a := .numberKind) rfl _
  valueExpression := n.lookup_detached rfl
  minVal := n.lookup_detached rfl
  maxVal := n.lookup_detached rfl
  masks := n.lookupD_detached (a := .masks) rfl _
  encoding := n.lookupD_detached (a := .encoding) rfl _
  delimiter := n.lookup_detached rfl
  stringKind := n.lookup_detached rfl

@[simp] theorem violation_detached (e : DecodeError) :
    d.detached.violation e = d.violation e := rfl

theorem evalAttribute_detached (standard : d.evaluator = .standard) {a : Attribute Reference}
    (kept : a.Kept) :
    d.detached.evalAttribute p.detached n.detached offset a = d.evalAttribute p n offset a :=
  (lookalikes_detached standard).evalAttribute (n.lookup_detached kept)

/-! ## Comparisons -/

theorem matchNumber_detached (value : NumberValue) :
    d.detached.matchNumber n.detached offset value = d.matchNumber n offset value := by
  simp only [matchNumber, Node.numberValues, Node.mustMatch, resolved_detached,
    n.lookupD_detached (a := .numberValues) rfl, n.lookupD_detached (a := .mustMatch) rfl,
    Node.id_detached, Node.label_detached, violation_detached]

theorem matchString_detached (text : String) :
    d.detached.matchString n.detached offset text = d.matchString n offset text := by
  simp only [matchString, Node.stringValues, Node.mustMatch, resolved_detached,
    n.lookupD_detached (a := .stringValues) rfl, n.lookupD_detached (a := .mustMatch) rfl,
    Node.id_detached, Node.label_detached, violation_detached]

/-! ## Fields -/

section Fields

variable [ByteSource σ]

variable (standard : d.evaluator = .standard)

include standard

theorem readRaw_detached (order : ByteOrder) :
    d.detached.readRaw p.detached n.detached order = d.readRaw p n order :=
  (lookalikes_detached standard).readRaw order

omit [ByteSource σ] in
theorem finishNumber_detached (len : Nat) (value : NumberValue) (bits : Option BitSpan)
    (order : ByteOrder) :
    d.detached.finishNumber p.detached n.detached offset len value bits order =
      d.finishNumber p n offset len value bits order := by
  have alike := lookalikes_detached (p := p) (n := n) standard
  simp only [finishNumber, matchNumber_detached, alike.checkRange, alike.masks, resolved_detached,
    Node.label_detached, Node.id_detached]

theorem decodeNumber_detached :
    d.detached.decodeNumber p.detached n.detached = d.decodeNumber p n := by
  have alike := lookalikes_detached (p := p) (n := n) standard
  simp only [decodeNumber, tell_detached, alike.numberKind, alike.byteOrder,
    alike.valueExpression, resolved_detached, alike.evalInteger, alike.computedPlace,
    alike.readRaw, alike.interpret, finishNumber_detached standard]

theorem decodeString_detached :
    d.detached.decodeString p.detached n.detached = d.decodeString p n := by
  have alike := lookalikes_detached (p := p) (n := n) standard
  simp only [decodeString, tell_detached, alike.encoding, alike.delimiter, alike.stringKind,
    resolved_detached, alike.declaredBytes, alike.readFramed, tellAt_detached,
    fail_detached, matchString_detached, Node.label_detached, Node.id_detached]

theorem matchBytes_detached (count : Nat) (choices : List (NamedValue (List UInt8))) :
    d.detached.matchBytes p.detached n.detached offset count choices =
      d.matchBytes p n offset count choices := by
  simp only [matchBytes, (lookalikes_detached standard).read, Node.mustMatch, resolved_detached,
    n.lookupD_detached (a := .mustMatch) rfl, Node.id_detached, Node.label_detached,
    violation_detached]

theorem decodeBinary_detached :
    d.detached.decodeBinary p.detached n.detached = d.decodeBinary p n := by
  have alike := lookalikes_detached (p := p) (n := n) standard
  simp only [decodeBinary, tell_detached, alike.declaredBytes, Node.binaryValues,
    n.lookupD_detached (a := .binaryValues) rfl, resolved_detached, alike.limit,
    alike.skip, matchBytes_detached standard, Node.label_detached, Node.id_detached]

end Fields

/-! ## Pointers -/

section Pointers

theorem baseAddress_detached (base : ElementId) :
    d.detached.baseAddress p.detached n.detached offset base =
      d.baseAddress p n offset base := by
  have found : ((p.context d.schema).detached.find? base).map (·.offset) =
      ((p.context d.schema).find? base).map (·.offset) := by
    rw [Context.find?_detached, Option.map_map]
    congr 1
    funext v
    exact v.offset_detached
  simp only [baseAddress, Node.id_detached, Place.context_detached,
    Context.containerStart?_detached, found, fail_detached]

theorem targetAddress_detached (standard : d.evaluator = .standard) (pointer : Nat) :
    d.detached.targetAddress p.detached n.detached offset pointer =
      d.targetAddress p n offset pointer := by
  simp only [targetAddress, Node.followNull, n.lookupD_detached (a := .followNull) rfl,
    n.lookup_detached (a := .relativeTo) rfl, resolved_detached, baseAddress_detached,
    evalAttribute_detached standard (a := .additional) rfl, fail_detached]

end Pointers

/-! ## Containers -/

section Containers

theorem isDisabled_detached : d.detached.isDisabled n.detached = d.isDisabled n := by
  unfold isDisabled
  rw [n.kind_detached]
  cases n.kind <;>
    first
      | rfl
      | simp only [Kind.detached, Node.disabled, n.lookupD_detached (a := .disabled) rfl,
          resolved_detached]

theorem containerStop_detached (start : Nat) (declared : Option Nat) :
    d.detached.containerStop p.detached n.detached start declared =
      d.containerStop p n start declared := by
  cases declared <;> simp only [containerStop, Place.limit_detached, fail_detached]

theorem containerLength_detached (start consumed : Nat) (declared : Option Nat) :
    d.detached.containerLength n.detached start consumed declared =
      d.containerLength n start consumed declared := by
  cases declared <;> simp only [containerLength, fail_detached]

variable (standard : d.evaluator = .standard)

include standard

theorem repeatBounds_detached :
    d.detached.repeatBounds p.detached n.detached offset = d.repeatBounds p n offset := by
  simp only [repeatBounds, Node.repeatMin, Node.repeatMax,
    n.lookupD_detached (a := .repeatMin) rfl, n.lookupD_detached (a := .repeatMax) rfl,
    resolved_detached, (lookalikes_detached standard).evalInteger, fail_detached]

theorem structureLength_detached :
    d.detached.structureLength p.detached n.detached offset = d.structureLength p n offset := by
  have alike := lookalikes_detached (p := p) (n := n) standard
  simp only [structureLength, alike.length, resolved_detached, alike.evalCount,
    evalAttribute_detached standard (a := .lengthOffset) rfl, alike.asCount, alike.lengthUnit,
    alike.toBytes]

end Containers

end Decoder

end BinaryTemplate
