import BinaryTemplate.Decode
import BinaryTemplate.Proofs.Congruence

/-!
# Congruence of fields

A congruence holds between the fields of a decoder and those of the decoder with other options. The
options only matter where a constraint is violated; everything else is put together from steps that
do not depend on them.
-/

namespace BinaryTemplate.Congruence

open DecodeM

variable {σ : Type} [ByteSource σ] {d : Decoder σ} {o : DecodeOptions} (C : Congruence d o)
  {p : Place} {n : Node d.schema} {offset : Nat}

/-! ## References and lengths -/

theorem node (id : ElementId) :
    C.rel (d.node id offset) ((d.withOptions o).node id offset) := by
  unfold Decoder.node
  cases d.schema.node? id with
  | some m => exact C.pure m
  | none => exact C.plain (.throw (by rintro ⟨_, ⟨⟩⟩))

theorem evalInteger (r : Reference) :
    C.rel (d.evalInteger p n offset r) ((d.withOptions o).evalInteger p n offset r) := by
  cases r with
  | literal k => exact C.pure k
  | expression text =>
    simp only [Decoder.evalInteger]
    rcases d.evaluator.evaluate (p.context d.schema) text with e | ⟨k | id⟩
    · exact C.fail rfl
    · exact C.pure k
    · exact C.fail rfl

theorem asCount (k : Int) :
    C.rel (d.asCount n offset k) ((d.withOptions o).asCount n offset k) :=
  C.ite (fun _ => C.pure _) fun _ => C.fail rfl

theorem evalCount (r : Reference) :
    C.rel (d.evalCount p n offset r) ((d.withOptions o).evalCount p n offset r) :=
  C.bind (C.evalInteger r) fun _ => C.asCount _

theorem evalAttribute (a : Attribute Reference) :
    C.rel (d.evalAttribute p n offset a) ((d.withOptions o).evalAttribute p n offset a) := by
  refine C.bind (C.lookup n offset a) fun r => ?_
  cases r with
  | none => exact C.pure none
  | some r => exact C.bind (C.evalInteger r) fun _ => C.pure _

theorem toBytes (units : Nat) (unit : LengthUnit) :
    C.rel (d.toBytes n offset units unit) ((d.withOptions o).toBytes n offset units unit) :=
  C.ite (fun _ => C.fail rfl) fun _ => C.ite (fun _ => C.fail rfl) fun _ => C.pure _

theorem lengthBytes (length : Reference) :
    C.rel (d.lengthBytes p n offset length) ((d.withOptions o).lengthBytes p n offset length) :=
  C.bind (C.evalCount length) fun units => C.bind (C.lookupD _ _) fun unit => C.toBytes units unit

theorem declaredBytes :
    C.rel (d.declaredBytes p n offset) ((d.withOptions o).declaredBytes p n offset) := by
  refine C.bind (C.lookup n offset _) fun length => ?_
  cases length with
  | none => exact C.pure none
  | some length => exact C.bind (C.lengthBytes length) fun _ => C.pure _

/-! ## Reads within the frame -/

theorem checkBound (count : Nat) :
    C.rel (d.checkBound p n count) ((d.withOptions o).checkBound p n count) :=
  C.bind C.tell fun _ => C.guard rfl fun _ => C.pure _

theorem read (count : Nat) : C.rel (d.read p n count) ((d.withOptions o).read p n count) :=
  C.bind (C.checkBound count) fun _ => C.onSource _

theorem skip (count : Nat) : C.rel (d.skip p n count) ((d.withOptions o).skip p n count) :=
  C.bind (C.checkBound count) fun _ => C.seek _

/-! ## Numbers -/

theorem pullBytes (more consumed : Nat) :
    C.rel (d.pullBytes p n offset more consumed)
      ((d.withOptions o).pullBytes p n offset more consumed) := by
  induction more generalizing consumed with
  | zero => exact C.pure []
  | succ more inductionHypothesis =>
    simp only [Decoder.pullBytes]
    exact C.guard rfl fun _ => C.bind (C.onSource _) fun _ =>
      C.bind (inductionHypothesis _) fun _ => C.pure _

theorem readBits (width : Nat) :
    C.rel (d.readBits p n width) ((d.withOptions o).readBits p n width) :=
  C.bind C.tell fun _ => C.get_bind fun _ => C.guard rfl fun _ => C.bind (C.pullBytes _ _)
    fun _ => C.bind (C.setPending _) fun _ => C.bind (C.record _) fun _ => C.pure _

theorem readBytes (order : ByteOrder) (width : Nat) :
    C.rel (d.readBytes p n offset order width)
      ((d.withOptions o).readBytes p n offset order width) :=
  C.bind C.align fun _ => C.bind C.tellAt fun _ => C.bind (C.read _) fun _ =>
    C.bind (C.record _) fun _ => C.pure _

theorem readRaw (order : ByteOrder) :
    C.rel (d.readRaw p n order) ((d.withOptions o).readRaw p n order) := by
  refine C.bind C.tell fun start => C.bind (C.lookup n start _) fun length => ?_
  cases length with
  | none => exact C.fail rfl
  | some length =>
    refine C.bind (C.lookupD _ _) fun unit => C.bind (C.evalCount length) fun units =>
      C.guard rfl fun _ => ?_
    cases unit with
    | bit => exact C.readBits _
    | byte => exact C.readBytes order _

theorem interpret (kind : NumberKind) (r : Decoder.RawNumber) :
    C.rel (d.interpret n kind r) ((d.withOptions o).interpret n kind r) := by
  cases kind with
  | unsigned => exact C.pure _
  | signed => exact C.pure _
  | float =>
    exact C.ite (fun _ => C.pure _) fun _ => C.ite (fun _ => C.pure _) fun _ => C.fail rfl

theorem matchNumber (value : NumberValue) :
    C.rel (d.matchNumber n offset value) ((d.withOptions o).matchNumber n offset value) :=
  C.bind (C.lookupD _ _) fun _ => C.ite
    (fun _ => C.bind (C.lookupD _ _) fun _ => C.ite
      (fun _ => C.bind (C.violation .mustMatch) fun _ => C.pure _) fun _ => C.pure _)
    fun _ => C.pure _

theorem checkRange (value : NumberValue) :
    C.rel (d.checkRange p n offset value) ((d.withOptions o).checkRange p n offset value) :=
  C.bind (C.evalAttribute _) fun _ => C.bind (C.evalAttribute _) fun _ =>
    C.ite (fun _ => C.violation .range) fun _ => C.pure ()

theorem finishNumber (len : Nat) (value : NumberValue) (bits : Option BitSpan) (order : ByteOrder) :
    C.rel (d.finishNumber p n offset len value bits order)
      ((d.withOptions o).finishNumber p n offset len value bits order) :=
  C.bind (C.matchNumber value) fun _ => C.bind (C.checkRange value) fun _ =>
    C.bind (C.lookupD _ _) fun _ => C.bind (C.record _) fun _ => C.pure _

theorem computedPlace :
    C.rel (d.computedPlace p n offset) ((d.withOptions o).computedPlace p n offset) := by
  refine C.bind (C.lookup n offset _) fun length => ?_
  cases length with
  | none => exact C.pure _
  | some length =>
    exact C.bind C.align fun _ => C.bind C.tellAt fun _ => C.bind (C.lengthBytes length) fun len =>
      C.bind (C.skip len) fun _ => C.pure _

theorem decodeNumber : C.rel (d.decodeNumber p n) ((d.withOptions o).decodeNumber p n) := by
  refine C.bind C.tell fun start => C.bind (C.lookupD _ _) fun kind => C.bind (C.lookupD _ _)
    fun order => C.bind (C.lookup n start _) fun expression => ?_
  cases expression with
  | none =>
    exact C.bind (C.readRaw order) fun r => C.bind (C.interpret kind r) fun _ =>
      C.finishNumber _ _ _ _
  | some expression =>
    exact C.bind (C.evalInteger expression) fun k => C.bind C.computedPlace fun place =>
      C.finishNumber _ _ _ _

/-! ## Fields of whole bytes -/

theorem readUntil (terminator : List UInt8) (units : Nat) :
    C.rel (d.readUntil p n terminator units)
      ((d.withOptions o).readUntil p n terminator units) := by
  induction units with
  | zero => exact C.pure _
  | succ units inductionHypothesis =>
    simp only [Decoder.readUntil]
    exact C.bind (C.read _) fun _ => C.ite (fun _ => C.pure _) fun _ =>
      C.bind inductionHypothesis fun _ => C.pure _

theorem readTerminated (terminator : List UInt8) (declared : Option Nat) :
    C.rel (d.readTerminated p n offset terminator declared)
      ((d.withOptions o).readTerminated p n offset terminator declared) := by
  refine C.bind (C.readUntil terminator _) fun found => ?_
  cases declared with
  | none => exact C.guard rfl fun _ => C.pure _
  | some slot => exact C.bind (C.skip _) fun _ => C.pure _

theorem readPascal (declared : Option Nat) :
    C.rel (d.readPascal p n offset declared)
      ((d.withOptions o).readPascal p n offset declared) := by
  refine C.bind (C.read 1) fun first => ?_
  cases declared with
  | none => exact C.read _
  | some slot =>
    exact C.guard rfl fun _ => C.bind (C.read _) fun _ => C.bind (C.skip _) fun _ => C.pure _

theorem readFramed (encoding : Text.Encoding) (kind : StringKind) (delimiter : Option UInt8)
    (declared : Option Nat) :
    C.rel (d.readFramed p n offset encoding kind delimiter declared)
      ((d.withOptions o).readFramed p n offset encoding kind delimiter declared) := by
  cases kind with
  | fixedLength => exact C.bind (C.read _) fun _ => C.pure _
  | pascal => exact C.readPascal declared
  | zeroTerminated => exact C.readTerminated _ declared
  | delimited => exact C.readTerminated _ declared

theorem matchString (text : String) :
    C.rel (d.matchString n offset text) ((d.withOptions o).matchString n offset text) :=
  C.bind (C.lookupD _ _) fun _ => C.ite
    (fun _ => C.bind (C.lookupD _ _) fun _ => C.ite
      (fun _ => C.bind (C.violation .mustMatch) fun _ => C.pure _) fun _ => C.pure _)
    fun _ => C.pure _

theorem decodeString : C.rel (d.decodeString p n) ((d.withOptions o).decodeString p n) := by
  refine C.bind C.align fun _ => C.bind C.tell fun start => C.bind (C.lookupD _ _) fun label => ?_
  cases d.encodings.ofLabel? label with
  | none => exact C.fail rfl
  | some encoding =>
    refine C.bind (C.lookup n start _) fun delimiter => C.bind (C.lookup n start _) fun kind =>
      C.bind C.declaredBytes fun declared => C.bind (C.readFramed _ _ _ declared) fun bytes =>
      C.bind C.tellAt fun stop => ?_
    cases d.encodings.decode? encoding bytes with
    | none => exact C.fail rfl
    | some chars =>
      exact C.bind (C.matchString _) fun _ => C.bind (C.record _) fun _ => C.pure _

theorem matchBytes (count : Nat) (choices : List (NamedValue (List UInt8))) :
    C.rel (d.matchBytes p n offset count choices)
      ((d.withOptions o).matchBytes p n offset count choices) :=
  C.bind (C.read count) fun _ => C.ite
    (fun _ => C.bind (C.lookupD _ _) fun _ => C.ite
      (fun _ => C.bind (C.violation .mustMatch) fun _ => C.pure _) fun _ => C.pure _)
    fun _ => C.pure _

theorem decodeBinary : C.rel (d.decodeBinary p n) ((d.withOptions o).decodeBinary p n) := by
  refine C.bind C.align fun _ => C.bind C.tell fun start => C.bind C.declaredBytes fun declared =>
    C.bind (C.lookupD _ _) fun choices => C.ite (fun _ => ?_) fun _ => ?_
  · exact C.bind (C.skip _) fun _ => C.bind (C.pure none) fun _ => C.bind (C.record _) fun _ =>
      C.pure _
  · exact C.bind (C.matchBytes _ _) fun _ => C.bind (C.record _) fun _ => C.pure _

/-! ## Scripted elements -/

theorem runScript (host : ScriptHost σ) (script : ScriptBody) (call : ScriptCall) :
    C.rel (d.runScript n host script call) ((d.withOptions o).runScript n host script call) := by
  refine C.plain ⟨fun st => ?_, ?_⟩
  · unfold ending Decoder.runScript
    rcases host.run script call st.source with ⟨_ | _, _⟩ <;> rfl
  · rintro st e after thrown ⟨cause, cycle⟩
    unfold Throws ending Decoder.runScript at thrown
    split at thrown
    · cases thrown
    · cases thrown
      cases cycle

theorem decodeByScript (script : ScriptBody) :
    C.rel (d.decodeByScript p n offset script)
      ((d.withOptions o).decodeByScript p n offset script) := by
  unfold Decoder.decodeByScript
  cases d.scripts with
  | none => exact C.fail rfl
  | some host =>
    exact C.bind C.declaredBytes fun _ => C.bind (C.runScript host script _) fun _ =>
      C.guard rfl fun _ => C.bind (C.seek _) fun _ => C.pure _

theorem decodeScripted (scriptId : ElementId) :
    C.rel (d.decodeScripted p n scriptId) ((d.withOptions o).decodeScripted p n scriptId) := by
  refine C.bind C.align fun _ => C.bind C.tell fun start =>
    C.bind (C.node scriptId) fun script => ?_
  cases kind : script.kind <;> first | exact C.decodeByScript _ | exact C.fail rfl

end BinaryTemplate.Congruence
