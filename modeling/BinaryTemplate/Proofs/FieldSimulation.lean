import BinaryTemplate.Proofs.Counterpart
import BinaryTemplate.Proofs.Number

/-!
# Two runs through fields

Counterparts decode fields alike. The lemmas go through the functions of the decoder in the order in
which they are built from one another, up to numbers, strings and runs of bytes; each follows the
steps of its function. Wherever bytes are read, the check against the frame shows that they lie
before its end, so the runs keep to their bytes if the frame does.
-/

namespace BinaryTemplate.Decoder

open DecodeM Simulation

variable {σ τ : Type} {d : Decoder σ} {d' : Decoder τ} {R : Simulation σ τ} {p : Place}
  {n : Node d.schema} {n' : Node d'.schema} {offset : Nat} (kin : d.Counterpart d')
  (twins : n.Twins n')

/-! ## References and lengths -/

section References

include kin twins

theorem evalInteger_sims (r : Reference) :
    R.Simulates Eq (d.evalInteger p n offset r) (d'.evalInteger p n' offset r) := by
  cases r with
  | literal k => exact .pure rfl
  | expression text =>
    simp only [evalInteger, Place.context]
    rw [kin.evaluates]
    rcases d'.evaluator.evaluate ⟨d'.schema, p.inner :: p.outer⟩ text with e | ⟨k | id⟩
    · exact .fail twins.toNamesakes rfl
    · exact .pure rfl
    · exact .fail twins.toNamesakes rfl

omit kin in
theorem asCount_sims (k : Int) :
    R.Simulates Eq (d.asCount n offset k) (d'.asCount n' offset k) :=
  .ite (fun _ => .pure rfl) fun _ => .fail twins.toNamesakes rfl

theorem evalCount_sims (r : Reference) :
    R.Simulates Eq (d.evalCount p n offset r) (d'.evalCount p n' offset r) :=
  .bind (evalInteger_sims kin twins r) fun _ => asCount_sims twins _

theorem evalAttribute_sims {a : Attribute Reference} (same : n.lookup a = n'.lookup a) :
    R.Simulates Eq (d.evalAttribute p n offset a) (d'.evalAttribute p n' offset a) := by
  refine .bind (.resolved twins.toNamesakes same) fun r => ?_
  cases r with
  | none => exact .pure rfl
  | some r => exact .bind (evalInteger_sims kin twins r) fun k => .pure rfl

omit kin in
theorem toBytes_sims (units : Nat) (unit : LengthUnit) :
    R.Simulates Eq (d.toBytes n offset units unit) (d'.toBytes n' offset units unit) :=
  .ite (fun _ => .fail twins.toNamesakes rfl) fun _ =>
    .ite (fun _ => .fail twins.toNamesakes rfl) fun _ => .pure rfl

theorem lengthBytes_sims (length : Reference) :
    R.Simulates Eq (d.lengthBytes p n offset length) (d'.lengthBytes p n' offset length) :=
  .bind (evalCount_sims kin twins length) fun units =>
    .bind (.resolved twins.toNamesakes (twins.lookupD rfl)) fun unit =>
    toBytes_sims twins units unit

theorem declaredBytes_sims :
    R.Simulates Eq (d.declaredBytes p n offset) (d'.declaredBytes p n' offset) := by
  refine .bind (.resolved twins.toNamesakes (twins.lookup rfl)) fun length => ?_
  cases length with
  | none => exact .pure rfl
  | some length => exact .bind (lengthBytes_sims kin twins length) fun bytes => .pure rfl

end References

include kin

/-- Both schemas have the element or neither has it. -/
theorem node_sims (id : ElementId) :
    R.Simulates Node.Twins (d.node id offset) (d'.node id offset) := by
  unfold node
  cases found : d.schema.node? id with
  | none =>
    rw [kin.schema.node?_none found]
    exact .throw (R.usual _ rfl)
  | some m =>
    obtain ⟨m', found', twins⟩ := kin.schema.node? found
    rw [found']
    exact .pure twins

theorem violation_sims {e : DecodeError} (usual : e.failure.isSpecial = false) :
    R.Simulates Eq (d.violation e) (d'.violation e) := by
  unfold violation
  rw [kin.strict]
  exact .ite (fun _ => .throw (R.usual _ usual)) fun _ =>
    .bind (.record _) fun _ => .modify fun _ _ related =>
      { related with warnings := R.tolerated e _ _ related.warnings }

/-! ## Reads within the frame -/

section Reads

variable [ByteSource σ] [SliceLike σ] [ByteSource τ] (keeps : R.Respects)

include twins keeps

omit kin in
theorem checkBound_sims (count : Nat) :
    R.Simulates Eq (d.checkBound p n count) (d'.checkBound p n' count) :=
  .bind (tell_sims twins.toNamesakes keeps) fun _ => .guard twins.toNamesakes rfl fun _ =>
    .pure rfl

omit kin in
/-- A read that passes the check lies within the frame, and so within the bytes that may be read. -/
theorem read_sims (covers : R.Covers p.limit) (count : Nat) :
    R.Simulates Eq (d.read p n count) (d'.read p n' count) := by
  intro st st' related
  refine (checkBound_sims twins keeps count st st' related).bind ?_
  rintro position _ mid mid' bounded rfl related
  obtain ⟨-, within, same⟩ := checkBound_returns bounded
  refine readExact_ends twins.toNamesakes keeps related (covers.mono ?_)
  rw [same]
  exact within

omit kin in
theorem skip_sims (covers : R.Covers p.limit) (count : Nat) :
    R.Simulates Eq (d.skip p n count) (d'.skip p n' count) := by
  intro st st' related
  refine (checkBound_sims twins keeps count st st' related).bind ?_
  rintro position _ mid mid' bounded rfl between
  obtain ⟨rfl, within, -⟩ := checkBound_returns bounded
  have moves := keeps.onward _ _ (moves_cursor keeps related) (Nat.le_add_right _ count)
    (covers.mono within)
  exact seek_sims twins.toNamesakes keeps moves mid mid' between

end Reads

/-! ## Numbers -/

section Numbers

variable [ByteSource σ] [SliceLike σ] [ByteSource τ] (keeps : R.Respects)

include twins keeps

omit kin in
/-- Each byte is checked against the frame on its own, from where the cursor is. -/
theorem pullBytes_ends (covers : R.Covers p.limit) {more consumed : Nat} {st : DecodeState σ}
    {st' : DecodeState τ} (at_ : st.reading.cursor = offset + consumed)
    (related : R.Related st st') :
    EndRelated R Eq ((d.pullBytes p n offset more consumed).ending st)
      ((d'.pullBytes p n' offset more consumed).ending st') := by
  induction more generalizing consumed st st' with
  | zero => exact .returned rfl related
  | succ more inductionHypothesis =>
    simp only [pullBytes]
    refine Simulates.guard_ends twins.toNamesakes rfl related fun within => ?_
    refine (readByte_ends twins.toNamesakes keeps related (covers.mono (by omega))).bind ?_
    rintro b _ mid mid' reads rfl between
    obtain ⟨-, -, moved⟩ := readByte_returns reads
    have next : mid.reading.cursor = offset + (consumed + 1) := by
      rw [moved]
      dsimp only
      omega
    refine (inductionHypothesis next between).bind ?_
    rintro rest _ last last' - rfl related
    exact .returned rfl related

omit [ByteSource σ] [SliceLike σ] [ByteSource τ] kin twins keeps in
/-- A bit without an index is one of a byte so far on that none of its bits has one. -/
theorem unindexed_of_nextBit {position pending : Nat}
    (beyond : positionLimit ≤ nextBit position pending) : positionLimit ≤ 8 * position := by
  unfold nextBit at beyond
  unfold positionLimit Integer.unsignedLimit at *
  split at beyond <;> omega

omit kin in
theorem readBits_sims (covers : R.Covers p.limit) (width : Nat) :
    R.Simulates Eq (d.readBits p n width) (d'.readBits p n' width) := by
  unfold readBits
  rw [twins.label]
  intro st st' related
  refine (tell_sims twins.toNamesakes keeps st st' related).bind ?_
  rintro offset _ mid mid' tells rfl between
  obtain ⟨rfl, same⟩ := tell_returns tells
  refine .get_bind ?_
  rw [← between.pending]
  refine Simulates.ite_ends (fun beyond => ?_) fun _ => ?_
  · have here := moves_cursor keeps related
    have admitted (name : String) := R.unindexed ⟨n'.id, name, st.reading.cursor, _⟩ _ here
      (unindexed_of_nextBit beyond) rfl
    rw [fail, fail, twins.id, twins.label]
    exact (Simulates.throw (Q := Eq) (admitted _) mid mid' between).bind nofun
  refine (pullBytes_ends twins keeps covers (by rw [same]; rfl) between).bind ?_
  rintro bytes _ last last' - rfl related
  have rest : ∀ bits e (r : RawNumber), R.Simulates Eq
      (do setPending bits; record e; pure r) (do setPending bits; record e; pure r) :=
    fun bits e r => .bind (.setPending bits) fun _ => .bind (.record e) fun _ => .pure rfl
  exact rest _ _ _ last last' related

omit kin in
theorem readBytes_sims (covers : R.Covers p.limit) (order : ByteOrder) (width : Nat) :
    R.Simulates Eq (d.readBytes p n offset order width) (d'.readBytes p n' offset order width) := by
  unfold readBytes
  rw [twins.label]
  exact .bind .align fun _ => .bind (tellAt_sims twins.toNamesakes keeps) fun _ =>
    .bind (read_sims twins keeps covers _) fun _ => .bind (.record _) fun _ => .pure rfl

theorem readRaw_sims (covers : R.Covers p.limit) (order : ByteOrder) :
    R.Simulates Eq (d.readRaw p n order) (d'.readRaw p n' order) := by
  refine .bind (tell_sims twins.toNamesakes keeps) fun start =>
    .bind (.resolved twins.toNamesakes (twins.lookup rfl)) fun length => ?_
  cases length with
  | none => exact .fail twins.toNamesakes rfl
  | some length =>
    refine .bind (.resolved twins.toNamesakes (twins.lookupD rfl)) fun unit => ?_
    refine .bind (evalCount_sims kin twins length) fun units => ?_
    refine .guard twins.toNamesakes rfl fun _ => ?_
    cases unit with
    | bit => exact readBits_sims twins keeps covers _
    | byte => exact readBytes_sims twins keeps covers order _

omit [ByteSource σ] [SliceLike σ] [ByteSource τ] keeps in
theorem matchNumber_sims (value : NumberValue) :
    R.Simulates Eq (d.matchNumber n offset value) (d'.matchNumber n' offset value) := by
  unfold matchNumber
  rw [twins.id, twins.label]
  exact .bind (.resolved twins.toNamesakes (twins.lookupD rfl)) fun _ => .ite
    (fun _ => .bind (.resolved twins.toNamesakes (twins.lookupD rfl)) fun _ => .ite
      (fun _ => .bind (violation_sims kin rfl) fun _ => .pure rfl)
      fun _ => .pure rfl)
    fun _ => .pure rfl

omit [ByteSource σ] [SliceLike σ] [ByteSource τ] keeps in
theorem checkRange_sims (value : NumberValue) :
    R.Simulates Eq (d.checkRange p n offset value) (d'.checkRange p n' offset value) := by
  unfold checkRange
  rw [twins.id, twins.label]
  exact .bind (evalAttribute_sims kin twins (twins.lookup rfl)) fun _ =>
    .bind (evalAttribute_sims kin twins (twins.lookup rfl)) fun _ => .ite
      (fun _ => violation_sims kin rfl) fun _ => .pure rfl

omit [ByteSource σ] [SliceLike σ] [ByteSource τ] keeps in
theorem finishNumber_sims (len : Nat) (value : NumberValue) (bits : Option BitSpan)
    (order : ByteOrder) :
    R.Simulates Eq (d.finishNumber p n offset len value bits order)
      (d'.finishNumber p n' offset len value bits order) := by
  unfold finishNumber
  rw [twins.id, twins.label]
  exact .bind (matchNumber_sims kin twins value) fun _ =>
    .bind (checkRange_sims kin twins value) fun _ =>
    .bind (.resolved twins.toNamesakes (twins.lookupD rfl)) fun _ =>
    .bind (.record _) fun _ => .pure rfl

omit [ByteSource σ] [SliceLike σ] [ByteSource τ] keeps kin in
theorem interpret_sims (kind : NumberKind) (r : RawNumber) :
    R.Simulates Eq (d.interpret n kind r) (d'.interpret n' kind r) := by
  cases kind with
  | unsigned => exact .pure rfl
  | signed => exact .pure rfl
  | float =>
    exact .ite (fun _ => .pure rfl) fun _ => .ite (fun _ => .pure rfl) fun _ =>
      .fail twins.toNamesakes rfl

theorem computedPlace_sims (covers : R.Covers p.limit) :
    R.Simulates Eq (d.computedPlace p n offset) (d'.computedPlace p n' offset) := by
  refine .bind (.resolved twins.toNamesakes (twins.lookup rfl)) fun length => ?_
  cases length with
  | none => exact .pure rfl
  | some length =>
    exact .bind .align fun _ => .bind (tellAt_sims twins.toNamesakes keeps) fun _ =>
      .bind (lengthBytes_sims kin twins length) fun len => .bind (skip_sims twins keeps covers len)
        fun _ => .pure rfl

theorem decodeNumber_sims (covers : R.Covers p.limit) :
    R.Simulates Eq (d.decodeNumber p n) (d'.decodeNumber p n') := by
  refine .bind (tell_sims twins.toNamesakes keeps) fun start =>
    .bind (.resolved twins.toNamesakes (twins.lookupD rfl)) fun kind =>
    .bind (.resolved twins.toNamesakes (twins.lookupD rfl)) fun order =>
    .bind (.resolved twins.toNamesakes (twins.lookup rfl)) fun expression => ?_
  cases expression with
  | none =>
    exact .bind (readRaw_sims kin twins keeps covers order) fun r =>
      .bind (interpret_sims twins kind r) fun _ => finishNumber_sims kin twins _ _ _ _
  | some expression =>
    exact .bind (evalInteger_sims kin twins expression) fun k =>
      .bind (computedPlace_sims kin twins keeps covers) fun place =>
        finishNumber_sims kin twins _ _ _ _

end Numbers

/-! ## Fields of whole bytes -/

section Whole

variable [ByteSource σ] [SliceLike σ] [ByteSource τ] (keeps : R.Respects)

include twins keeps

omit kin in
theorem readUntil_sims (covers : R.Covers p.limit) (terminator : List UInt8) (units : Nat) :
    R.Simulates Eq (d.readUntil p n terminator units) (d'.readUntil p n' terminator units) := by
  induction units with
  | zero => exact .pure rfl
  | succ units inductionHypothesis =>
    simp only [readUntil]
    exact .bind (read_sims twins keeps covers _) fun _ => .ite (fun _ => .pure rfl) fun _ =>
      .bind inductionHypothesis fun _ => .pure rfl

omit kin in
theorem readTerminated_sims (covers : R.Covers p.limit) (terminator : List UInt8)
    (declared : Option Nat) :
    R.Simulates Eq (d.readTerminated p n offset terminator declared)
      (d'.readTerminated p n' offset terminator declared) := by
  refine .bind (readUntil_sims twins keeps covers terminator _) fun found => ?_
  cases declared with
  | none => exact .guard twins.toNamesakes rfl fun _ => .pure rfl
  | some slot => exact .bind (skip_sims twins keeps covers _) fun _ => .pure rfl

omit kin in
theorem readPascal_sims (covers : R.Covers p.limit) (declared : Option Nat) :
    R.Simulates Eq (d.readPascal p n offset declared) (d'.readPascal p n' offset declared) := by
  refine .bind (read_sims twins keeps covers 1) fun first => ?_
  cases declared with
  | none => exact read_sims twins keeps covers _
  | some slot =>
    exact .guard twins.toNamesakes rfl fun _ => .bind (read_sims twins keeps covers _) fun _ =>
      .bind (skip_sims twins keeps covers _) fun _ => .pure rfl

omit kin in
theorem readFramed_sims (covers : R.Covers p.limit) (encoding : Text.Encoding) (kind : StringKind)
    (delimiter : Option UInt8) (declared : Option Nat) :
    R.Simulates Eq (d.readFramed p n offset encoding kind delimiter declared)
      (d'.readFramed p n' offset encoding kind delimiter declared) := by
  cases kind with
  | fixedLength => exact .bind (read_sims twins keeps covers _) fun _ => .pure rfl
  | pascal => exact readPascal_sims twins keeps covers declared
  | zeroTerminated => exact readTerminated_sims twins keeps covers _ declared
  | delimited => exact readTerminated_sims twins keeps covers _ declared

omit [ByteSource σ] [SliceLike σ] [ByteSource τ] keeps in
theorem matchString_sims (text : String) :
    R.Simulates Eq (d.matchString n offset text) (d'.matchString n' offset text) := by
  unfold matchString
  rw [twins.id, twins.label]
  exact .bind (.resolved twins.toNamesakes (twins.lookupD rfl)) fun _ => .ite
    (fun _ => .bind (.resolved twins.toNamesakes (twins.lookupD rfl)) fun _ => .ite
      (fun _ => .bind (violation_sims kin rfl) fun _ => .pure rfl)
      fun _ => .pure rfl)
    fun _ => .pure rfl

theorem decodeString_sims (covers : R.Covers p.limit) :
    R.Simulates Eq (d.decodeString p n) (d'.decodeString p n') := by
  unfold decodeString
  rw [twins.id, twins.label, kin.encodings]
  refine .bind .align fun _ => .bind (tell_sims twins.toNamesakes keeps) fun start =>
    .bind (.resolved twins.toNamesakes (twins.lookupD rfl)) fun label => ?_
  cases d'.encodings.ofLabel? label with
  | none => exact .fail twins.toNamesakes rfl
  | some encoding =>
    refine .bind (.resolved twins.toNamesakes (twins.lookup rfl)) fun delimiter =>
      .bind (.resolved twins.toNamesakes (twins.lookup rfl)) fun kind =>
      .bind (declaredBytes_sims kin twins) fun declared =>
      .bind (readFramed_sims twins keeps covers _ _ _ declared) fun bytes =>
      .bind (tellAt_sims twins.toNamesakes keeps) fun stop => ?_
    cases d'.encodings.decode? encoding bytes with
    | none => exact .fail twins.toNamesakes rfl
    | some chars =>
      exact .bind (matchString_sims kin twins _) fun _ => .bind (.record _) fun _ => .pure rfl

theorem matchBytes_sims (covers : R.Covers p.limit) (count : Nat)
    (choices : List (NamedValue (List UInt8))) :
    R.Simulates Eq (d.matchBytes p n offset count choices)
      (d'.matchBytes p n' offset count choices) := by
  unfold matchBytes
  rw [twins.id, twins.label]
  exact .bind (read_sims twins keeps covers count) fun _ => .ite
    (fun _ => .bind (.resolved twins.toNamesakes (twins.lookupD rfl)) fun _ => .ite
      (fun _ => .bind (violation_sims kin rfl) fun _ => .pure rfl)
      fun _ => .pure rfl)
    fun _ => .pure rfl

theorem decodeBinary_sims (covers : R.Covers p.limit) :
    R.Simulates Eq (d.decodeBinary p n) (d'.decodeBinary p n') := by
  unfold decodeBinary
  rw [twins.id, twins.label]
  refine .bind .align fun _ => .bind (tell_sims twins.toNamesakes keeps) fun start =>
    .bind (declaredBytes_sims kin twins) fun declared =>
    .bind (.resolved twins.toNamesakes (twins.lookupD rfl)) fun choices => ?_
  refine .ite (fun _ => ?_) fun _ => ?_
  · exact .bind (skip_sims twins keeps covers _) fun _ => .bind (.pure rfl) fun _ =>
      .bind (.record _) fun _ => .pure rfl
  · exact .bind (matchBytes_sims kin twins keeps covers _ _) fun _ => .bind (.record _) fun _ =>
      .pure rfl

end Whole

end BinaryTemplate.Decoder
