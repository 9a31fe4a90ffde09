import BinaryTemplate.Proofs.ElementSimulation
import BinaryTemplate.Proofs.Targets

/-!
# Places that are alike

A decode looks at the frames around it for the values that are completed in them, for where they
end, and for which elements they are open. Two places may differ in the element of a container that
no pointer counts from. What is decoded at them is the same, over every source: the runs end with
the same value or the same error, with the same warnings and with the source at the same point.
-/

namespace BinaryTemplate

open DecodeM

/-! ## Frames -/

/-- Two frames that are told apart only by whether they are open for `base`. -/
structure Frame.Like (base : ElementId) (f f' : Frame) : Prop where
  start : f.start = f'.start
  stop : f.stop = f'.stop
  completed : f.completed = f'.completed
  opens : ∀ id, id ≠ base → (f.Opens id ↔ f'.Opens id)

/-- Two places with frames that are alike. -/
structure Place.Like (base : ElementId) (p p' : Place) : Prop where
  inner : p.inner.Like base p'.inner
  outer : List.Forall₂ (Frame.Like base) p.outer p'.outer
  dataStop : p.dataStop = p'.dataStop
  following : p.following = p'.following

theorem Frame.Like.refl (base : ElementId) (f : Frame) : f.Like base f :=
  ⟨rfl, rfl, rfl, fun _ _ => Iff.rfl⟩

namespace Context

variable {s : Schema} {base : ElementId} {frames frames' : List Frame}
  (alike : List.Forall₂ (Frame.Like base) frames frames')

include alike

theorem completed_eq_of_like : frames.map (·.completed) = frames'.map (·.completed) := by
  induction alike with
  | nil => rfl
  | cons like _ inductionHypothesis =>
    rw [List.map_cons, List.map_cons, like.completed, inductionHypothesis]

/-- What is looked for in the completed values of each frame is found alike. -/
theorem findSome?_eq_of_like {α : Type} (search : List Value → Option α) :
    (frames.findSome? fun f => search f.completed) =
      frames'.findSome? fun f => search f.completed := by
  have each (frames : List Frame) : (frames.findSome? fun f => search f.completed) =
      (frames.map (·.completed)).findSome? search := by
    rw [List.findSome?_map]
    rfl
  rw [each, each, completed_eq_of_like alike]

theorem find?_eq_of_like (element : ElementId) :
    find? ⟨s, frames⟩ element = find? ⟨s, frames'⟩ element :=
  findSome?_eq_of_like alike _

theorem lookup_eq_of_like : lookup ⟨s, frames⟩ = lookup ⟨s, frames'⟩ := by
  funext names
  cases names with
  | nil => rfl
  | cons first rest =>
    have sibling : sibling? ⟨s, frames⟩ first = sibling? ⟨s, frames'⟩ first :=
      findSome?_eq_of_like alike _
    have descendant : descendant? ⟨s, frames⟩ first = descendant? ⟨s, frames'⟩ first :=
      findSome?_eq_of_like alike _
    rw [lookup, lookup, sibling, descendant]

/-- Containers of every other element are open alike, and start alike. -/
theorem containerStart?_eq_of_like {id : ElementId} (other : id ≠ base) :
    containerStart? ⟨s, frames⟩ id = containerStart? ⟨s, frames'⟩ id := by
  induction alike with
  | nil => rfl
  | @cons f f' _ _ like _ inductionHypothesis =>
    unfold containerStart? at inductionHypothesis ⊢
    rw [List.find?_cons, List.find?_cons]
    have same := like.opens id other
    by_cases opens : f.Opens id
    · rw [opens_iff.mpr opens, opens_iff.mpr (same.mp opens)]
      exact congrArg some like.start
    · have shut := mt opens_iff.mp opens
      have shut' := mt opens_iff.mp (mt same.mpr opens)
      rw [Bool.not_eq_true] at shut shut'
      rw [shut, shut']
      exact inductionHypothesis

theorem evaluateStandard_eq_of_like (text : String) :
    Evaluator.evaluateStandard ⟨s, frames⟩ text = Evaluator.evaluateStandard ⟨s, frames'⟩ text := by
  have named : Context.named ⟨s, frames⟩ = Context.named ⟨s, frames'⟩ := by
    unfold Context.named
    rw [lookup_eq_of_like alike]
  have integer : Context.integer ⟨s, frames⟩ = Context.integer ⟨s, frames'⟩ := by
    unfold Context.integer
    rw [named]
  unfold Evaluator.evaluateStandard
  rw [named, integer]

end Context

namespace Place.Like

variable {base : ElementId} {p p' : Place} (like : p.Like base p')

include like

theorem frames : List.Forall₂ (Frame.Like base) (p.inner :: p.outer) (p'.inner :: p'.outer) :=
  .cons like.inner like.outer

theorem limit : p.limit = p'.limit := like.inner.stop

theorem complete (v : Value) : (p.complete v).Like base (p'.complete v) :=
  { like with inner := ⟨like.inner.start, like.inner.stop,
      congrArg (v :: ·) like.inner.completed, like.inner.opens⟩ }

theorem enter {f f' : Frame} (frame : f.Like base f') : (p.enter f).Like base (p'.enter f') :=
  { like with inner := frame, outer := like.frames }

theorem sidePlace (element : ElementId) (target stop : Nat) :
    (Decoder.sidePlace p element target stop).Like base
      (Decoder.sidePlace p' element target stop) :=
  { like.enter (.refl base _) with following := congrArg ((target, element) :: ·) like.following }

end Place.Like

/-! ## Steps -/

/-- Two runs over the same source that report the same warnings. -/
def Simulation.abreast (σ : Type) : Simulation σ σ where
  source := Eq
  sameEvents := False
  excuses _ := False
  high := none
  fatal := Simulation.fatal_of_never

namespace Simulation

variable {σ α β : Type} {s : Schema} {n : Node s} {offset : Nat} {Q : β → β → Prop}

theorem Related.symm {st st' : DecodeState σ} (related : (abreast σ).Related st st') :
    (abreast σ).Related st' st :=
  ⟨related.source.symm, related.pending.symm, related.warnings.symm, nofun⟩

theorem namesakes_refl (n : Node s) : n.Namesakes n := ⟨rfl, rfl⟩

/-- Behind a lookup the attribute is known. -/
theorem Simulates.resolved_bind {r : Except CycleError α} {next next' : α → DecodeM σ β}
    (rest : ∀ a, r = .ok a → (abreast σ).Simulates Q (next a) (next' a)) :
    (abreast σ).Simulates Q (DecodeM.resolved n offset r >>= next)
      (DecodeM.resolved n offset r >>= next') := by
  cases r with
  | ok a => exact rest a rfl
  | error cycle =>
    exact .bind_of (.fail (Q := fun _ _ => False) (namesakes_refl n) rfl) fun _ _ never =>
      never.elim

theorem Simulates.resolved_same (r : Except CycleError α) :
    (abreast σ).Simulates Eq (DecodeM.resolved n offset r) (DecodeM.resolved n offset r) :=
  .resolved (namesakes_refl n) rfl

theorem Simulates.onSource (operation : SourceM σ α) :
    (abreast σ).Simulates Eq (DecodeM.onSource n offset operation)
      (DecodeM.onSource n offset operation) := by
  intro st st' related
  have same : st.source = st'.source := related.source
  refine onSource_ends (namesakes_refl n) related ?_
  rw [same]
  exact ⟨rfl, rfl⟩

theorem Simulates.fail_same {failure : Failure} (sound : failure.isFault = false) :
    (abreast σ).Simulates Q (DecodeM.fail n offset failure) (DecodeM.fail n offset failure) :=
  .throw (Failure.not_isFault sound)

/-- A step that fails under a condition, in front of another step. -/
theorem Simulates.guard_same {c : Prop} [Decidable c] {failure : Failure}
    {next next' : α → DecodeM σ β} {rest rest' : DecodeM σ β} (sound : failure.isFault = false)
    (otherwise : ¬ c → (abreast σ).Simulates Q rest rest') :
    (abreast σ).Simulates Q (if c then DecodeM.fail n offset failure >>= next else rest)
      (if c then DecodeM.fail n offset failure >>= next' else rest') :=
  .ite (fun _ => .bind_of (.fail_same (Q := fun _ _ => False) sound) fun _ _ never => never.elim)
    otherwise

/-- An attempt, with what is done about its outcome. -/
theorem Simulates.attempt {left right : DecodeM σ α}
    {next next' : Except DecodeError α → DecodeM σ β}
    (first : (abreast σ).Simulates Eq left right)
    (ok : ∀ a, (abreast σ).Simulates Q (next (.ok a)) (next' (.ok a)))
    (error : ∀ e, ¬ e.failure.IsFault →
      (abreast σ).Simulates Q (next (.error e)) (next' (.error e))) :
    (abreast σ).Simulates Q (DecodeM.outcome left >>= next) (DecodeM.outcome right >>= next') := by
  refine .outcome_bind first ?_ error fun _ _ never => never.elim
  rintro a _ rfl
  exact ok a

variable [ByteSource σ]

theorem Simulates.tellAt :
    (abreast σ).Simulates Eq (DecodeM.tellAt n offset) (DecodeM.tellAt n offset) := .onSource _

theorem Simulates.tell : (abreast σ).Simulates Eq (DecodeM.tell n) (DecodeM.tell n) := .onSource _

theorem Simulates.seek (position : Nat) :
    (abreast σ).Simulates Eq (DecodeM.seek n offset position) (DecodeM.seek n offset position) :=
  .bind (.onSource _) fun _ => .pure rfl

theorem Simulates.take : (abreast σ).Simulates Eq (Mark.take n) (Mark.take n) := by
  refine .bind .tell fun _ => .get_bind fun st st' pending warnings => ?_
  have same : st.warnings = st'.warnings := warnings
  rw [pending, same]
  exact .pure rfl

theorem Simulates.rewind (mark : Mark) :
    (abreast σ).Simulates Eq (mark.rewind n) (mark.rewind n) :=
  .bind (.seek _) fun _ =>
    .modify fun _ _ related => { related with pending := rfl, warnings := rfl }

end Simulation

namespace Decoder

open Simulation

variable {σ : Type} {d : Decoder σ} {base : ElementId} {p p' : Place} {n : Node d.schema}
  {offset : Nat}

/-- Behind a node its id is known. -/
theorem node_bind_like {α : Type} {Q : α → α → Prop} {id : ElementId}
    {next next' : Node d.schema → DecodeM σ α}
    (rest : ∀ m : Node d.schema, m.id = id → (abreast σ).Simulates Q (next m) (next' m)) :
    (abreast σ).Simulates Q (d.node id offset >>= next) (d.node id offset >>= next') := by
  have found : (abreast σ).Simulates (fun m m' => m = m' ∧ m.id = id) (d.node id offset)
      (d.node id offset) := by
    unfold node
    cases known : d.schema.node? id with
    | none => exact .throw (by rintro ⟨_, ⟨⟩⟩)
    | some m => exact .pure ⟨rfl, Schema.id_of_node? known⟩
  refine .bind_of found ?_
  rintro m _ ⟨rfl, same⟩
  exact rest m same

/-! ## References and lengths -/

section References

variable (standard : d.evaluator = .standard) (like : p.Like base p')

include standard like

theorem evalInteger_like (r : Reference) :
    (abreast σ).Simulates Eq (d.evalInteger p n offset r) (d.evalInteger p' n offset r) := by
  cases r with
  | literal k => exact .pure rfl
  | expression text =>
    have same : d.evaluator.evaluate (p.context d.schema) text =
        d.evaluator.evaluate (p'.context d.schema) text := by
      rw [standard]
      exact Context.evaluateStandard_eq_of_like like.frames text
    simp only [evalInteger, same]
    rcases d.evaluator.evaluate (p'.context d.schema) text with e | ⟨k | id⟩
    · exact .fail_same rfl
    · exact .pure rfl
    · exact .fail_same rfl

theorem evalCount_like (r : Reference) :
    (abreast σ).Simulates Eq (d.evalCount p n offset r) (d.evalCount p' n offset r) :=
  .bind (evalInteger_like standard like r) fun _ => asCount_sims (.refl n) _

theorem evalAttribute_like (a : Attribute Reference) :
    (abreast σ).Simulates Eq (d.evalAttribute p n offset a) (d.evalAttribute p' n offset a) := by
  refine .bind (.resolved_same _) fun r => ?_
  cases r with
  | none => exact .pure rfl
  | some r => exact .bind (evalInteger_like standard like r) fun _ => .pure rfl

theorem lengthBytes_like (length : Reference) :
    (abreast σ).Simulates Eq (d.lengthBytes p n offset length)
      (d.lengthBytes p' n offset length) :=
  .bind (evalCount_like standard like length) fun _ => .bind (.resolved_same _) fun _ =>
    toBytes_sims (.refl n) _ _

theorem declaredBytes_like :
    (abreast σ).Simulates Eq (d.declaredBytes p n offset) (d.declaredBytes p' n offset) := by
  refine .bind (.resolved_same _) fun length => ?_
  cases length with
  | none => exact .pure rfl
  | some length => exact .bind (lengthBytes_like standard like length) fun _ => .pure rfl

end References

/-! ## Fields -/

section Fields

variable (standard : d.evaluator = .standard) (like : p.Like base p')

include standard like

theorem finishNumber_like (len : Nat) (value : NumberValue) (bits : Option BitSpan)
    (order : ByteOrder) :
    (abreast σ).Simulates Eq (d.finishNumber p n offset len value bits order)
      (d.finishNumber p' n offset len value bits order) := by
  have ranging : (abreast σ).Simulates Eq (d.checkRange p n offset value)
      (d.checkRange p' n offset value) :=
    .bind (evalAttribute_like standard like _) fun _ =>
      .bind (evalAttribute_like standard like _) fun _ =>
      .ite (fun _ => violation_sims (.refl d) rfl) fun _ => .pure rfl
  exact .bind (matchNumber_sims (.refl d) (.refl n) value) fun _ => .bind ranging fun _ =>
    .bind (.resolved_same _) fun _ => .bind (.record _) fun _ => .pure rfl

variable [ByteSource σ]

omit standard in
theorem checkBound_like (count : Nat) :
    (abreast σ).Simulates Eq (d.checkBound p n count) (d.checkBound p' n count) := by
  unfold checkBound
  rw [like.limit]
  exact .bind .tell fun _ => .guard_same rfl fun _ => .pure rfl

omit standard in
theorem read_like (count : Nat) :
    (abreast σ).Simulates Eq (d.read p n count) (d.read p' n count) :=
  .bind (checkBound_like like count) fun _ => .onSource _

omit standard in
theorem skip_like (count : Nat) :
    (abreast σ).Simulates Eq (d.skip p n count) (d.skip p' n count) :=
  .bind (checkBound_like like count) fun _ => .seek _

/-! ## Numbers -/

omit standard in
theorem pullBytes_like (more consumed : Nat) :
    (abreast σ).Simulates Eq (d.pullBytes p n offset more consumed)
      (d.pullBytes p' n offset more consumed) := by
  induction more generalizing consumed with
  | zero => exact .pure rfl
  | succ more inductionHypothesis =>
    simp only [pullBytes]
    rw [like.limit]
    exact .guard_same rfl fun _ => .bind (.onSource _) fun _ =>
      .bind (inductionHypothesis _) fun _ => .pure rfl

omit standard in
theorem readBits_like (width : Nat) :
    (abreast σ).Simulates Eq (d.readBits p n width) (d.readBits p' n width) := by
  refine .bind .tell fun _ => .get_bind fun st st' pending _ => ?_
  rw [pending]
  exact .guard_same rfl fun _ => .bind (pullBytes_like like _ _) fun _ =>
    .bind (.setPending _) fun _ => .bind (.record _) fun _ => .pure rfl

omit standard in
theorem readBytes_like (order : ByteOrder) (width : Nat) :
    (abreast σ).Simulates Eq (d.readBytes p n offset order width)
      (d.readBytes p' n offset order width) :=
  .bind .align fun _ => .bind .tellAt fun _ => .bind (read_like like _) fun _ =>
    .bind (.record _) fun _ => .pure rfl

theorem readRaw_like (order : ByteOrder) :
    (abreast σ).Simulates Eq (d.readRaw p n order) (d.readRaw p' n order) := by
  refine .bind .tell fun _ => .bind (.resolved_same _) fun length => ?_
  cases length with
  | none => exact .fail_same rfl
  | some length =>
    refine .bind (.resolved_same _) fun unit => .bind (evalCount_like standard like length)
      fun _ => .guard_same rfl fun _ => ?_
    cases unit with
    | bit => exact readBits_like like _
    | byte => exact readBytes_like like order _

theorem computedPlace_like :
    (abreast σ).Simulates Eq (d.computedPlace p n offset) (d.computedPlace p' n offset) := by
  refine .bind (.resolved_same _) fun length => ?_
  cases length with
  | none => exact .pure rfl
  | some length =>
    exact .bind .align fun _ => .bind .tellAt fun _ =>
      .bind (lengthBytes_like standard like length) fun _ => .bind (skip_like like _) fun _ =>
      .pure rfl

theorem decodeNumber_like :
    (abreast σ).Simulates Eq (d.decodeNumber p n) (d.decodeNumber p' n) := by
  refine .bind .tell fun _ => .bind (.resolved_same _) fun _ => .bind (.resolved_same _)
    fun order => .bind (.resolved_same _) fun expression => ?_
  cases expression with
  | none =>
    exact .bind (readRaw_like standard like order) fun _ =>
      .bind (interpret_sims (.refl n) _ _) fun _ => finishNumber_like standard like _ _ _ _
  | some expression =>
    exact .bind (evalInteger_like standard like expression) fun _ =>
      .bind (computedPlace_like standard like) fun _ => finishNumber_like standard like _ _ _ _

/-! ## Fields of whole bytes -/

omit standard in
theorem readUntil_like (terminator : List UInt8) (units : Nat) :
    (abreast σ).Simulates Eq (d.readUntil p n terminator units)
      (d.readUntil p' n terminator units) := by
  induction units with
  | zero => exact .pure rfl
  | succ units inductionHypothesis =>
    simp only [readUntil]
    exact .bind (read_like like _) fun _ => .ite (fun _ => .pure rfl) fun _ =>
      .bind inductionHypothesis fun _ => .pure rfl

omit standard in
theorem readTerminated_like (terminator : List UInt8) (declared : Option Nat) :
    (abreast σ).Simulates Eq (d.readTerminated p n offset terminator declared)
      (d.readTerminated p' n offset terminator declared) := by
  unfold readTerminated
  rw [like.limit]
  refine .bind (readUntil_like like terminator _) fun _ => ?_
  cases declared with
  | none => exact .guard_same rfl fun _ => .pure rfl
  | some slot => exact .bind (skip_like like _) fun _ => .pure rfl

omit standard in
theorem readFramed_like (encoding : Text.Encoding) (kind : StringKind) (delimiter : Option UInt8)
    (declared : Option Nat) :
    (abreast σ).Simulates Eq (d.readFramed p n offset encoding kind delimiter declared)
      (d.readFramed p' n offset encoding kind delimiter declared) := by
  cases kind with
  | fixedLength =>
    simp only [readFramed, readFixed]
    rw [like.limit]
    exact .bind (read_like like _) fun _ => .pure rfl
  | pascal =>
    refine .bind (read_like like 1) fun _ => ?_
    cases declared with
    | none => exact read_like like _
    | some slot =>
      exact .guard_same rfl fun _ => .bind (read_like like _) fun _ =>
        .bind (skip_like like _) fun _ => .pure rfl
  | zeroTerminated => exact readTerminated_like like _ declared
  | delimited => exact readTerminated_like like _ declared

theorem decodeString_like :
    (abreast σ).Simulates Eq (d.decodeString p n) (d.decodeString p' n) := by
  refine .bind .align fun _ => .bind .tell fun _ => .bind (.resolved_same _) fun label => ?_
  cases d.encodings.ofLabel? label with
  | none => exact .fail_same rfl
  | some encoding =>
    refine .bind (.resolved_same _) fun _ => .bind (.resolved_same _) fun _ =>
      .bind (declaredBytes_like standard like) fun declared =>
      .bind (readFramed_like like _ _ _ declared) fun bytes => .bind .tellAt fun _ => ?_
    cases d.encodings.decode? encoding bytes with
    | none => exact .fail_same rfl
    | some chars =>
      exact .bind (matchString_sims (.refl d) (.refl n) _) fun _ =>
        .bind (.record _) fun _ => .pure rfl

theorem decodeBinary_like :
    (abreast σ).Simulates Eq (d.decodeBinary p n) (d.decodeBinary p' n) := by
  have matching {offset count : Nat} {choices : List (NamedValue (List UInt8))} :
      (abreast σ).Simulates Eq (d.matchBytes p n offset count choices)
        (d.matchBytes p' n offset count choices) :=
    .bind (read_like like _) fun _ => .ite
      (fun _ => .bind (.resolved_same _) fun _ => .ite
        (fun _ => .bind (violation_sims (.refl d) rfl) fun _ => .pure rfl) fun _ => .pure rfl)
      fun _ => .pure rfl
  unfold decodeBinary
  rw [like.limit]
  exact .bind .align fun _ => .bind .tell fun _ => .bind (declaredBytes_like standard like)
    fun _ => .bind (.resolved_same _) fun _ => .ite
      (fun _ => .bind (skip_like like _) fun _ => .bind (.pure rfl) fun _ =>
        .bind (.record _) fun _ => .pure rfl)
      fun _ => .bind matching fun _ => .bind (.record _) fun _ => .pure rfl

end Fields

end Decoder

end BinaryTemplate
