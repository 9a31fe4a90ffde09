import BinaryTemplate.Proofs.AbreastElements
import BinaryTemplate.Proofs.LintClean
import BinaryTemplate.Proofs.ValidTrees

/-!
# References to structures are transparent

A structure reference that sets nothing itself has the attributes of its structure, and decodes the
children of that. Its frame is that of the reference, and it is open for the structure as well; only
a pointer that counts from the reference itself could tell the two apart. So a decode of the
reference is one of the structure, and its value has the id of the reference in place of that of the
structure.
-/

namespace BinaryTemplate

/-! ## Runs that succeed alike -/

namespace DecodeM

open Simulation

variable {σ α β α' β' : Type}

/-- Two runs both succeed, with related values, or both fail. -/
inductive EndParallel (Q : α → β → Prop) :
    Except DecodeError α × DecodeState σ → Except DecodeError β × DecodeState σ → Prop
  | returned {a : α} {b : β} {st st' : DecodeState σ} (same : Q a b)
      (related : (abreast σ).Related st st') : EndParallel Q (.ok a, st) (.ok b, st')
  | threw {e e' : DecodeError} {st st' : DecodeState σ} :
      EndParallel Q (.error e, st) (.error e', st')

/-- Two steps succeed alike. Where both fail, nothing is said about how. -/
def Parallel (Q : α → β → Prop) (left : DecodeM σ α) (right : DecodeM σ β) : Prop :=
  ∀ st st', (abreast σ).Related st st' → EndParallel Q (left.ending st) (right.ending st')

namespace Parallel

variable {Q : α → β → Prop} {Q' : α' → β' → Prop} {left : DecodeM σ α} {right : DecodeM σ β}

theorem of_simulates (simulates : (abreast σ).Simulates Q left right) : Parallel Q left right := by
  intro st st' related
  have ends := simulates st st' related
  generalize left.ending st = l at ends ⊢
  generalize right.ending st' = r at ends ⊢
  cases ends with
  | returned same related => exact .returned same related
  | threw => exact .threw
  | excused never => exact never.elim

theorem pure {a : α} {b : β} (same : Q a b) :
    Parallel Q (Pure.pure a : DecodeM σ α) (Pure.pure b) :=
  fun _ _ related => .returned same related

theorem throw {e e' : DecodeError} :
    Parallel Q (MonadExcept.throw e : DecodeM σ α) (MonadExcept.throw e') :=
  fun _ _ _ => .threw

theorem bind_of {next : α → DecodeM σ α'} {next' : β → DecodeM σ β'} (first : Parallel Q left right)
    (rest : ∀ a b, Q a b → Parallel Q' (next a) (next' b)) :
    Parallel Q' (left >>= next) (right >>= next') := by
  intro st st' related
  rw [ending_bind, ending_bind]
  have ends := first st st' related
  generalize left.ending st = l at ends ⊢
  generalize right.ending st' = r at ends ⊢
  cases ends with
  | returned same related => exact rest _ _ same _ _ related
  | threw => exact .threw

theorem bind {left right : DecodeM σ α} {next : α → DecodeM σ α'} {next' : α → DecodeM σ β'}
    (first : Parallel Eq left right) (rest : ∀ a, Parallel Q' (next a) (next' a)) :
    Parallel Q' (left >>= next) (right >>= next') := by
  refine first.bind_of ?_
  rintro a _ rfl
  exact rest a

theorem ite {c : Prop} [Decidable c] {yes no : DecodeM σ α} {yes' no' : DecodeM σ β}
    (holds : Parallel Q yes yes') (fails : Parallel Q no no') :
    Parallel Q (if c then yes else no) (if c then yes' else no') := by
  by_cases h : c
  · rw [if_pos h, if_pos h]
    exact holds
  · rw [if_neg h, if_neg h]
    exact fails

/-- Steps that change nothing and give what is asked for succeed alike if the same is given. -/
theorem of_answers {left right : DecodeM σ α} {P : α → Prop}
    (answers : ∀ st a after, Returns left st a after ↔ P a ∧ after = st)
    (answers' : ∀ st a after, Returns right st a after ↔ P a ∧ after = st) :
    Parallel Eq left right := by
  intro st st' related
  rcases ended : left.ending st with ⟨e | a, mid⟩ <;>
    rcases ended' : right.ending st' with ⟨e' | b, mid'⟩
  · exact .threw
  · obtain ⟨given, -⟩ := (answers' st' b mid').mp ended'
    cases ended.symm.trans ((answers st b st).mpr ⟨given, rfl⟩)
  · obtain ⟨given, -⟩ := (answers st a mid).mp ended
    cases ended'.symm.trans ((answers' st' a st').mpr ⟨given, rfl⟩)
  · obtain ⟨given, rfl⟩ := (answers st a mid).mp ended
    cases ended'.symm.trans ((answers' st' a st').mpr ⟨given, rfl⟩)
    exact .returned rfl related

/-- What is done after the content of a container. -/
theorem closing {reword reword' : DecodeError → DecodeError} (first : Parallel Q left right) :
    Parallel Q (DecodeM.closing DecodeM.align reword left)
      (DecodeM.closing DecodeM.align reword' right) := by
  intro st st' related
  unfold DecodeM.closing
  rw [ending_bind, ending_bind, ending_outcome, ending_outcome]
  have ends := first st st' related
  generalize left.ending st = l at ends ⊢
  generalize right.ending st' = r at ends ⊢
  cases ends with
  | returned same related => exact .returned same { related with pending := rfl }
  | threw => exact .threw

/-- An attempt that is the same in both runs, with what is done about its outcome. -/
theorem attempt {step step' : DecodeM σ α} {next : Except DecodeError α → DecodeM σ α'}
    {next' : Except DecodeError α → DecodeM σ β'} (first : (abreast σ).Simulates Eq step step')
    (ok : ∀ a, Parallel Q' (next (.ok a)) (next' (.ok a)))
    (error : ∀ e, Parallel Q' (next (.error e)) (next' (.error e))) :
    Parallel Q' (outcome step >>= next) (outcome step' >>= next') := by
  intro st st' related
  rw [ending_bind, ending_bind, ending_outcome, ending_outcome]
  have ends := first st st' related
  generalize step.ending st = l at ends ⊢
  generalize step'.ending st' = r at ends ⊢
  cases ends with
  | returned same related =>
    subst same
    exact ok _ _ _ related
  | threw related => exact error _ _ _ related
  | excused never => exact never.elim

variable {s : Schema} {n n' : Node s} {offset : Nat}

theorem fail {offset offset' : Nat} {failure failure' : Failure} :
    Parallel Q (DecodeM.fail n offset failure : DecodeM σ α) (DecodeM.fail n' offset' failure') :=
  throw

theorem record (e e' : Event) : Parallel Eq (DecodeM.record e : DecodeM σ Unit)
    (DecodeM.record e') :=
  fun _ _ related => .returned rfl ⟨related.source, related.pending, related.warnings, nofun⟩

theorem align : Parallel Eq (DecodeM.align : DecodeM σ Unit) DecodeM.align :=
  of_simulates .align

theorem onSource {offset' : Nat} (operation : SourceM σ α) :
    Parallel Eq (DecodeM.onSource n offset operation) (DecodeM.onSource n' offset' operation) := by
  intro st st' related
  have same : st.source = st'.source := related.source
  unfold ending DecodeM.onSource
  rw [same]
  rcases (operation st'.source : Except InputError α × σ) with ⟨e | a, source⟩
  · exact .threw
  · exact .returned rfl { related with source := rfl }

variable [ByteSource σ]

theorem tell : Parallel Eq (DecodeM.tell n : DecodeM σ Nat) (DecodeM.tell n') := onSource _

theorem tellAt {offset' : Nat} :
    Parallel Eq (DecodeM.tellAt n offset : DecodeM σ Nat) (DecodeM.tellAt n' offset') := onSource _

theorem take : Parallel Eq (Mark.take n : DecodeM σ Mark) (Mark.take n') := by
  refine .bind .tell fun _ st st' related => ?_
  have warnings : st.warnings = st'.warnings := related.warnings
  refine .returned ?_ related
  rw [related.pending, warnings]

theorem rewind (mark : Mark) : Parallel Eq (mark.rewind n : DecodeM σ Unit) (mark.rewind n') :=
  .bind (.bind (onSource _) fun _ => .pure rfl) fun _ _ _ related =>
    .returned rfl { related with pending := rfl, warnings := rfl }

end Parallel

end DecodeM

/-- The value of a container, and the same value under the id of another one. -/
structure Value.Renamed (own id : ElementId) (v w : Value) : Prop where
  own : w.element = own
  same : v = { w with element := id }
  bare : w.payload = .none

/-! ## A reference and its structure -/

namespace Schema

variable {s : Schema} {id target : ElementId} {e : Element} {α : Type}

theorem firstOf_singleton (ask : ElementId → Option (Option α)) (id : ElementId) :
    firstOf ask [id] = ask id := by
  unfold firstOf
  rcases ask id with _ | _ | v <;> rfl

/-- A reference without a template and a parent that names its structure itself. -/
structure PlainReference (s : Schema) (id target : ElementId) (e : Element) : Prop where
  found : s.get? id = some e
  kind : e.kind = .structRef { structure? := some target }
  template : e.traits.template = none
  parent : e.traits.parent = none

namespace PlainReference

variable (plain : s.PlainReference id target e)

include plain

theorem names : s.lookup .structure? id = .ok (some target) := by
  have own : Attribute.structure?.own e = some target := by
    simp only [Attribute.structure?, plain.kind]
  unfold lookup
  rw [search_found List.not_mem_nil plain.found]
  simp only [own]

theorem follow_succ {a : Attribute α} (unset : a.own e = none) (follows : a.scope ≠ .identity)
    (depth : Nat) : s.follow (s.attributeWalk a) (depth + 2) id =
      s.follow (s.attributeWalk a) (depth + 1) target := by
  have named : s.follow structureWalk (depth + 1) id = some (some target) := by
    have own : structureWalk.own e = some target := by
      show Attribute.structure?.own e = some target
      simp only [Attribute.structure?, plain.kind]
    simp only [follow, plain.found, own]
  have links : (s.attributeWalk a).links (depth + 1) id e = some [target] := by
    show Option.map _ (s.targetWithin a.scope (depth + 1) id e) = _
    have within : s.targetWithin a.scope (depth + 1) id e = some (some target) := by
      unfold targetWithin
      rw [plain.kind]
      cases scope : a.scope with
      | identity => exact absurd scope follows
      | _ => exact named
    rw [within, plain.template, plain.parent]
    simp
  have own : (s.attributeWalk a).own e = none := unset
  rw [follow, plain.found]
  simp only [own, links, firstOf_singleton]

/-- What a plain reference does not set itself is what its structure has. -/
theorem lookup_iff {a : Attribute α} (unset : a.own e = none) (follows : a.scope ≠ .identity)
    {found : Option α} : s.lookup a id = .ok found ↔ s.lookup a target = .ok found := by
  have guards := guards_attribute (s := s) a
  refine guards.search_iff.trans (Iff.trans ?_ guards.search_iff.symm)
  -- A walk from the reference is one level deeper than that from its structure.
  constructor
  · rintro ⟨depth, ended⟩
    refine ⟨depth + 1, ?_⟩
    rw [← plain.follow_succ unset follows]
    exact follow_grows (Nat.le_add_right depth 2) ended
  · rintro ⟨depth, ended⟩
    refine ⟨depth + 2, ?_⟩
    rw [plain.follow_succ unset follows]
    exact follow_grows (Nat.le_add_right depth 1) ended

theorem lookupD_iff {n m : Node s} (same : n.id = id) (same' : m.id = target) {a : Attribute α}
    (unset : a.own e = none) (follows : a.scope ≠ .identity) {fallback found : α} :
    n.lookupD a fallback = .ok found ↔ m.lookupD a fallback = .ok found := by
  have lookups : ∀ r, n.lookup a = .ok r ↔ m.lookup a = .ok r := by
    subst same same'
    exact fun r => plain.lookup_iff unset follows
  have mapped : ∀ {l : Except CycleError (Option α)},
      l.map (·.getD fallback) = .ok found ↔ ∃ r, l = .ok r ∧ r.getD fallback = found := by
    intro l
    cases l with
    | error cycle => simp [Except.map]
    | ok r => simp [Except.map]
  unfold Node.lookupD
  rw [mapped, mapped]
  simp only [lookups]

end PlainReference

end Schema

namespace Decoder

open DecodeM Simulation

variable {σ : Type} {d : Decoder σ} {base : ElementId} {p p' : Place} {n m : Node d.schema}
  {offset : Nat} {child : d.DecodeChild}

/-! ## Contents of two containers -/

section Contents

variable [ByteSource σ]

/-- A choice is made alike inside two containers, which only the errors name. -/
theorem firstMatch_parallel (like : p.Like base p') (mark : Mark)
    {choices : List (Alternative d.schema)}
    (alike : ∀ a ∈ choices, AlikeChild base child a.node.id) :
    Parallel (SameFound base child) (d.firstMatch child p n mark choices)
      (d.firstMatch child p' m mark choices) := by
  induction choices with
  | nil => exact .pure ⟨rfl, nofun⟩
  | cons a rest inductionHypothesis =>
    have here := alike a List.mem_cons_self
    have others := inductionHypothesis fun b member => alike b (List.mem_cons_of_mem _ member)
    have behind : Parallel (SameFound base child) _ _ :=
      others.bind_of fun _ _ found => .pure (found.skip here)
    simp only [firstMatch]
    refine .ite behind ?_
    refine .attempt (here p p' a.node rfl like) (fun v => .pure (.take v alike)) fun e => ?_
    exact .ite (.bind_of (Parallel.throw (Q := fun _ _ => False)) fun _ _ never => never.elim)
      (.bind (.record _ _) fun _ => .bind (.rewind mark) fun _ => behind)

theorem decodeChoices_parallel (like : p.Like base p') (room : Nat)
    {choices : List (Alternative d.schema)}
    (alike : ∀ a ∈ choices, AlikeChild base child a.node.id) :
    Parallel (fun left right => left.1.Like base right.1 ∧ left.2 = right.2)
      (d.decodeChoices child n room p choices) (d.decodeChoices child m room p' choices) := by
  induction room generalizing p p' choices with
  | zero =>
    rw [decodeChoices.eq_def, decodeChoices.eq_def]
    refine .bind .take fun mark => .bind (.of_simulates (exhausted_like like _)) fun _ => .ite
      (.pure ⟨like, rfl⟩) (.bind_of (firstMatch_parallel like mark alike) ?_)
    rintro found _ ⟨rfl, each⟩
    cases found with
    | none => exact .pure ⟨like, rfl⟩
    | some found => exact .ite (.pure ⟨like.complete _, rfl⟩) .fail
  | succ room inductionHypothesis =>
    rw [decodeChoices.eq_def, decodeChoices.eq_def]
    refine .bind .take fun mark => .bind (.of_simulates (exhausted_like like _)) fun _ => .ite
      (.pure ⟨like, rfl⟩) (.bind_of (firstMatch_parallel like mark alike) ?_)
    rintro found _ ⟨rfl, each⟩
    cases found with
    | none => exact .pure ⟨like, rfl⟩
    | some found =>
      exact .ite (.pure ⟨like.complete _, rfl⟩)
        (inductionHypothesis (like.complete _) (each _ _ rfl))

theorem decodeContent_parallel (standard : d.evaluator = .standard) {ids : List ElementId}
    {order : ChildOrder} (alike : ∀ id ∈ ids, AlikeChild base child id) (like : p.Like base p') :
    Parallel (Place.Like base) (d.decodeContent child n ids order p)
      (d.decodeContent child m ids order p') := by
  cases order with
  | declared => exact .of_simulates (decodeDeclared_like standard alike like)
  | anyOf =>
    refine .bind .tell fun _ => .bind_of (.of_simulates (alternatives_like standard alike like)) ?_
    rintro choices _ ⟨rfl, each⟩
    refine .bind_of (decodeChoices_parallel like _ each) ?_
    rintro ⟨inside, left⟩ ⟨inside', _⟩ ⟨within, rfl⟩
    exact .bind (.of_simulates (checkMinimums_like _)) fun _ => .pure within

end Contents

/-! ## The reference and the structure -/

section Structures

variable (standard : d.evaluator = .standard)
  (plain : d.schema.PlainReference n.id m.id n.element) (like : p.Like base p')

omit like in
include standard like in
theorem evaluates_iff_of_like {r : Reference} {k : Int64} :
    d.Evaluates p r k ↔ d.Evaluates p' r k := by
  cases r with
  | literal => exact Iff.rfl
  | expression text =>
    unfold Evaluates
    rw [standard]
    exact iff_of_eq (congrArg (· = _) (Context.evaluateStandard_eq_of_like like.frames text))

include standard plain like in
/-- A structure spans as many bytes through the reference as by itself. -/
theorem spans_iff_of_plain {declared : Option Nat} :
    d.Spans p n declared ↔ d.Spans p' m declared := by
  have bare : n.element.kind = .structRef { structure? := some m.id } := plain.kind
  have length {found : Option Reference} :
      n.lookup .length = .ok found ↔ m.lookup .length = .ok found :=
    plain.lookup_iff (by simp [Attribute.length, bare, Kind.extent?]) (by decide)
  have extra {found : Option Reference} :
      n.lookup .lengthOffset = .ok found ↔ m.lookup .lengthOffset = .ok found :=
    plain.lookup_iff (by simp [Attribute.lengthOffset, bare]) (by decide)
  have unit {found : LengthUnit} : n.lengthUnit = .ok found ↔ m.lengthUnit = .ok found :=
    plain.lookupD_iff rfl rfl (by simp [Attribute.lengthUnit, bare, Kind.extent?]) (by decide)
  have counts {r : Reference} {count : Nat} : d.Counts p r count ↔ d.Counts p' r count := by
    unfold Counts
    simp only [evaluates_iff_of_like standard like]
  have gives {amount : Option Int64} :
      d.Gives p n .lengthOffset amount ↔ d.Gives p' m .lengthOffset amount := by
    cases amount with
    | none => exact extra
    | some k =>
      unfold Gives
      simp only [extra, evaluates_iff_of_like standard like]
  cases declared with
  | none => exact length
  | some bytes =>
    unfold Spans
    simp only [length, unit, counts, gives]

variable [ByteSource σ]

theorem decodeContainer_parallel (standard : d.evaluator = .standard) (like : p.Like n.id p')
    {ids : List ElementId} {order : ChildOrder} {declared : Option Nat}
    (alike : ∀ id ∈ ids, AlikeChild n.id child id) :
    Parallel (Value.Renamed m.id n.id)
      (d.decodeContainer child p n (some m.id) ids order declared)
      (d.decodeContainer child p' m none ids order declared) := by
  have stops (start : Nat) : Parallel Eq (d.containerStop p n start declared)
      (d.containerStop p' m start declared) := by
    refine .of_answers (fun st stop after => containerStop_returns.trans and_assoc.symm)
      fun st stop after => ?_
    rw [like.limit]
    exact containerStop_returns.trans and_assoc.symm
  have lengths (start consumed : Nat) : Parallel Eq (d.containerLength n start consumed declared)
      (d.containerLength m start consumed declared) := by
    cases declared with
    | none => exact .pure rfl
    | some len => exact .ite (.pure rfl) .fail
  -- The frame is open for the structure on both sides, and for the reference only on the left.
  have frames (start stop : Nat) : Frame.Like n.id (.container n.id (some m.id) start stop)
      (.container m.id none start stop) := by
    refine ⟨rfl, rfl, rfl, fun id other => ?_⟩
    simp only [Frame.Opens, Frame.container, Option.some.injEq, reduceCtorEq, or_false, true_and]
    exact or_iff_right (Ne.symm other)
  rw [decodeContainer_eq_closing, decodeContainer_eq_closing]
  refine .bind .align fun _ => .bind .tell fun start => .bind (stops start) fun stop =>
    .bind (.record _ _) fun _ => ?_
  have content : Parallel (Place.Like n.id)
      (d.decodeContent child n ids order (p.enter (.container n.id (some m.id) start stop)))
      (d.decodeContent child m ids order (p'.enter (.container m.id none start stop))) :=
    decodeContent_parallel standard alike (like.enter (frames start stop))
  refine .bind_of (.closing content) fun inside inside' within => ?_
  have same : inside.inner.children = inside'.inner.children :=
    congrArg List.reverse within.inner.completed
  refine .bind .tellAt fun position => .bind (lengths start _) fun len => ?_
  rw [same]
  exact .pure ⟨rfl, rfl, rfl⟩

/-- A structure decodes alike through a plain reference to it. -/
theorem decodeStructure_parallel (standard : d.evaluator = .standard)
    (plain : d.schema.PlainReference n.id m.id n.element) (other : n.id ≠ m.id)
    (like : p.Like n.id p') (alike : ∀ id ∈ m.kind.children, AlikeChild n.id child id) :
    Parallel (Value.Renamed m.id n.id) (d.decodeStructure child p n m)
      (d.decodeStructure child p' m m) := by
  have orders (offset : Nat) : Parallel Eq (resolved n offset n.order : DecodeM σ ChildOrder)
      (resolved m offset m.order) := by
    refine .of_answers (fun st order after => returns_resolved) fun st order after => ?_
    have bare : n.element.kind = .structRef { structure? := some m.id } := plain.kind
    refine returns_resolved.trans (and_congr_left fun _ => ?_)
    exact (plain.lookupD_iff rfl rfl (by simp [Attribute.order, bare]) (by decide)).symm
  have spans (offset : Nat) : Parallel Eq (d.structureLength p n offset)
      (d.structureLength p' m offset) := by
    refine .of_answers (fun st declared after => structureLength_returns)
      fun st declared after => ?_
    rw [spans_iff_of_plain standard plain like]
    exact structureLength_returns
  unfold decodeStructure
  rw [if_neg (Ne.symm other), if_pos rfl]
  exact .bind .align fun _ => .bind .tell fun offset => .bind (orders offset) fun order =>
    .bind (spans offset) fun declared => decodeContainer_parallel standard like alike

/-- An instance of a structure decodes alike through a plain reference to it. -/
theorem decodeOne_parallel (standard : d.evaluator = .standard)
    (plain : d.schema.PlainReference n.id m.id n.element) {body : StructureBody}
    (defines : m.kind = .structure body) (like : p.Like n.id p') {depth : Nat}
    (alike : ∀ less id, id ∈ m.kind.children → AlikeChild n.id (d.decodeOne less) id) :
    Parallel (Value.Renamed m.id n.id) (d.decodeOne depth p n)
      (d.decodeOne depth p' m) := by
  have bare : n.kind = .structRef { structure? := some m.id } := plain.kind
  have other : n.id ≠ m.id := by
    intro same
    obtain rfl := Node.eq_of_id same
    rw [bare] at defines
    cases defines
  cases depth with
  | zero => exact .bind (.record _ _) fun _ => .bind .tell fun _ => .fail
  | succ depth =>
    have named : n.lookup .structure? = .ok (some m.id) := plain.names
    have through (child : d.DecodeChild) (offset : Nat) :
        d.decodeStructRef child p n offset = d.decodeStructure child p n m := by
      unfold decodeStructRef node
      simp only [named, resolved, pure_bind, Schema.node?_of_id m, defines]
    refine .bind (.record _ _) fun _ => .bind .tell fun offset => ?_
    unfold decodeKind
    rw [bare, defines]
    dsimp only
    rw [through]
    exact decodeStructure_parallel standard plain other like (alike depth)

end Structures

/-! ## Whole decodes -/

section Whole

/-- A value is as valid as another one in its place with the same children, if both are
containers without side trees. -/
theorem validate_of_renamed {s : Schema} {e : Element} {v w : Value} (offset : v.offset = w.offset)
    (len : v.len = w.len) (children : v.children = w.children) (plain : v.referenced? = none)
    (found : s.get? v.element = some e) (produces : e.kind.producesChildren = true)
    (valid : w.validate s = .ok ()) : v.validate s = .ok () := by
  rw [Value.validate_eq_ok_iff, Value.allSound_iff] at valid ⊢
  obtain ⟨own, inside, -⟩ := valid
  refine ⟨⟨by simp [found], ?_, fun _ => ⟨e, found, Kind.producesChildren_iff.mp produces⟩, ?_⟩,
    children ▸ inside, by simp [plain]⟩
  · rw [offset, len]
    exact own.fits
  · rw [offset, len, children]
    exact own.tiles

/-- A tree stays valid, or invalid, if its root gets the id of another container. -/
theorem validate_ok_iff {s : Schema} {e e' : Element} {v w : Value} {own id : ElementId}
    (renamed : v.Renamed own id w) (found : s.get? own = some e) (found' : s.get? id = some e')
    (produces : e.kind.producesChildren = true) (produces' : e'.kind.producesChildren = true) :
    v.validate s = .ok () ↔ w.validate s = .ok () := by
  obtain ⟨rfl, rfl, bare⟩ := renamed
  have plain : w.referenced? = none := by simp [Value.referenced?, bare]
  constructor
  · exact validate_of_renamed rfl rfl rfl plain found produces
  · exact validate_of_renamed rfl rfl rfl plain found' produces'

theorem checkTree_parallel {v w : Value} (renamed : v.Renamed m.id n.id w)
    (produces : n.kind.producesChildren = true) (produces' : m.kind.producesChildren = true) :
    Parallel Eq (d.checkTree n v) (d.checkTree m w : DecodeM σ Unit) := by
  have valid := validate_ok_iff renamed m.found n.found produces' produces
  refine .ite ?_ (.pure rfl)
  rcases checked : v.validate d.schema with e | ⟨⟩ <;>
    rcases checked' : w.validate d.schema with e' | ⟨⟩
  · exact .fail
  · cases checked.symm.trans (valid.mpr checked')
  · cases checked'.symm.trans (valid.mp checked)
  · exact .pure rfl

variable [ByteSource σ]

/-- Decodes of a plain reference and of its structure succeed alike. -/
theorem decodeWhole_parallel (standard : d.evaluator = .standard)
    (plain : d.schema.PlainReference n.id m.id n.element) {body : StructureBody}
    (defines : m.kind = .structure body)
    (uncounted : ∀ k : Node d.schema, (∃ body, k.kind = .offset body) →
      k.lookup .relativeTo ≠ .ok (some n.id))
    (unscripted : ∀ k : Node d.schema, d.schema.Reaches m.id k.id → ¬ k.IsScripted) :
    Parallel (Value.Renamed m.id n.id) (d.decodeWhole n.id) (d.decodeWhole m.id) := by
  have bare : n.kind = .structRef { structure? := some m.id } := plain.kind
  have alike (less : Nat) (id : ElementId) (member : id ∈ m.kind.children) :
      AlikeChild n.id (d.decodeOne less) id := by
    refine decodeOne_like standard (d.schema.Reaches m.id) (fun reached leads => ?_) unscripted
      uncounted less (.single ⟨m, rfl, .child (.own defines) member⟩)
    exact reached.tail ⟨_, rfl, leads⟩
  have starts (start stop : Nat) :
      (startPlace n.id start stop).Like n.id (startPlace m.id start stop) := by
    refine ⟨⟨rfl, rfl, rfl, fun id _ => ?_⟩, .nil, rfl, rfl⟩
    simp [startPlace, Frame.scope, Frame.Opens]
  unfold decodeWhole node
  simp only [Schema.node?_of_id, pure_bind]
  refine .bind .tell fun start => .bind (.onSource _) fun stop => ?_
  refine .bind_of (decodeOne_parallel standard plain defines (starts start stop) alike) ?_
  intro v w renamed
  have checks := checkTree_parallel (d := d) renamed (by rw [bare]; rfl) (by rw [defines]; rfl)
  exact .bind checks fun _ => .pure renamed

end Whole

/-- A reference to a structure is transparent. In a schema without lint errors, take a reference
without a template and a parent, from which no pointer counts and behind whose structure no element
is decoded by a script. With the standard evaluator a decode of the reference succeeds where one of
the structure does; then the two values are the same but for the id of the root, the warnings are
the same, and the source is left at the same point. -/
theorem structRef_transparent {σ : Type} [ByteSource σ] (d : Decoder σ) (clean : d.schema.LintClean)
    (standard : d.evaluator = .standard) {ref target : ElementId} {e : Element}
    (plain : d.schema.PlainReference ref target e)
    (uncounted : ∀ n : Node d.schema, (∃ body, n.kind = .offset body) →
      n.lookup .relativeTo ≠ .ok (some ref))
    (unscripted : ∀ n : Node d.schema, d.schema.Reaches target n.id → ¬ n.IsScripted) (source : σ) :
    ((∃ v warnings, (d.decodeElement ref source).result = .ok (v, warnings)) ↔
      ∃ v warnings, (d.decodeElement target source).result = .ok (v, warnings)) ∧
    ∀ v w warnings warnings', (d.decodeElement ref source).result = .ok (v, warnings) →
      (d.decodeElement target source).result = .ok (w, warnings') →
        v = { w with element := ref } ∧ warnings = warnings' ∧
          (d.decodeElement ref source).source = (d.decodeElement target source).source := by
  obtain ⟨structured, found, isStructure⟩ := clean.reference plain.found plain.kind plain.names
  obtain ⟨body, defines⟩ : ∃ body, structured.kind = .structure body := by
    cases kind : structured.kind with
    | «structure» body => exact ⟨body, rfl⟩
    | _ =>
      rw [kind] at isStructure
      cases isStructure
  have ends := decodeWhole_parallel (n := ⟨ref, e, plain.found⟩) (m := ⟨target, structured, found⟩)
    standard plain defines uncounted unscripted { source := source } { source := source }
    ⟨rfl, rfl, rfl, nofun⟩
  rw [decodeElement_eq, decodeElement_eq]
  dsimp only at ends ⊢
  generalize (d.decodeWhole ref).ending { source := source } = l at ends ⊢
  generalize (d.decodeWhole target).ending { source := source } = r at ends ⊢
  cases ends with
  | threw => exact ⟨⟨nofun, nofun⟩, nofun⟩
  | returned renamed related =>
    refine ⟨⟨fun _ => ⟨_, _, rfl⟩, fun _ => ⟨_, _, rfl⟩⟩, ?_⟩
    rintro _ _ _ _ ⟨⟩ ⟨⟩
    exact ⟨renamed.same, congrArg List.reverse related.warnings, related.source⟩

/-- A structure with a count, a pointer that is relative to it, and so many further instances of it
by reference. -/
def folded : Decoder Slice where
  schema :=
    { elements := #[
        ⟨{ repeatMin := some (.expression "n"), repeatMax := some (.expression "n") },
          .structRef { structure? := some ⟨1⟩ }⟩,
        ⟨{}, .structure { children := [⟨2⟩, ⟨3⟩, ⟨0⟩] }⟩,
        ⟨{ name := some "n" }, .number { extent := { length := some (.literal 1) } }⟩,
        ⟨{}, .offset
          { extent := { length := some (.literal 1) }
            references := some ⟨2⟩
            relativeTo := some ⟨1⟩ }⟩]
      root := ⟨0⟩ }
  options := { maxDepth := 4, maxRepeat := 4 }

def foldedBytes : Slice := ⟨#[9, 1, 3, 0, 0], 1⟩

def foldedValue : Value :=
  let side : Value := ⟨⟨2⟩, 4, 1, some .little, .number (.unsigned 0) none [] none, []⟩
  ⟨⟨1⟩, 1, 4, none, .none,
    [⟨⟨2⟩, 1, 1, some .little, .number (.unsigned 1) none [] none, []⟩,
      ⟨⟨3⟩, 2, 1, some .little, .offset 3 (some 4) (some side), []⟩,
      ⟨⟨0⟩, 3, 2, none, .none,
        [⟨⟨2⟩, 3, 1, some .little, .number (.unsigned 0) none [] none, []⟩,
          ⟨⟨3⟩, 4, 1, some .little, .offset 0 none none, []⟩]⟩]⟩

theorem folded_plain :
    folded.schema.PlainReference ⟨0⟩ ⟨1⟩
      ⟨{ repeatMin := some (.expression "n"), repeatMax := some (.expression "n") },
        .structRef { structure? := some ⟨1⟩ }⟩ :=
  ⟨rfl, rfl, rfl, rfl⟩

/-- Only pointers have a base, and the one that is there counts from the structure. -/
theorem folded_element (n : Node folded.schema) :
    ¬ n.IsScripted ∧
      ((∃ body, n.kind = .offset body) → n.lookup .relativeTo ≠ .ok (some ⟨0⟩)) := by
  have counts : folded.schema.lookup .relativeTo ⟨3⟩ = .ok (some ⟨1⟩) := by cbv
  obtain ⟨⟨i⟩, e, found⟩ := n
  have small : i < 4 := Schema.index_lt_size_of_get? found
  obtain rfl | before : i = 3 ∨ i < 3 := by omega
  · cases found
    refine ⟨?_, fun _ other => ?_⟩
    · rintro (⟨_, ⟨⟩⟩ | ⟨_, ⟨⟩⟩)
    · cases counts.symm.trans other
  · obtain rfl | rfl | rfl : i = 0 ∨ i = 1 ∨ i = 2 := by omega
    all_goals
      cases found
      refine ⟨?_, ?_⟩
      · rintro (⟨_, ⟨⟩⟩ | ⟨_, ⟨⟩⟩)
      · rintro ⟨_, ⟨⟩⟩

set_option maxRecDepth 8000 in
theorem structRef_transparent_folded :
    folded.schema.LintClean ∧
      (folded.decodeElement ⟨1⟩ foldedBytes).result = .ok (foldedValue, []) ∧
      (folded.decodeElement ⟨0⟩ foldedBytes).result =
        .ok ({ foldedValue with element := ⟨0⟩ }, []) := by
  have clean : folded.schema.LintClean := by
    have silent : folded.schema.lint = [] := by cbv
    rw [Schema.LintClean, silent]
    exact List.forall_mem_nil _
  have decodes : (folded.decodeElement ⟨1⟩ foldedBytes).result = .ok (foldedValue, []) := by cbv
  have transparent := structRef_transparent folded clean rfl folded_plain
    (fun n => (folded_element n).2) (fun n _ => (folded_element n).1) foldedBytes
  obtain ⟨v, warnings, referred⟩ := transparent.1.mpr ⟨_, _, decodes⟩
  obtain ⟨rfl, rfl, -⟩ := transparent.2 _ _ _ _ referred decodes
  exact ⟨clean, decodes, referred⟩

end Decoder

end BinaryTemplate
