import BinaryTemplate.Proofs.LintClean

/-!
# Links that hold

Where the linter finds no error, the links that a decode goes along hold: they are there where an
element needs them, they do not dangle, and they lead to elements of the right kind. A decode looks
a link up just as the linter does, so none of its steps fails with a broken link. What it may still
miss is a value that its data has not given yet, of the element that a pointer is relative to or of
the one that gives the size of a region.
-/

namespace BinaryTemplate

/-! ## Schemas -/

namespace Schema

variable {s : Schema}

/-- A link is there and leads to an element of the right kind. -/
def Leads (s : Schema) (link : Option ElementId) (isRight : Kind → Bool) : Prop :=
  ∃ id e, link = some id ∧ s.get? id = some e ∧ isRight e.kind = true

/-- The links that a decode goes along: those to children and to what is referenced do not dangle,
and every other one is there and leads to the right kind of element. -/
structure LinksHold (s : Schema) : Prop where
  child : ∀ (n : Node s), ∀ id ∈ n.kind.children, (s.get? id).isSome
  start : ∀ (n : Node s) body id, n.kind = .grammar body → body.start = some id →
    (s.get? id).isSome
  references : ∀ (n : Node s) body id, n.kind = .offset body →
    n.lookup .references = .ok (some id) → (s.get? id).isSome
  definition : ∀ (n : Node s) body link, n.kind = .structRef body →
    n.lookup .structure? = .ok link → s.Leads link Lint.isStructure
  script : ∀ (n : Node s) body link, n.kind = .custom body →
    n.lookup .script = .ok link → s.Leads link Lint.isScript
  grammar : ∀ (n : Node s) body link, n.kind = .grammarRef body → n.disabled = .ok false →
    n.lookup .grammar = .ok link → s.Leads link Lint.isGrammar

theorem isSome_of_danglingLink {what : String} {id : ElementId}
    (none : Lint.danglingLink s what (some id) = []) : (s.get? id).isSome := by
  cases found : s.get? id with
  | none => simp [Lint.danglingLink, found] at none
  | some e => rfl

theorem leads_of_checkLink {link : Option ElementId} {what : String} {isRight : Kind → Bool}
    {rule : LintRule} (none : Lint.checkLink s (.ok link) what isRight rule = []) :
    s.Leads link isRight := by
  cases link with
  | none => simp [Lint.checkLink, Except.toOption] at none
  | some id =>
    cases found : s.get? id with
    | none => simp [Lint.checkLink, Except.toOption, found] at none
    | some e =>
      refine ⟨id, e, rfl, found, ?_⟩
      simpa [Lint.checkLink, Except.toOption, found] using none

theorem severity_of_danglingLink {what : String} {link : Option ElementId} {f : Lint.Finding}
    (finding : f ∈ Lint.danglingLink s what link) : f.1.severity = .error := by
  unfold Lint.danglingLink at finding
  grind [LintRule.severity, Lint.dangling]

namespace LintClean

variable (clean : s.LintClean) (n : Node s)

include clean

/-- What the kind of an element calls for is there, as far as its findings would be errors. -/
theorem checkKind_eq_nil {findings : List Lint.Finding} (listed : findings ⊆ Lint.checkKind n)
    (errors : ∀ {f}, f ∈ findings → f.1.severity = .error) : findings = [] := by
  refine clean.eq_nil (n := n) (fun f finding => ?_) errors
  exact List.mem_append_right _ (listed finding)

theorem checkChildren_eq_nil : Lint.checkChildren s n.element = [] := by
  refine clean.eq_nil (n := n) (fun f finding => ?_) fun finding => ?_
  · exact List.mem_append_left _ (List.mem_append_right _ finding)
  · obtain ⟨child, -, dangles⟩ := List.mem_flatMap.mp finding
    exact severity_of_danglingLink dangles

/-- A link that the linter checks for an element leads where it should. -/
theorem leads {link : Option ElementId} {isRight : Kind → Bool} (what : String) (rule : LintRule)
    (isError : rule.severity = .error)
    (checked : Lint.checkKind n = Lint.checkLink s (.ok link) what isRight rule) :
    s.Leads link isRight := by
  have none : Lint.checkLink s (.ok link) what isRight rule = [] := by
    refine clean.checkKind_eq_nil n ?_ (severity_of_checkLink isError)
    rw [checked]
    exact List.Subset.refl _
  exact leads_of_checkLink none

theorem linksHold : s.LinksHold where
  child n id member := by
    have none := List.flatMap_eq_nil_iff.mp (clean.checkChildren_eq_nil n) id member
    exact isSome_of_danglingLink none
  start n body id kind named := by
    have none : Lint.danglingLink s "start" (some id) = [] := by
      refine clean.checkKind_eq_nil n ?_ severity_of_danglingLink
      simp only [Lint.checkKind, kind, named, List.Subset.refl]
    exact isSome_of_danglingLink none
  references n body id kind named := by
    have none : Lint.danglingLink s "references" (some id) = [] := by
      refine clean.checkKind_eq_nil n (fun f finding => ?_) severity_of_danglingLink
      simp only [Lint.checkKind, kind, Lint.checkOffset, named, Except.toOption, Option.join_some,
        List.mem_append]
      exact .inl (.inl finding)
    exact isSome_of_danglingLink none
  definition n body link kind named := by
    refine clean.leads n "structure" .missingStructure rfl ?_
    simp only [Lint.checkKind, kind, named]
  script n body link kind named := by
    refine clean.leads n "script" .missingScript rfl ?_
    simp only [Lint.checkKind, kind, named]
  grammar n body link kind enabled named := by
    refine clean.leads n "grammar" .missingGrammar rfl ?_
    simp only [Lint.checkKind, kind, enabled, named, Except.toOption, Option.getD_some,
      Bool.false_eq_true, if_false]

end LintClean

end Schema

/-! ## Steps -/

namespace Failure

/-- A link that leads nowhere or to the wrong kind of element. A value that is not decoded yet is no
such link. -/
def isBroken : Failure → Bool
  | .unresolved (.baseNotDecoded _) => false
  | .unresolved (.sizeNotDecoded _) => false
  | .unresolved _ => true
  | _ => false

theorem isBroken_eq_false_iff {f : Failure} :
    f.isBroken = false ↔ ∀ link, f = .unresolved link →
      ∃ id, link = .baseNotDecoded id ∨ link = .sizeNotDecoded id := by
  constructor
  · rintro whole link rfl
    cases link with
    | baseNotDecoded id => exact ⟨id, .inl rfl⟩
    | sizeNotDecoded id => exact ⟨id, .inr rfl⟩
    | _ => cases whole
  · intro only
    cases f with
    | unresolved link =>
      obtain ⟨id, rfl | rfl⟩ := only link rfl
      · rfl
      · rfl
    | _ => rfl

end Failure

namespace DecodeM

variable {σ α β : Type} {s : Schema} {n : Node s} {offset : Nat}

/-- A step that does not fail with a broken link. -/
def Linked (step : DecodeM σ α) : Prop :=
  ∀ st e after, Throws step st e after → e.failure.isBroken = false

namespace Linked

theorem of_not_throws {step : DecodeM σ α} (never : ∀ {st e after}, ¬ Throws step st e after) :
    Linked step :=
  fun _ _ _ thrown => absurd thrown never

theorem pure (a : α) : Linked (Pure.pure a : DecodeM σ α) := of_not_throws throws_pure

theorem get : Linked (MonadState.get : DecodeM σ (DecodeState σ)) := of_not_throws throws_get

theorem record (event : Event) : Linked (DecodeM.record event : DecodeM σ Unit) :=
  of_not_throws throws_record

theorem align : Linked (DecodeM.align : DecodeM σ Unit) := of_not_throws throws_align

theorem setPending (bits : List Bool) : Linked (DecodeM.setPending bits : DecodeM σ Unit) :=
  of_not_throws throws_setPending

theorem throw {e : DecodeError} (whole : e.failure.isBroken = false) :
    Linked (MonadExcept.throw e : DecodeM σ α) := by
  intro st _ after thrown
  obtain ⟨rfl, -⟩ := throws_throw.mp thrown
  exact whole

theorem fail {failure : Failure} (whole : failure.isBroken = false) :
    Linked (DecodeM.fail n offset failure : DecodeM σ α) :=
  throw whole

theorem resolved (r : Except CycleError α) :
    Linked (DecodeM.resolved n offset r : DecodeM σ α) := by
  intro st e after thrown
  obtain ⟨cycle, -, rfl, -⟩ := throws_resolved.mp thrown
  rfl

theorem onSource (operation : SourceM σ α) : Linked (DecodeM.onSource n offset operation) := by
  intro st e after thrown
  obtain ⟨fault, source, -, rfl, -⟩ := throws_onSource.mp thrown
  cases fault <;> rfl

theorem bind_of_returns {step : DecodeM σ α} {next : α → DecodeM σ β} (first : Linked step)
    (rest : ∀ a st mid, Returns step st a mid → Linked (next a)) : Linked (step >>= next) := by
  intro st e after thrown
  obtain thrown | ⟨a, mid, returned, thrown⟩ := throws_bind.mp thrown
  · exact first _ _ _ thrown
  · exact rest a st mid returned _ _ _ thrown

theorem bind {step : DecodeM σ α} {next : α → DecodeM σ β} (first : Linked step)
    (rest : ∀ a, Linked (next a)) : Linked (step >>= next) :=
  bind_of_returns first fun a _ _ _ => rest a

/-- What is found by a lookup is known behind it. -/
theorem resolved_bind {r : Except CycleError α} {next : α → DecodeM σ β}
    (rest : ∀ a, r = .ok a → Linked (next a)) :
    Linked (DecodeM.resolved n offset r >>= next) :=
  bind_of_returns (resolved r) fun a _ _ returned => rest a (returns_resolved.mp returned).1

theorem ite {c : Prop} [Decidable c] {yes no : DecodeM σ α} (holds : Linked yes)
    (fails : Linked no) : Linked (if c then yes else no) := by
  by_cases h : c
  · rw [if_pos h]
    exact holds
  · rw [if_neg h]
    exact fails

/-- A step that fails under a condition, in front of another step. -/
theorem guard {c : Prop} [Decidable c] {failure : Failure} {next : α → DecodeM σ β}
    {rest : DecodeM σ β} (whole : failure.isBroken = false) (otherwise : Linked rest) :
    Linked (if c then DecodeM.fail n offset failure >>= next else rest) :=
  ite (bind_of_returns (fail whole) fun _ _ _ returned => absurd returned returns_fail) otherwise

/-- An attempt, with what is done about its outcome. -/
theorem attempt {step : DecodeM σ α} {next : Except DecodeError α → DecodeM σ β}
    (first : Linked step) (ok : ∀ a, Linked (next (.ok a)))
    (error : ∀ e, e.failure.isBroken = false → Linked (next (.error e))) :
    Linked (DecodeM.outcome step >>= next) := by
  refine bind_of_returns (of_not_throws throws_outcome) fun r st mid ended => ?_
  rcases returns_outcome.mp ended with ⟨a, rfl, -⟩ | ⟨e, rfl, thrown⟩
  · exact ok a
  · exact error e (first _ _ _ thrown)

theorem closing {back : DecodeM σ Unit} {reword : DecodeError → DecodeError} {step : DecodeM σ α}
    (rewords : Rewords reword) (puts : Linked back) (first : Linked step) :
    Linked (closing back reword step) := by
  intro st e after thrown
  rcases closing_throws.mp thrown with ⟨r, mid, -, failed⟩ | ⟨cause, mid, failed, -, rfl⟩
  · exact puts _ _ _ failed
  · have whole := first _ _ _ failed
    rcases rewords cause with same | ⟨-, _, _, overrun⟩
    · rwa [same]
    · rw [overrun]
      rfl

variable [ByteSource σ]

theorem tell : Linked (DecodeM.tell n : DecodeM σ Nat) := onSource _

theorem tellAt : Linked (DecodeM.tellAt n offset : DecodeM σ Nat) := onSource _

theorem seek (position : Nat) : Linked (DecodeM.seek n offset position : DecodeM σ Unit) :=
  bind (onSource _) fun _ => pure ()

theorem take : Linked (Mark.take n : DecodeM σ Mark) :=
  bind tell fun _ => bind get fun _ => pure _

theorem rewind (mark : Mark) : Linked (mark.rewind n : DecodeM σ Unit) :=
  bind (seek _) fun _ => of_not_throws throws_modify

end Linked

end DecodeM

namespace Decoder

open DecodeM

variable {σ : Type} {d : Decoder σ} {p : Place} {n : Node d.schema} {offset : Nat}

theorem node_linked {id : ElementId} (present : (d.schema.get? id).isSome) :
    Linked (d.node id offset) := by
  obtain ⟨e, found⟩ := Option.isSome_iff_exists.mp present
  obtain ⟨n, known, -⟩ := Schema.node?_of_get? found
  unfold node
  rw [known]
  exact .pure n

/-- Behind a link that leads to the right kind of element, the node is of that kind. -/
theorem leads_bind_linked {α : Type} {id : ElementId} {isRight : Kind → Bool}
    {next : Node d.schema → DecodeM σ α} (leads : d.schema.Leads (some id) isRight)
    (rest : ∀ n : Node d.schema, isRight n.kind = true → Linked (next n)) :
    Linked (d.node id offset >>= next) := by
  obtain ⟨_, e, ⟨⟩, found, right⟩ := leads
  refine .bind_of_returns (node_linked (Option.isSome_of_eq_some found)) fun n _ _ returned => ?_
  have known := Schema.found_of_node? (node_returns.mp returned).1
  cases found.symm.trans known
  exact rest n right

/-! ## References and lengths -/

theorem evalInteger_linked (r : Reference) : Linked (d.evalInteger p n offset r) := by
  cases r with
  | literal k => exact .pure k
  | expression text =>
    simp only [evalInteger]
    rcases d.evaluator.evaluate (p.context d.schema) text with e | ⟨k | id⟩
    · exact .fail rfl
    · exact .pure k
    · exact .fail rfl

theorem asCount_linked (k : Int) : Linked (d.asCount n offset k) := .ite (.pure _) (.fail rfl)

theorem evalCount_linked (r : Reference) : Linked (d.evalCount p n offset r) :=
  .bind (evalInteger_linked r) fun _ => asCount_linked _

theorem evalAttribute_linked (a : Attribute Reference) :
    Linked (d.evalAttribute p n offset a) := by
  refine .bind (.resolved _) fun r => ?_
  cases r with
  | none => exact .pure none
  | some r => exact .bind (evalInteger_linked r) fun _ => .pure _

theorem toBytes_linked (units : Nat) (unit : LengthUnit) : Linked (d.toBytes n offset units unit) :=
  .ite (.fail rfl) (.ite (.fail rfl) (.pure _))

theorem lengthBytes_linked (length : Reference) : Linked (d.lengthBytes p n offset length) :=
  .bind (evalCount_linked length) fun _ => .bind (.resolved _) fun _ => toBytes_linked _ _

theorem declaredBytes_linked : Linked (d.declaredBytes p n offset) := by
  refine .bind (.resolved _) fun length => ?_
  cases length with
  | none => exact .pure none
  | some length => exact .bind (lengthBytes_linked length) fun _ => .pure _

theorem violation_linked {e : DecodeError} (whole : e.failure.isBroken = false) :
    Linked (d.violation e) :=
  .ite (.throw whole) (.bind (.record _) fun _ => .of_not_throws throws_modify)

/-! ## Fields -/

theorem interpret_linked (kind : NumberKind) (r : RawNumber) : Linked (d.interpret n kind r) := by
  cases kind with
  | unsigned => exact .pure _
  | signed => exact .pure _
  | float => exact .ite (.pure _) (.ite (.pure _) (.fail rfl))

theorem finishNumber_linked (len : Nat) (value : NumberValue) (bits : Option BitSpan)
    (order : ByteOrder) : Linked (d.finishNumber p n offset len value bits order) := by
  have matching : Linked (d.matchNumber n offset value) :=
    .bind (.resolved _) fun _ =>
      .ite (.bind (.resolved _) fun _ =>
        .ite (.bind (violation_linked rfl) fun _ => .pure _) (.pure _)) (.pure _)
  have ranging : Linked (d.checkRange p n offset value) :=
    .bind (evalAttribute_linked _) fun _ => .bind (evalAttribute_linked _) fun _ =>
      .ite (violation_linked rfl) (.pure _)
  exact .bind matching fun _ => .bind ranging fun _ => .bind (.resolved _) fun _ =>
    .bind (.record _) fun _ => .pure _

theorem matchString_linked (text : String) : Linked (d.matchString n offset text) :=
  .bind (.resolved _) fun _ =>
    .ite (.bind (.resolved _) fun _ =>
      .ite (.bind (violation_linked rfl) fun _ => .pure _) (.pure _)) (.pure _)

theorem runScript_linked (host : ScriptHost σ) (script : ScriptBody) (call : ScriptCall) :
    Linked (d.runScript n host script call) := by
  intro st e after thrown
  unfold Throws ending runScript at thrown
  split at thrown
  · cases thrown
  · cases thrown
    rfl

variable [ByteSource σ]

theorem checkBound_linked (count : Nat) : Linked (d.checkBound p n count) :=
  .bind .tell fun _ => .guard rfl (.pure _)

theorem read_linked (count : Nat) : Linked (d.read p n count) :=
  .bind (checkBound_linked count) fun _ => .onSource _

theorem skip_linked (count : Nat) : Linked (d.skip p n count) :=
  .bind (checkBound_linked count) fun _ => .seek _

theorem pullBytes_linked (more consumed : Nat) :
    Linked (d.pullBytes p n offset more consumed) := by
  induction more generalizing consumed with
  | zero => exact .pure []
  | succ more inductionHypothesis =>
    exact .guard rfl (.bind (.onSource _) fun _ => .bind (inductionHypothesis _) fun _ => .pure _)

theorem readBits_linked (width : Nat) : Linked (d.readBits p n width) :=
  .bind .tell fun _ => .bind .get fun _ => .guard rfl <| .bind (pullBytes_linked _ _) fun _ =>
    .bind (.setPending _) fun _ => .bind (.record _) fun _ => .pure _

theorem readBytes_linked (order : ByteOrder) (width : Nat) :
    Linked (d.readBytes p n offset order width) :=
  .bind .align fun _ => .bind .tellAt fun _ => .bind (read_linked _) fun _ =>
    .bind (.record _) fun _ => .pure _

theorem readRaw_linked (order : ByteOrder) : Linked (d.readRaw p n order) := by
  refine .bind .tell fun _ => .bind (.resolved _) fun length => ?_
  cases length with
  | none => exact .fail rfl
  | some length =>
    refine .bind (.resolved _) fun unit => .bind (evalCount_linked length) fun _ => .guard rfl ?_
    cases unit with
    | bit => exact readBits_linked _
    | byte => exact readBytes_linked order _

theorem computedPlace_linked : Linked (d.computedPlace p n offset) := by
  refine .bind (.resolved _) fun length => ?_
  cases length with
  | none => exact .pure _
  | some length =>
    exact .bind .align fun _ => .bind .tellAt fun _ => .bind (lengthBytes_linked length) fun _ =>
      .bind (skip_linked _) fun _ => .pure _

theorem decodeNumber_linked : Linked (d.decodeNumber p n) := by
  refine .bind .tell fun _ => .bind (.resolved _) fun _ => .bind (.resolved _) fun order =>
    .bind (.resolved _) fun expression => ?_
  cases expression with
  | none =>
    exact .bind (readRaw_linked order) fun _ => .bind (interpret_linked _ _) fun _ =>
      finishNumber_linked _ _ _ _
  | some expression =>
    exact .bind (evalInteger_linked expression) fun _ => .bind computedPlace_linked fun _ =>
      finishNumber_linked _ _ _ _

theorem readUntil_linked (terminator : List UInt8) (units : Nat) :
    Linked (d.readUntil p n terminator units) := by
  induction units with
  | zero => exact .pure _
  | succ units inductionHypothesis =>
    exact .bind (read_linked _) fun _ =>
      .ite (.pure _) (.bind inductionHypothesis fun _ => .pure _)

theorem readTerminated_linked (terminator : List UInt8) (declared : Option Nat) :
    Linked (d.readTerminated p n offset terminator declared) := by
  refine .bind (readUntil_linked terminator _) fun _ => ?_
  cases declared with
  | none => exact .guard rfl (.pure _)
  | some slot => exact .bind (skip_linked _) fun _ => .pure _

theorem readFramed_linked (encoding : Text.Encoding) (kind : StringKind) (delimiter : Option UInt8)
    (declared : Option Nat) :
    Linked (d.readFramed p n offset encoding kind delimiter declared) := by
  cases kind with
  | fixedLength => exact .bind (read_linked _) fun _ => .pure _
  | pascal =>
    refine .bind (read_linked 1) fun _ => ?_
    cases declared with
    | none => exact read_linked _
    | some slot =>
      exact .guard rfl (.bind (read_linked _) fun _ => .bind (skip_linked _) fun _ => .pure _)
  | zeroTerminated => exact readTerminated_linked _ declared
  | delimited => exact readTerminated_linked _ declared

theorem decodeString_linked : Linked (d.decodeString p n) := by
  refine .bind .align fun _ => .bind .tell fun _ => .bind (.resolved _) fun label => ?_
  cases d.encodings.ofLabel? label with
  | none => exact .fail rfl
  | some encoding =>
    refine .bind (.resolved _) fun _ => .bind (.resolved _) fun _ =>
      .bind declaredBytes_linked fun declared => .bind (readFramed_linked _ _ _ declared)
      fun bytes => .bind .tellAt fun _ => ?_
    cases d.encodings.decode? encoding bytes with
    | none => exact .fail rfl
    | some chars =>
      exact .bind (matchString_linked _) fun _ => .bind (.record _) fun _ => .pure _

theorem decodeBinary_linked : Linked (d.decodeBinary p n) := by
  have matching {offset count : Nat} {choices : List (NamedValue (List UInt8))} :
      Linked (d.matchBytes p n offset count choices) :=
    .bind (read_linked _) fun _ => .ite (.bind (.resolved _) fun _ =>
      .ite (.bind (violation_linked rfl) fun _ => .pure _) (.pure _)) (.pure _)
  exact .bind .align fun _ => .bind .tell fun _ => .bind declaredBytes_linked fun _ =>
    .bind (.resolved _) fun _ => .ite
      (.bind (skip_linked _) fun _ => .bind (.pure none) fun _ => .bind (.record _) fun _ =>
        .pure _)
      (.bind matching fun _ => .bind (.record _) fun _ => .pure _)

theorem decodeByScript_linked (script : ScriptBody) :
    Linked (d.decodeByScript p n offset script) := by
  unfold decodeByScript
  cases d.scripts with
  | none => exact .fail rfl
  | some host =>
    exact .bind declaredBytes_linked fun _ => .bind (runScript_linked host script _) fun _ =>
      .guard rfl (.bind (.seek _) fun _ => .pure _)

theorem decodeScripted_linked {id : ElementId} (leads : d.schema.Leads (some id) Lint.isScript) :
    Linked (d.decodeScripted p n id) := by
  refine .bind .align fun _ => .bind .tell fun _ =>
    leads_bind_linked leads fun script isScript => ?_
  cases kind : script.kind with
  | script body => exact decodeByScript_linked body
  | _ =>
    rw [kind] at isScript
    cases isScript

/-! ## Containers -/

section Containers

variable {child : d.DecodeChild} (linked : ∀ p n, Linked (child p n))
  (holds : d.schema.LinksHold)

omit [ByteSource σ] in
theorem repeatBounds_linked : Linked (d.repeatBounds p n offset) :=
  .bind (.resolved _) fun min => .bind (evalInteger_linked min) fun _ => .bind (.resolved _)
    fun max => .bind (evalInteger_linked max) fun _ => .guard rfl (.ite (.pure _) (.pure _))

omit [ByteSource σ] in
theorem exhausted_linked {position : Nat} :
    Linked (exhausted p position : DecodeM σ Bool) :=
  .bind .get fun _ => .pure _

omit [ByteSource σ] in
theorem isDisabled_linked : Linked (d.isDisabled n) := by
  unfold isDisabled
  cases n.kind <;> first | exact .resolved _ | exact .pure _

include linked

theorem repeatFrom_linked {min : Nat} {max : Option Nat} (room count : Nat) (p : Place) :
    Linked (d.repeatFrom child n min max room count p) := by
  induction room generalizing count p with
  | zero =>
    rw [repeatFrom.eq_def]
    exact .ite (.pure _) (.bind .take fun _ => .ite
      (.bind exhausted_linked fun _ => .ite (.pure _) (.fail rfl)) (.fail rfl))
  | succ room inductionHypothesis =>
    rw [repeatFrom.eq_def]
    refine .ite (.pure _) (.bind .take fun mark => .ite
      (.bind exhausted_linked fun _ => .ite (.pure _) ?_) ?_)
    -- The next attempt is the same one below the minimum and from there on.
    all_goals
      refine .attempt (linked p n) (fun v => ?_) fun e whole => ?_
      · exact .ite (.pure _) (inductionHypothesis _ _)
      · exact .ite (.bind (.record _) fun _ => .bind (.rewind mark) fun _ => .pure _)
          (.throw whole)

theorem decodeRepeated_linked : Linked (d.decodeRepeated child p n) :=
  .bind .tell fun _ => .bind repeatBounds_linked fun _ => repeatFrom_linked linked _ _ _

theorem decodeDeclared_linked {ids : List ElementId}
    (present : ∀ id ∈ ids, (d.schema.get? id).isSome) (p : Place) :
    Linked (d.decodeDeclared child ids p) := by
  induction ids generalizing p with
  | nil => exact .pure p
  | cons id rest inductionHypothesis =>
    have others := inductionHypothesis fun id member => present id (List.mem_cons_of_mem _ member)
    exact .bind (node_linked (present id List.mem_cons_self)) fun n => .bind isDisabled_linked
      fun _ => .ite (.bind (.record _) fun _ => others p)
        (.bind (decodeRepeated_linked linked) fun p => others p)

omit linked [ByteSource σ] in
theorem alternatives_linked {ids : List ElementId}
    (present : ∀ id ∈ ids, (d.schema.get? id).isSome) :
    Linked (d.alternatives p offset ids) := by
  induction ids with
  | nil => exact .pure []
  | cons id rest inductionHypothesis =>
    have others := inductionHypothesis fun id member => present id (List.mem_cons_of_mem _ member)
    exact .bind (node_linked (present id List.mem_cons_self)) fun n => .bind isDisabled_linked
      fun _ => .ite others (.bind repeatBounds_linked fun _ => .bind others fun _ => .pure _)

theorem firstMatch_linked (mark : Mark) (choices : List (Alternative d.schema)) :
    Linked (d.firstMatch child p n mark choices) := by
  induction choices with
  | nil => exact .pure none
  | cons a rest inductionHypothesis =>
    refine .ite (.bind inductionHypothesis fun _ => .pure _) ?_
    refine .attempt (linked p a.node) (fun v => .pure _) fun e whole => ?_
    refine .ite (.bind_of_returns (.throw whole) fun _ _ _ returned => ?_) ?_
    · exact absurd returned returns_throw
    · exact .bind (.record _) fun _ => .bind (.rewind mark) fun _ =>
        .bind inductionHypothesis fun _ => .pure _

theorem decodeChoices_linked (room : Nat) (p : Place) (choices : List (Alternative d.schema)) :
    Linked (d.decodeChoices child n room p choices) := by
  induction room generalizing p choices with
  | zero =>
    rw [decodeChoices.eq_def]
    refine .bind .take fun mark => .bind exhausted_linked fun _ => .ite (.pure _) <|
      .bind (firstMatch_linked linked mark choices) fun found => ?_
    cases found with
    | none => exact .pure _
    | some found => exact .ite (.pure _) (.fail rfl)
  | succ room inductionHypothesis =>
    rw [decodeChoices.eq_def]
    refine .bind .take fun mark => .bind exhausted_linked fun _ => .ite (.pure _) <|
      .bind (firstMatch_linked linked mark choices) fun found => ?_
    cases found with
    | none => exact .pure _
    | some found => exact .ite (.pure _) (inductionHypothesis _ _)

omit linked [ByteSource σ] in
theorem checkMinimums_linked (choices : List (Alternative d.schema)) :
    Linked (d.checkMinimums offset choices) := by
  induction choices with
  | nil => exact .pure ()
  | cons a rest inductionHypothesis => exact .guard rfl inductionHypothesis

theorem decodeContent_linked {ids : List ElementId} {order : ChildOrder}
    (present : ∀ id ∈ ids, (d.schema.get? id).isSome) :
    Linked (d.decodeContent child n ids order p) := by
  cases order with
  | declared => exact decodeDeclared_linked linked present p
  | anyOf =>
    exact .bind .tell fun _ => .bind (alternatives_linked present) fun choices =>
      .bind (decodeChoices_linked linked _ _ choices) fun _ =>
      .bind (checkMinimums_linked _) fun _ => .pure _

omit linked [ByteSource σ] in
theorem containerStop_linked (start : Nat) (declared : Option Nat) :
    Linked (d.containerStop p n start declared) := by
  cases declared with
  | none => exact .pure _
  | some len => exact .ite (.pure _) (.fail rfl)

omit linked [ByteSource σ] in
theorem containerLength_linked (start consumed : Nat) (declared : Option Nat) :
    Linked (d.containerLength n start consumed declared) := by
  cases declared with
  | none => exact .pure _
  | some len => exact .ite (.pure _) (.fail rfl)

theorem decodeContainer_linked {definition : Option ElementId} {ids : List ElementId}
    {order : ChildOrder} {declared : Option Nat}
    (present : ∀ id ∈ ids, (d.schema.get? id).isSome) :
    Linked (d.decodeContainer child p n definition ids order declared) := by
  rw [decodeContainer_eq_closing]
  refine .bind .align fun _ => .bind .tell fun start => .bind (containerStop_linked _ _) fun stop =>
    .bind (.record _) fun _ => .bind ?_ fun inside => .bind .tellAt fun _ =>
    .bind (containerLength_linked _ _ _) fun _ => .pure _
  exact .closing (contentFailure_rewords stop) .align (decodeContent_linked linked present)

omit linked [ByteSource σ] in
theorem structureLength_linked : Linked (d.structureLength p n offset) := by
  refine .bind (.resolved _) fun length => ?_
  cases length with
  | none => exact .pure none
  | some length =>
    exact .bind (evalCount_linked length) fun _ => .bind (evalAttribute_linked _) fun _ =>
      .bind (asCount_linked _) fun _ => .bind (.resolved _) fun _ => .bind (toBytes_linked _ _)
      fun _ => .pure _

include holds

theorem decodeStructure_linked (definition : Node d.schema) :
    Linked (d.decodeStructure child p n definition) :=
  .bind .align fun _ => .bind .tell fun _ => .bind (.resolved _) fun _ =>
    .bind structureLength_linked fun _ => decodeContainer_linked linked (holds.child definition)

theorem decodeStructRef_linked {body : StructRefBody} (refers : n.kind = .structRef body) :
    Linked (d.decodeStructRef child p n offset) := by
  refine .resolved_bind fun link known => ?_
  obtain ⟨target, e, rfl, found, isStructure⟩ := holds.definition n body link refers known
  refine leads_bind_linked ⟨target, e, rfl, found, isStructure⟩ fun definition right => ?_
  cases kind : definition.kind with
  | «structure» => exact decodeStructure_linked linked holds definition
  | _ =>
    rw [kind] at right
    cases right

omit [ByteSource σ] in
theorem decodeGrammarRef_linked {body : GrammarRefBody} (refers : n.kind = .grammarRef body) :
    Linked (d.decodeGrammarRef child p n offset) := by
  refine .resolved_bind fun disabled enabled => ?_
  cases disabled with
  | true => exact .pure _
  | false =>
    refine .resolved_bind fun link known => ?_
    obtain ⟨target, e, rfl, found, isGrammar⟩ := holds.grammar n body link refers enabled known
    refine leads_bind_linked ⟨target, e, rfl, found, isGrammar⟩ fun grammar right => ?_
    cases kind : grammar.kind with
    | grammar => exact linked p grammar
    | _ =>
      rw [kind] at right
      cases right

/-! ## Offsets -/

omit linked holds [ByteSource σ] in
theorem baseAddress_linked (base : ElementId) : Linked (d.baseAddress p n offset base) := by
  refine .ite (.pure _) ?_
  dsimp only
  split
  · exact .pure _
  · exact .fail rfl

omit linked holds [ByteSource σ] in
theorem targetAddress_linked (pointer : Nat) : Linked (d.targetAddress p n offset pointer) := by
  refine .ite (.bind (.resolved _) fun _ => .ite (.pure none) ?_) ?_
  -- The address is worked out alike for null pointers that are followed and for all others.
  all_goals
    refine .bind (.resolved _) fun base => ?_
    cases base with
    | none =>
      exact .bind (.pure 0) fun _ => .bind (evalAttribute_linked _) fun _ =>
        .ite (.pure _) (.fail rfl)
    | some base =>
      exact .bind (baseAddress_linked base) fun _ => .bind (evalAttribute_linked _) fun _ =>
        .ite (.pure _) (.fail rfl)

omit linked holds [ByteSource σ] in
theorem referencedSize_linked : Linked (d.referencedSize? p n offset) := by
  refine .bind (.resolved _) fun sizeId => ?_
  cases sizeId with
  | none => exact .pure none
  | some sizeId =>
    dsimp only
    split
    · exact .fail rfl
    · split
      · exact .ite (.pure _) (.fail rfl)
      · exact .fail rfl

omit holds in
theorem follow_linked (target : Nat) {element : ElementId}
    (present : (d.schema.get? element).isSome) :
    Linked (d.follow child p n offset target element) := by
  refine .guard rfl <| .bind (node_linked present) fun referenced => .bind referencedSize_linked
    fun _ => .bind (.ite (.pure _) (.fail rfl)) fun _ => .bind .tellAt fun resume =>
    .bind (.record _) fun _ => .bind (.seek _) fun _ => .bind .get fun st =>
    .bind (.setPending _) fun _ => ?_
  rw [resume_eq_closing]
  exact .closing rewords_id (.bind (.setPending _) fun _ => .seek _) (linked _ referenced)

theorem decodeOffset_linked {body : OffsetBody} (points : n.kind = .offset body) :
    Linked (d.decodeOffset child p n) := by
  have following (offset : Nat) (target : Option Nat) :
      Linked (d.followTarget child p n offset target) := by
    refine .resolved_bind fun element known => ?_
    cases target with
    | none => exact .pure none
    | some target =>
      cases element with
      | none => exact .pure none
      | some element =>
        have present := holds.references n body element points known
        exact .bind (follow_linked linked target present) fun _ => .pure _
  exact .bind .tell fun _ => .bind (.resolved _) fun order => .bind (readRaw_linked order) fun _ =>
    .bind (targetAddress_linked _) fun _ => .bind (following _ _) fun _ => .pure _

/-! ## Elements -/

theorem decodeKind_linked : Linked (d.decodeKind child p n offset) := by
  unfold decodeKind
  cases kind : n.kind with
  | grammar body =>
    refine decodeContainer_linked linked ?_
    intro id member
    cases started : body.start with
    | none =>
      rw [started] at member
      refine holds.child n id ?_
      rw [kind]
      exact member
    | some start =>
      rw [started] at member
      cases List.mem_singleton.mp member
      exact holds.start n body id kind started
  | grammarRef body => exact decodeGrammarRef_linked linked holds kind
  | «structure» => exact decodeStructure_linked linked holds n
  | structRef body => exact decodeStructRef_linked linked holds kind
  | number => exact decodeNumber_linked
  | string => exact decodeString_linked
  | binary => exact decodeBinary_linked
  | custom body =>
    refine .resolved_bind fun link known => ?_
    have leads := holds.script n body link kind known
    obtain ⟨script, -, rfl, -⟩ := id leads
    exact decodeScripted_linked leads
  | offset body => exact decodeOffset_linked linked holds kind
  | script body =>
    refine decodeScripted_linked ⟨n.id, n.element, rfl, n.found, ?_⟩
    rw [← Node.kind, kind]
    rfl

end Containers

variable (holds : d.schema.LinksHold)

include holds

theorem decodeOne_linked (depth : Nat) (p : Place) (n : Node d.schema) :
    Linked (d.decodeOne depth p n) := by
  induction depth generalizing p n with
  | zero => exact .bind (.record _) fun _ => .bind .tell fun _ => .fail rfl
  | succ depth inductionHypothesis =>
    exact .bind (.record _) fun _ => .bind .tell fun _ =>
      decodeKind_linked inductionHypothesis holds

theorem decodeWhole_linked {element : ElementId} (present : (d.schema.get? element).isSome) :
    Linked (d.decodeWhole element) := by
  have checking (n : Node d.schema) (v : Value) : Linked (d.checkTree n v) := by
    refine .ite ?_ (.pure ())
    rcases v.validate d.schema with e | ⟨⟩
    · exact .fail rfl
    · exact .pure ()
  exact .bind (node_linked present) fun n => .bind .tell fun _ => .bind (.onSource _) fun _ =>
    .bind (decodeOne_linked holds _ _ n) fun v => .bind (checking n v) fun _ => .pure v

/-- A decode that fails with a link that it cannot follow misses a value that is not decoded yet. -/
theorem decodeElement_linked {element : ElementId} (present : (d.schema.get? element).isSome)
    {source : σ} {e : DecodeError} (failed : (d.decodeElement element source).result = .error e)
    {link : BrokenLink} (unresolved : e.failure = .unresolved link) :
    ∃ id, link = .baseNotDecoded id ∨ link = .sizeNotDecoded id := by
  obtain ⟨after, thrown⟩ := decodeElement_throws failed
  have linked := decodeWhole_linked holds present _ _ _ thrown
  exact Failure.isBroken_eq_false_iff.mp linked link unresolved

end Decoder

/-! ## What the linter promises -/

namespace Schema

/-- In a schema without lint errors all links hold that a decode goes along. No decode of an element
of it, and none from an existing root, fails with a broken link: where it cannot follow a link, the
element that a pointer is relative to is neither open nor decoded, or the one that gives the size of
a region is not decoded. -/
theorem lintClean_links_hold {s : Schema} (clean : s.LintClean) :
    s.LinksHold ∧
    ∀ {σ : Type} [ByteSource σ] (d : Decoder σ), d.schema = s → ∀ source e link,
      e.failure = .unresolved link →
      (∀ element, (s.get? element).isSome → (d.decodeElement element source).result = .error e →
        ∃ id, link = .baseNotDecoded id ∨ link = .sizeNotDecoded id) ∧
      ((s.get? s.root).isSome → (d.decode source).result = .error e →
        ∃ id, link = .baseNotDecoded id ∨ link = .sizeNotDecoded id) := by
  refine ⟨clean.linksHold, ?_⟩
  rintro σ _ d rfl source e link unresolved
  exact ⟨fun element present failed =>
      Decoder.decodeElement_linked clean.linksHold present failed unresolved,
    fun present failed => Decoder.decodeElement_linked clean.linksHold present failed unresolved⟩

/-- A grammar with a link of every kind. The reference to another grammar is switched off and needs
none. -/
def wired : Schema where
  elements := #[
    ⟨{}, .grammar { children := [⟨1⟩], start := some ⟨1⟩ }⟩,
    ⟨{}, .structure { children := [⟨2⟩, ⟨3⟩, ⟨4⟩, ⟨5⟩] }⟩,
    ⟨{}, .grammarRef { disabled := some true }⟩,
    ⟨{}, .offset
      { extent := { length := some (.literal 1) }
        references := some ⟨6⟩
        relativeTo := some ⟨6⟩ }⟩,
    ⟨{}, .structRef { structure? := some ⟨6⟩ }⟩,
    ⟨{}, .custom { script := some ⟨7⟩ }⟩,
    ⟨{}, .structure {}⟩,
    ⟨{}, .script {}⟩]
  root := ⟨0⟩

def wiredDecoder : Decoder Slice where
  schema := wired
  options := { maxDepth := 4, maxRepeat := 2 }

set_option maxRecDepth 8000 in
/-- The pointer comes before the structure that it is relative to. -/
theorem lintClean_links_hold_wired :
    wired.LintClean ∧ wired.LinksHold ∧
    (wiredDecoder.decode ⟨#[1, 0], 0⟩).result =
      .error ⟨⟨3⟩, "offset#3", 0, .unresolved (.baseNotDecoded ⟨6⟩)⟩ ∧
    ∀ source e link, (wiredDecoder.decode source).result = .error e →
      e.failure = .unresolved link →
        ∃ id, link = .baseNotDecoded id ∨ link = .sizeNotDecoded id := by
  have clean : wired.LintClean := by
    have silent : wired.lint = [] := by cbv
    rw [LintClean, silent]
    exact List.forall_mem_nil _
  refine ⟨clean, (lintClean_links_hold clean).1, by cbv, fun source e link failed unresolved => ?_⟩
  exact ((lintClean_links_hold clean).2 wiredDecoder rfl source e link unresolved).2 rfl failed

end Schema

end BinaryTemplate
