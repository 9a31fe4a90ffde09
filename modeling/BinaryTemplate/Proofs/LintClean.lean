import BinaryTemplate.Proofs.Container
import BinaryTemplate.Proofs.CycleGuard
import BinaryTemplate.Proofs.ElementCongruence
import BinaryTemplate.Proofs.LintCycles

/-!
# Schemas without lint errors

In a schema without lint errors no element comes back to itself by templates alone or by parents
alone, and a structure reference leads to a structure, which is a container and never leads back to
a reference. So what is left for a cycle of fallback links are templates and parents in turn. The
linter follows each of the two links apart and does not see such a cycle; a lookup of an attribute
that follows parents fails on it.
-/

namespace BinaryTemplate

open Relation (ReflTransGen TransGen)

namespace Schema

variable {s : Schema} {id next : ElementId} {e : Element}

/-- The linter finds nothing but warnings. -/
def LintClean (s : Schema) : Prop := ∀ m ∈ s.lint, m.rule.severity ≠ .error

instance : Decidable s.LintClean := inferInstanceAs (Decidable (∀ m ∈ s.lint, _))

/-- Templates and, for attributes that follow them, parents: the links on which a schema without
lint errors can still have cycles. -/
def Inherits (s : Schema) (scope : Scope) (id next : ElementId) : Prop :=
  Lint.step s (·.traits.template) id = some next ∨
    scope = .structural ∧ Lint.step s (·.traits.parent) id = some next

/-! ## What the rules say -/

theorem step_eq_some {link : Element → Option ElementId} :
    Lint.step s link id = some next ↔ ∃ e, s.get? id = some e ∧ link e = some next :=
  Option.bind_eq_some_iff

theorem severity_of_checkTemplate {f : Lint.Finding} (finding : f ∈ Lint.checkTemplate s id e) :
    f.1.severity = .error := by
  unfold Lint.checkTemplate at finding
  grind [LintRule.severity, Lint.dangling]

theorem severity_of_checkParent {f : Lint.Finding} (finding : f ∈ Lint.checkParent s id e) :
    f.1.severity = .error := by
  unfold Lint.checkParent at finding
  grind [LintRule.severity, Lint.dangling]

theorem severity_of_checkLink {link : Except CycleError (Option ElementId)} {what : String}
    {isRight : Kind → Bool} {rule : LintRule} (isError : rule.severity = .error)
    {f : Lint.Finding} (finding : f ∈ Lint.checkLink s link what isRight rule) :
    f.1.severity = .error := by
  unfold Lint.checkLink at finding
  grind [LintRule.severity, Lint.dangling]

namespace LintClean

variable (clean : s.LintClean)

include clean

/-- Rules whose findings are errors find nothing. -/
theorem eq_nil {n : Node s} {findings : List Lint.Finding} (listed : findings ⊆ Lint.checkNode n)
    (errors : ∀ {f}, f ∈ findings → f.1.severity = .error) : findings = [] := by
  refine List.eq_nil_iff_forall_not_mem.mpr fun f finding => ?_
  refine clean ⟨n.id, n.label, f.1, f.2⟩ ?_ (errors finding)
  exact Lint.mem_lint_iff.mpr ⟨n, listed finding, rfl, rfl⟩

theorem checkTemplate_eq_nil (found : s.get? id = some e) : Lint.checkTemplate s id e = [] := by
  refine clean.eq_nil (n := ⟨id, e, found⟩) (fun f finding => ?_) severity_of_checkTemplate
  simp only [Lint.checkNode, List.mem_append]
  exact .inl (.inl (.inl finding))

theorem checkParent_eq_nil (found : s.get? id = some e) : Lint.checkParent s id e = [] := by
  refine clean.eq_nil (n := ⟨id, e, found⟩) (fun f finding => ?_) severity_of_checkParent
  simp only [Lint.checkNode, List.mem_append]
  exact .inl (.inl (.inr finding))

/-- A template is an element of the same kind. -/
theorem template (found : s.get? id = some e) (named : e.traits.template = some next) :
    ∃ base, s.get? next = some base ∧ base.kind.sameAs e.kind = true := by
  have none := clean.checkTemplate_eq_nil found
  simp only [Lint.checkTemplate, named, List.append_eq_nil_iff] at none
  cases got : s.get? next with
  | none => simp [got] at none
  | some base =>
    refine ⟨base, rfl, ?_⟩
    simpa [got] using none.1

/-- A parent is a container. -/
theorem parent (found : s.get? id = some e) (named : e.traits.parent = some next) :
    ∃ container, s.get? next = some container ∧ Lint.isContainer container.kind = true := by
  have none := clean.checkParent_eq_nil found
  simp only [Lint.checkParent, named, List.append_eq_nil_iff] at none
  cases got : s.get? next with
  | none => simp [got] at none
  | some container =>
    refine ⟨container, rfl, ?_⟩
    simpa [got] using none.1

/-- What a reference names is a structure. -/
theorem reference (found : s.get? id = some e) {body : StructRefBody}
    (refers : e.kind = .structRef body) (named : s.lookup .structure? id = .ok (some next)) :
    ∃ target, s.get? next = some target ∧ Lint.isStructure target.kind = true := by
  have none : Lint.checkLink s (s.lookup .structure? id) "structure" Lint.isStructure
      .missingStructure = [] := by
    refine clean.eq_nil (n := ⟨id, e, found⟩) (fun f finding => ?_) (severity_of_checkLink rfl)
    simp only [Lint.checkNode, Lint.checkKind, Node.kind, refers, List.mem_append]
    exact .inr finding
  simp only [Lint.checkLink, named, Except.toOption, Option.join_some] at none
  cases got : s.get? next with
  | none => simp [got] at none
  | some target =>
    refine ⟨target, rfl, ?_⟩
    simpa [got] using none

theorem not_template_cycle :
    ¬ TransGen (fun a b => Lint.step s (·.traits.template) a = some b) id id := by
  intro cycle
  obtain ⟨next, first, -⟩ := TransGen.head'_iff.mp cycle
  obtain ⟨e, found, -⟩ := step_eq_some.mp first
  have none := clean.checkTemplate_eq_nil found
  rw [Lint.checkTemplate, List.append_eq_nil_iff, if_pos (Lint.reachesItself_iff.mpr cycle)] at none
  cases none.2

theorem not_parent_cycle :
    ¬ TransGen (fun a b => Lint.step s (·.traits.parent) a = some b) id id := by
  intro cycle
  obtain ⟨next, first, -⟩ := TransGen.head'_iff.mp cycle
  obtain ⟨e, found, -⟩ := step_eq_some.mp first
  have none := clean.checkParent_eq_nil found
  rw [Lint.checkParent, List.append_eq_nil_iff, if_pos (Lint.reachesItself_iff.mpr cycle)] at none
  cases none.2

end LintClean

/-! ## The cycles that are left -/

/-- An element that contains others. -/
def ContainerAt (s : Schema) (id : ElementId) : Prop :=
  ∃ e, s.get? id = some e ∧ Lint.isContainer e.kind = true

theorem isContainer_eq_name (k : Kind) :
    Lint.isContainer k = (k.name == "structure" || k.name == "grammar") := by
  cases k <;> rfl

theorem isContainer_of_isStructure {k : Kind} (h : Lint.isStructure k = true) :
    Lint.isContainer k = true := by
  cases k <;> first | rfl | cases h

theorem ContainerAt.not_reference (container : s.ContainerAt id) (found : s.get? id = some e)
    {body : StructRefBody} : e.kind ≠ .structRef body := by
  intro refers
  obtain ⟨e', found', isContainer⟩ := container
  cases found.symm.trans found'
  rw [refers] at isContainer
  cases isContainer

namespace LintClean

variable (clean : s.LintClean) {scope : Scope}

include clean

/-- Containers only fall back to containers. -/
theorem container_step (container : s.ContainerAt id) (link : s.FallsBack scope id next) :
    s.ContainerAt next := by
  cases link with
  | reference found refers follows named => exact absurd refers (container.not_reference found)
  | template found named =>
    obtain ⟨e', found', isContainer⟩ := container
    cases found.symm.trans found'
    obtain ⟨base, got, same⟩ := clean.template found named
    refine ⟨base, got, ?_⟩
    rw [isContainer_eq_name] at isContainer ⊢
    rw [Kind.sameAs, beq_iff_eq] at same
    rwa [same]
  | parent found follows named => exact clean.parent found named

theorem container_path (container : s.ContainerAt id)
    (path : ReflTransGen (s.FallsBack scope) id next) : s.ContainerAt next := by
  induction path with
  | refl => exact container
  | tail _ link inductionHypothesis => exact clean.container_step inductionHypothesis link

/-- A link that can be gone back is no structure reference: behind one there are containers only. -/
theorem inherits_of_return (link : s.FallsBack scope id next)
    (back : ReflTransGen (s.FallsBack scope) next id) : s.Inherits scope id next := by
  cases link with
  | reference found refers follows named =>
    rw [← structureLink_iff, structureLink_eq_lookup] at named
    obtain ⟨target, got, isStructure⟩ := clean.reference found refers named
    have container :=
      clean.container_path ⟨target, got, isContainer_of_isStructure isStructure⟩ back
    exact absurd refers (container.not_reference found)
  | template found named => exact .inl (step_eq_some.mpr ⟨_, found, named⟩)
  | parent found follows named => exact .inr ⟨follows, step_eq_some.mpr ⟨_, found, named⟩⟩

/-- What is left of a cycle are templates and parents. -/
theorem inherits_cycle (cycle : TransGen (s.FallsBack scope) id id) :
    TransGen (s.Inherits scope) id id := by
  have each : ∀ {last}, TransGen (s.FallsBack scope) id last →
      ReflTransGen (s.FallsBack scope) last id → TransGen (s.Inherits scope) id last := by
    intro last path back
    induction path with
    | single link => exact .single (clean.inherits_of_return link back)
    | tail path link inductionHypothesis =>
      exact (inductionHypothesis (back.head link)).tail
        (clean.inherits_of_return link (back.trans path.to_reflTransGen))
  exact each cycle .refl

end LintClean

/-! ## Lookups -/

variable {α : Type}

theorem fallbacks_loops {scope : Scope} {cycle : CycleError}
    (h : s.fallbacks scope id e = .error cycle) : Loops (s.FallsBack scope) id cycle.element := by
  unfold fallbacks at h
  cases link : s.referenceLink scope id e with
  | ok target =>
    rw [link] at h
    cases h
  | error other =>
    rw [link] at h
    cases h
    unfold referenceLink at link
    split at link
    · cases link
    · exact structureLink_loops link
    · cases link

/-- A lookup that fails names an element on a cycle of fallback links. -/
theorem lookup_loops {a : Attribute α} {cycle : CycleError} (h : s.lookup a id = .error cycle) :
    Loops (s.FallsBack a.scope) id cycle.element :=
  search_loops (fun found links b => fallsBack_of_fallbacks found links)
    (fun _ unknown => fallbacks_loops unknown) (by simp) h

theorem LintClean.lookup_inherits (clean : s.LintClean) {a : Attribute α} {cycle : CycleError}
    (h : s.lookup a id = .error cycle) :
    TransGen (s.Inherits a.scope) cycle.element cycle.element :=
  clean.inherits_cycle (lookup_loops h).2

/-- Without parents, what is left of a cycle is none. -/
theorem LintClean.resolves (clean : s.LintClean) (a : Attribute α)
    (acyclic : a.scope = .structural → ∀ id, ¬ TransGen (s.Inherits .structural) id id)
    (id : ElementId) : ∃ found, s.lookup a id = .ok found := by
  cases looked : s.lookup a id with
  | ok found => exact ⟨found, rfl⟩
  | error cycle =>
    have inherits := clean.lookup_inherits looked
    by_cases structural : a.scope = .structural
    · rw [structural] at inherits
      exact absurd inherits (acyclic structural _)
    · have templates : ∀ id next, s.Inherits a.scope id next →
          Lint.step s (·.traits.template) id = some next := by
        rintro id next (template | ⟨follows, -⟩)
        · exact template
        · exact absurd follows structural
      exact absurd (TransGen.mono templates _ _ inherits) clean.not_template_cycle

/-! ## A cycle is met -/

theorem firstOf_eq_none {ask : ElementId → Option (Option α)} {ids : List ElementId}
    (unset : ∀ id v, ask id ≠ some (some v)) (member : id ∈ ids) (open_ : ask id = none) :
    firstOf ask ids = none := by
  induction ids with
  | nil => cases member
  | cons first rest inductionHypothesis =>
    unfold firstOf
    cases asked : ask first with
    | none => rfl
    | some answer =>
      cases answer with
      | some v => exact absurd asked (unset first v)
      | none =>
        cases member with
        | head => cases asked.symm.trans open_
        | tail _ member => exact inductionHypothesis member

theorem firstOf_ne {ask : ElementId → Option (Option α)} {ids : List ElementId}
    (unset : ∀ id v, ask id ≠ some (some v)) (v : α) : firstOf ask ids ≠ some (some v) := by
  induction ids with
  | nil => rintro ⟨⟩
  | cons first rest inductionHypothesis =>
    unfold firstOf
    cases asked : ask first with
    | none => rintro ⟨⟩
    | some answer =>
      cases answer with
      | some w => exact absurd asked (unset first w)
      | none => exact inductionHypothesis

/-- Where no element has a value of its own, none is found. -/
theorem follow_ne {w : FreeWalk α} (unset : ∀ e, w.own e = none) (depth : Nat) (id : ElementId)
    (v : α) : s.follow w depth id ≠ some (some v) := by
  induction depth generalizing id v with
  | zero => rintro ⟨⟩
  | succ depth inductionHypothesis =>
    unfold follow
    cases s.get? id with
    | none => rintro ⟨⟩
    | some e =>
      dsimp only
      rw [unset e]
      cases w.links depth id e with
      | none => rintro ⟨⟩
      | some next => exact firstOf_ne inductionHypothesis v

/-- Where no element has a value of its own, a walk goes around every cycle of its links. -/
theorem neverEnds_of_cycle {w : FreeWalk α} {link : ElementId → ElementId → Prop}
    (unset : ∀ e, w.own e = none)
    (linked : ∀ {a b}, link a b → ∃ e, s.get? a = some e ∧
      ∀ depth next, w.links depth a e = some next → b ∈ next)
    (cycle : TransGen link id id) : s.NeverEnds w id := by
  intro depth
  induction depth generalizing id with
  | zero => rfl
  | succ depth inductionHypothesis =>
    obtain ⟨b, first, back⟩ := TransGen.head'_iff.mp cycle
    obtain ⟨e, found, goes⟩ := linked first
    simp only [follow, found, unset]
    cases links : w.links depth id e with
    | none => rfl
    | some next =>
      exact firstOf_eq_none (follow_ne unset depth) (goes depth next links)
        (inductionHypothesis (.tail' back first))

/-- An attribute that follows parents and that no element has. -/
def unset : Attribute Unit := ⟨"", .structural, fun _ => none⟩

/-- Every cycle of templates and parents makes a lookup fail. -/
theorem lookup_unset_fails (cycle : TransGen (s.Inherits .structural) id id) :
    ∃ error, s.lookup unset id = .error error := by
  refine (guards_attribute unset).fails_iff.mpr ?_
  refine neverEnds_of_cycle (fun _ => rfl) ?_ cycle
  rintro a b (template | ⟨-, parent⟩)
  · obtain ⟨e, found, named⟩ := step_eq_some.mp template
    refine ⟨e, found, fun depth next links => ?_⟩
    obtain ⟨target, -, rfl⟩ := Option.map_eq_some_iff.mp links
    simp [named]
  · obtain ⟨e, found, named⟩ := step_eq_some.mp parent
    refine ⟨e, found, fun depth next links => ?_⟩
    obtain ⟨target, -, rfl⟩ := Option.map_eq_some_iff.mp links
    simp [named, unset]

end Schema

/-! ## Decodes -/

namespace DecodeM

variable {σ α β : Type}

/-- A step that does not fail with a cycle. -/
def CycleFree (step : DecodeM σ α) : Prop :=
  ∀ st e after, Throws step st e after → ¬ e.failure.IsCycle

namespace CycleFree

variable {step : DecodeM σ α}

theorem bind {next : α → DecodeM σ β} (first : CycleFree step)
    (rest : ∀ a st after, Returns step st a after → CycleFree (next a)) :
    CycleFree (step >>= next) := by
  intro st e after thrown
  rcases throws_bind.mp thrown with failed | ⟨a, mid, returned, failed⟩
  · exact first st e after failed
  · exact rest a st mid returned mid e after failed

theorem seek [ByteSource σ] {s : Schema} {n : Node s} {offset position : Nat} :
    CycleFree (seek n offset position : DecodeM σ Unit) :=
  bind (fun _ _ _ => (Plain.onSource _).sound) fun _ _ _ _ _ _ _ => (Plain.pure _).sound

theorem closing [ByteSource σ] {back : DecodeM σ Unit} {reword : DecodeError → DecodeError}
    (putsBack : PutsBack back) (rewords : Rewords reword) (first : CycleFree step) :
    CycleFree (closing back reword step) := by
  intro st e after thrown
  rcases closing_throws.mp thrown with ⟨r, mid, -, failed⟩ | ⟨cause, mid, failed, -, rfl⟩
  · cases putsBack with
    | align => exact absurd failed throws_align
    | resume n offset position bits =>
      refine bind (fun _ _ _ failed => ?_) (fun _ _ _ _ => seek) mid e after failed
      exact absurd failed throws_setPending
  · exact rewords.not_isCycle (first st cause mid failed)

theorem attempt {next : Except DecodeError α → DecodeM σ β} (first : CycleFree step)
    (ok : ∀ a, CycleFree (next (.ok a)))
    (mismatch : ∀ e, e.isMismatch = true → CycleFree (next (.error e)))
    (fatal : ∀ e, e.isMismatch = false → next (.error e) = throw e) :
    CycleFree (outcome step >>= next) := by
  intro st e after thrown
  rw [throws_bind] at thrown
  obtain ⟨r, mid, ended, failed⟩ := thrown.resolve_left throws_outcome
  rcases returns_outcome.mp ended with ⟨a, rfl, -⟩ | ⟨cause, rfl, before⟩
  · exact ok a mid e after failed
  cases isMismatch : cause.isMismatch with
  | true => exact mismatch cause isMismatch mid e after failed
  | false =>
    rw [fatal cause isMismatch, throws_throw] at failed
    obtain ⟨rfl, -⟩ := failed
    exact first st e mid before

end CycleFree

end DecodeM

namespace Decoder

open DecodeM

variable {σ : Type} [ByteSource σ]

/-- Where every lookup succeeds, no step fails with a cycle. -/
def acyclicCongruence (d : Decoder σ)
    (resolves : ∀ {α : Type} (a : Attribute α) (id : ElementId),
      ∃ found, d.schema.lookup a id = .ok found) :
    Congruence d d.options where
  rel left _ := CycleFree left
  cutsOff := False
  givesUp := True
  maxDepth := .inl rfl
  maxRepeat := .inl rfl
  validate := rfl
  plain plain _ _ _ := plain.sound
  lookup n offset a := by
    intro st e after thrown
    obtain ⟨cycle, failed, -⟩ := throws_resolved.mp thrown
    obtain ⟨found, known⟩ := resolves a n.id
    cases known.symm.trans failed
  bind_of_returns := .bind
  violation := by
    intro e violation st e' after thrown
    unfold Decoder.violation at thrown
    by_cases strict : d.options.strict = true
    · rw [if_pos strict, throws_throw] at thrown
      obtain ⟨rfl, -⟩ := thrown
      exact violation.not_isCycle
    · rw [if_neg strict] at thrown
      simp at thrown
  closing := .closing
  limited := False.elim
  rewind _ _ _ := .bind .seek fun _ _ _ _ _ _ _ thrown => absurd thrown throws_modify
  attempt _ {_ _ _ _ _ _} first ok mismatch fatal :=
    first.attempt ok mismatch fun e isFatal => (fatal e isFatal).1

theorem decodeElement_not_isCycle (d : Decoder σ)
    (resolves : ∀ {α : Type} (a : Attribute α) (id : ElementId),
      ∃ found, d.schema.lookup a id = .ok found)
    {element : ElementId} {source : σ} {e : DecodeError}
    (h : (d.decodeElement element source).result = .error e) : ¬ e.failure.IsCycle := by
  have suits : (d.acyclicCongruence resolves).Suits d.schema := .inl trivial
  obtain ⟨after, thrown⟩ := decodeElement_throws h
  exact Congruence.decodeWhole suits element { source := source } _ _ thrown

end Decoder

/-! ## What the linter leaves -/

namespace Schema

/-- In a schema without lint errors neither templates alone nor parents alone close a cycle, and
attributes that do not follow parents are always found. Every other lookup that fails has come to a
cycle of templates and parents in turn, and each such cycle makes one fail; if there is none, no
decode fails with a cycle either. -/
theorem lintClean_exact {s : Schema} (clean : s.LintClean) :
    (∀ id, ¬ TransGen (fun a b => Lint.step s (·.traits.template) a = some b) id id) ∧
    (∀ id, ¬ TransGen (fun a b => Lint.step s (·.traits.parent) a = some b) id id) ∧
    (∀ {α : Type} (a : Attribute α), a.scope ≠ .structural → ∀ id,
      ∃ found, s.lookup a id = .ok found) ∧
    (∀ {α : Type} (a : Attribute α) id cycle, s.lookup a id = .error cycle →
      ReflTransGen (s.FallsBack .structural) id cycle.element ∧
        TransGen (s.Inherits .structural) cycle.element cycle.element) ∧
    ((∀ {α : Type} (a : Attribute α) id, ∃ found, s.lookup a id = .ok found) ↔
      ∀ id, ¬ TransGen (s.Inherits .structural) id id) ∧
    ((∀ id, ¬ TransGen (s.Inherits .structural) id id) →
      ∀ {σ : Type} [ByteSource σ] (d : Decoder σ), d.schema = s → ∀ element source e,
        (d.decodeElement element source).result = .error e → ¬ e.failure.IsCycle) := by
  refine ⟨fun id => clean.not_template_cycle, fun id => clean.not_parent_cycle,
    fun a other => clean.resolves a fun structural => absurd structural other, ?_, ⟨?_, ?_⟩, ?_⟩
  · intro α a id cycle failed
    have structural : a.scope = .structural := by
      by_contra other
      obtain ⟨found, known⟩ := clean.resolves a (fun structural => absurd structural other) id
      cases known.symm.trans failed
    rw [← structural]
    exact ⟨(lookup_loops failed).1, clean.lookup_inherits failed⟩
  · intro resolves id cycle
    obtain ⟨error, failed⟩ := lookup_unset_fails cycle
    obtain ⟨found, known⟩ := resolves unset id
    cases known.symm.trans failed
  · exact fun acyclic _ a => clean.resolves a fun _ => acyclic
  · rintro acyclic σ _ d rfl element source e failed
    exact d.decodeElement_not_isCycle (fun a => clean.resolves a fun _ => acyclic) failed

/-- A structure that takes what it leaves open from another one, with a number in it. -/
def layered : Schema where
  elements := #[
    ⟨{}, .structure {}⟩,
    ⟨{ template := some ⟨0⟩ }, .structure { children := [⟨2⟩] }⟩,
    ⟨{ parent := some ⟨1⟩ }, .number { extent := { length := some (.literal 1) } }⟩]
  root := ⟨1⟩

theorem layered_downward {a b : ElementId} (link : layered.Inherits .structural a b) :
    b.index < a.index := by
  obtain ⟨i⟩ := a
  have known : ∃ e, layered.get? ⟨i⟩ = some e ∧
      (e.traits.template = some b ∨ e.traits.parent = some b) := by
    rcases link with link | ⟨-, link⟩ <;> obtain ⟨e, found, named⟩ := step_eq_some.mp link
    · exact ⟨e, found, .inl named⟩
    · exact ⟨e, found, .inr named⟩
  obtain ⟨e, found, named⟩ := known
  have small : i < 3 := index_lt_size_of_get? found
  obtain rfl | rfl | rfl : i = 0 ∨ i = 1 ∨ i = 2 := by omega
  all_goals
    cases found
    rcases named with named | named <;> cases named <;> decide

theorem layered_acyclic (id : ElementId) : ¬ TransGen (layered.Inherits .structural) id id := by
  have downward : ∀ {last}, TransGen (layered.Inherits .structural) id last →
      last.index < id.index := by
    intro last path
    induction path with
    | single link => exact layered_downward link
    | tail _ link inductionHypothesis =>
      exact Nat.lt_trans (layered_downward link) inductionHypothesis
  exact fun cycle => absurd (downward cycle) (Nat.lt_irrefl _)

theorem lintClean_exact_layered :
    layered.lint = [] ∧ (∃ found, layered.lookup .byteOrder ⟨2⟩ = .ok found) ∧
    ∀ source e, (({ schema := layered } : Decoder Slice).decodeElement ⟨1⟩ source).result =
      .error e → ¬ e.failure.IsCycle := by
  have silent : layered.lint = [] := by cbv
  have clean : layered.LintClean := by
    rw [LintClean, silent]
    exact List.forall_mem_nil _
  obtain ⟨-, -, -, -, resolves, decodes⟩ := lintClean_exact clean
  exact ⟨silent, resolves.mpr layered_acyclic .byteOrder ⟨2⟩, decodes layered_acyclic _ rfl ⟨1⟩⟩

/-- A structure whose template is one of its children. -/
def braided : Schema where
  elements := #[
    ⟨{ template := some ⟨1⟩ }, .structure { children := [⟨1⟩, ⟨2⟩] }⟩,
    ⟨{ parent := some ⟨0⟩ }, .structure {}⟩,
    ⟨{ parent := some ⟨0⟩ }, .number { extent := { length := some (.literal 1) } }⟩]
  root := ⟨0⟩

set_option maxRecDepth 8000 in
/-- The linter has nothing to say about it, and neither the lookup of a byte order nor a decode
succeeds. -/
theorem braided_passes_lint :
    braided.lint = [] ∧ (∃ cycle, braided.lookup .byteOrder ⟨2⟩ = .error cycle) ∧
    ∃ e, (@Decoder.decodeElement Slice _
      { schema := braided, options := { maxDepth := 3, maxRepeat := 2 } } ⟨0⟩ ⟨#[0], 0⟩).result =
        .error e ∧ e.failure.IsCycle := by
  have loops : braided.lookup .byteOrder ⟨2⟩ = .error ⟨"endian", ⟨0⟩, 3⟩ := by cbv
  exact ⟨by cbv, ⟨_, loops⟩, ⟨⟨2⟩, "number#2", 0, .cycle ⟨"endian", ⟨0⟩, 3⟩⟩, by cbv, _, rfl⟩

end Schema

end BinaryTemplate
