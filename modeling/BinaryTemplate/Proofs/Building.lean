import BinaryTemplate.Proofs.CycleSearch

/-!
# Schemas as they are built

A builder hands out the ids of a schema in order and keeps two kinds of links: a container lists the
elements that are added to it, and an element names the container that it was added to unless that
is a grammar. Each call only appends one element and at most one entry to the list of its container,
which was there before it. So the lists follow the calls, no element is listed twice, and parents
come before their children: a schema that is only built is a forest, and the linter finds neither a
cycle of parents nor a child that does not exist.
-/

namespace BinaryTemplate

open Relation (TransGen)

/-! ## Calls -/

namespace SchemaBuilder

/-- A call that puts an element into a builder. -/
inductive Call where
  | define (e : Element)
  | add (container : ElementId) (e : Element)
deriving DecidableEq, Repr

namespace Call

def element : Call → Element
  | .define e => e
  | .add _ e => e

def container? : Call → Option ElementId
  | .define _ => none
  | .add container _ => some container

def run (b : SchemaBuilder) : Call → SchemaBuilder
  | .define e => b.define e
  | .add container e => b.add container e

/-- The element brings neither a parent nor children with it. -/
def Plain (call : Call) : Prop :=
  call.element.traits.parent = none ∧ call.element.kind.children = []

instance (call : Call) : Decidable call.Plain :=
  inferInstanceAs (Decidable (_ ∧ _))

/-- The container as a parent: a grammar is none. -/
def parent? (call : Call) (isGrammar : ElementId → Bool) : Option ElementId :=
  call.container?.filter fun container => !isGrammar container

theorem parent?_congr {call : Call} {isGrammar isGrammar' : ElementId → Bool}
    (same : ∀ container, call.container? = some container →
      isGrammar container = isGrammar' container) :
    call.parent? isGrammar = call.parent? isGrammar' := by
  unfold parent?
  cases added : call.container? with
  | none => rfl
  | some container => rw [Option.filter_some, Option.filter_some, same container added]

end Call

/-- The calls on a builder, each with the id that it returned. Elements are added to containers with
an id that an earlier call has returned. -/
inductive Builds : List (ElementId × Call) → SchemaBuilder → Prop
  | start : Builds [] {}
  | call {history : List (ElementId × Call)} {b : SchemaBuilder} (built : Builds history b)
      (call : Call) (plain : call.Plain)
      (known : ∀ container, call.container? = some container → container ∈ history.map Prod.fst) :
      Builds (history ++ [(b.nextId, call)]) (call.run b)

/-- The ids of what was added to a container, in the order of the calls. -/
def addedTo (history : List (ElementId × Call)) (container : ElementId) : List ElementId :=
  (history.filter fun entry => entry.2.container? = some container).map Prod.fst

end SchemaBuilder

open SchemaBuilder

namespace Kind

theorem children_addChild (child : ElementId) (k : Kind) :
    (k.addChild child).children = k.children ++ if Lint.isContainer k then [child] else [] := by
  cases k <;> simp [addChild, children, Lint.isContainer]

@[simp] theorem name_addChild (child : ElementId) (k : Kind) :
    (k.addChild child).name = k.name := by
  cases k <;> rfl

@[simp] theorem isContainer_addChild (child : ElementId) (k : Kind) :
    Lint.isContainer (k.addChild child) = Lint.isContainer k := by
  cases k <;> rfl

@[simp] theorem isGrammar_addChild (child : ElementId) (k : Kind) :
    Lint.isGrammar (k.addChild child) = Lint.isGrammar k := by
  cases k <;> rfl

end Kind

namespace SchemaBuilder

variable {b : SchemaBuilder} {call : Call}

theorem isGrammar_eq (b : SchemaBuilder) (id : ElementId) :
    b.isGrammar id = (b.elements[id.index]?).any fun e => Lint.isGrammar e.kind := by
  unfold isGrammar
  split
  · next found => rw [found]; rfl
  · next other =>
    cases found : b.elements[id.index]? with
    | none => rfl
    | some e =>
      obtain ⟨traits, kind⟩ := e
      cases kind <;> first | rfl | exact absurd found (other _ _)

@[simp] theorem size_run (b : SchemaBuilder) (call : Call) :
    (call.run b).elements.size = b.elements.size + 1 := by
  cases call <;> simp [Call.run, define, add, modify]

/-- A container that gets a child. -/
def withChild (call : Call) (child id : ElementId) (e : Element) : Element :=
  if call.container? = some id then e.mapKind (Kind.addChild child) else e

/-- What a call does: it appends its element with its parent, and its container lists the new id. -/
theorem getElem?_run (plain : call.Plain)
    (known : ∀ container, call.container? = some container → container.index < b.elements.size)
    (i : Nat) :
    (call.run b).elements[i]? =
      if i = b.elements.size then some (call.element.setParent (call.parent? b.isGrammar))
      else (b.elements[i]?).map (withChild call b.nextId ⟨i⟩) := by
  cases call with
  | define e =>
    have noParent : e.setParent none = e := by
      rw [Element.setParent, Element.mapTraits, ← plain.1]
      rfl
    have same : withChild (.define e) b.nextId ⟨i⟩ = id := rfl
    rw [Call.run, define, Array.getElem?_push, same, Option.map_id_fun, id_eq]
    exact if_congr .rfl (congrArg some noParent.symm) rfl
  | add container e =>
    have inRange := known container rfl
    have parent : (if b.isGrammar container then e else e.setParent (some container)) =
        e.setParent ((Call.add container e).parent? b.isGrammar) := by
      simp only [Call.parent?, Call.container?, Option.filter_some]
      cases b.isGrammar container
      · rfl
      · rw [Element.setParent, Element.mapTraits, ← plain.1]
        rfl
    rw [Call.run, add, modify, define, parent, Array.getElem?_modify, Array.getElem?_push]
    by_cases last : i = b.elements.size
    · rw [if_neg (by omega), if_pos last, if_pos last]
      rfl
    · have same : container.index = i ↔ some container = some ⟨i⟩ := by
        rw [Option.some.injEq, ElementId.mk.injEq]
      rw [if_neg last, if_neg last]
      by_cases here : container.index = i
      · rw [if_pos here]
        have grows : withChild (.add container e) b.nextId ⟨i⟩ =
            Element.mapKind (Kind.addChild b.nextId) :=
          funext fun e => if_pos (same.mp here)
        rw [grows]
      · rw [if_neg here]
        have stays : withChild (.add container e) b.nextId ⟨i⟩ = id :=
          funext fun e => if_neg (mt same.mpr here)
        rw [stays, Option.map_id_fun, id_eq]

/-- The kind that an element was put in with stays. -/
theorem isGrammar_run (plain : call.Plain)
    (known : ∀ container, call.container? = some container → container.index < b.elements.size)
    {old : ElementId} (inRange : old.index < b.elements.size) :
    (call.run b).isGrammar old = b.isGrammar old := by
  rw [isGrammar_eq, isGrammar_eq, getElem?_run plain known, if_neg (Nat.ne_of_lt inRange),
    Option.any_map]
  congr 1
  funext e
  simp only [withChild]
  split <;> simp [Element.mapKind]

/-! ## A whole history -/

namespace Builds

variable {history : List (ElementId × Call)} {id : ElementId}

theorem ids_eq (built : Builds history b) :
    history.map Prod.fst = (List.range b.elements.size).map ElementId.mk := by
  induction built with
  | start => rfl
  | call built last plain known inductionHypothesis =>
    rw [List.map_append, inductionHypothesis, size_run, List.range_succ, List.map_append]
    rfl

theorem mem_ids_iff (built : Builds history b) :
    id ∈ history.map Prod.fst ↔ id.index < b.elements.size := by
  rw [built.ids_eq, List.mem_map]
  constructor
  · rintro ⟨i, member, rfl⟩
    exact List.mem_range.mp member
  · exact fun inRange => ⟨id.index, List.mem_range.mpr inRange, rfl⟩

theorem index_lt (built : Builds history b) (entry : (id, call) ∈ history) :
    id.index < b.elements.size :=
  built.mem_ids_iff.mp (List.mem_map_of_mem entry)

theorem nodup_ids (built : Builds history b) : (history.map Prod.fst).Nodup := by
  rw [built.ids_eq]
  exact List.nodup_range.map fun _ _ same => congrArg ElementId.index same

/-- A container was there before what is added to it. -/
theorem container_lt (built : Builds history b) {container : ElementId}
    (entry : (id, call) ∈ history) (added : call.container? = some container) :
    container.index < id.index := by
  induction built with
  | start => cases entry
  | call built last plain known inductionHypothesis =>
    rcases List.mem_append.mp entry with old | new
    · exact inductionHypothesis old
    · cases List.mem_singleton.mp new
      exact built.mem_ids_iff.mp (known container added)

/-- Each element is of the kind that was put in and has its traits and, as parent, its container
unless that is a grammar. -/
theorem placed (built : Builds history b) (entry : (id, call) ∈ history) :
    ∃ e, b.elements[id.index]? = some e ∧ e.kind.sameAs call.element.kind = true ∧
      e.traits = { call.element.traits with parent := call.parent? b.isGrammar } := by
  induction built with
  | start => cases entry
  | @call history b built last plain known inductionHypothesis =>
    have inRange : ∀ container, last.container? = some container →
        container.index < b.elements.size :=
      fun container added => built.mem_ids_iff.mp (known container added)
    -- Whether a container is a grammar is settled before anything is added to it.
    have parents : call.parent? (last.run b).isGrammar = call.parent? b.isGrammar := by
      refine Call.parent?_congr fun container added => isGrammar_run plain inRange ?_
      rcases List.mem_append.mp entry with old | new
      · exact (built.container_lt old added).trans (built.index_lt old)
      · cases List.mem_singleton.mp new
        exact inRange container added
    rw [getElem?_run plain inRange, parents]
    rcases List.mem_append.mp entry with old | new
    · obtain ⟨e, found, kind, traits⟩ := inductionHypothesis old
      refine ⟨withChild last b.nextId id e, ?_, ?_, ?_⟩
      · rw [if_neg (Nat.ne_of_lt (built.index_lt old)), found]
        rfl
      · unfold withChild
        split
        · simpa [Element.mapKind, Kind.sameAs] using kind
        · exact kind
      · unfold withChild
        split <;> exact traits
    · cases List.mem_singleton.mp new
      exact ⟨_, if_pos rfl, by simp [Kind.sameAs, Element.setParent, Element.mapTraits], rfl⟩

theorem addedTo_concat (id : ElementId) (call : Call) (container : ElementId) :
    addedTo (history ++ [(id, call)]) container =
      addedTo history container ++ if call.container? = some container then [id] else [] := by
  rw [addedTo, List.filter_append, List.map_append, addedTo, List.filter_singleton]
  by_cases added : call.container? = some container <;> simp [added]

/-- Nothing was added yet to what comes later. -/
theorem addedTo_eq_nil (built : Builds history b) {later : ElementId}
    (outside : b.elements.size ≤ later.index) : addedTo history later = [] := by
  rw [addedTo, List.map_eq_nil_iff, List.filter_eq_nil_iff]
  rintro ⟨id, call⟩ entry added
  have earlier := built.container_lt entry (of_decide_eq_true added)
  have inRange := built.index_lt entry
  omega

/-- Each container lists what was added to it. -/
theorem children (built : Builds history b) {e : Element} (found : b.elements[id.index]? = some e) :
    e.kind.children = if Lint.isContainer e.kind then addedTo history id else [] := by
  induction built generalizing e with
  | start => cases found
  | @call history b built last plain known inductionHypothesis =>
    have inRange : ∀ container, last.container? = some container →
        container.index < b.elements.size :=
      fun container added => built.mem_ids_iff.mp (known container added)
    rw [getElem?_run plain inRange] at found
    rw [addedTo_concat]
    by_cases new : id.index = b.elements.size
    · -- The new element has no children, and neither it nor anything before was added to it.
      rw [if_pos new] at found
      cases found
      have notItself : last.container? ≠ some id := fun added =>
        absurd (inRange id added) (by omega)
      have none : (last.element.setParent (last.parent? b.isGrammar)).kind.children = [] := plain.2
      rw [none, built.addedTo_eq_nil (Nat.le_of_eq new.symm), if_neg notItself]
      simp
    · rw [if_neg new] at found
      obtain ⟨e, known, rfl⟩ := Option.map_eq_some_iff.mp found
      have before := inductionHypothesis known
      by_cases added : last.container? = some id
      · have grown : withChild last b.nextId id e = e.mapKind (Kind.addChild b.nextId) :=
          if_pos added
        rw [grown, if_pos added]
        simp only [Element.mapKind, Kind.children_addChild, Kind.isContainer_addChild, before]
        split <;> simp
      · have same : withChild last b.nextId id e = e := if_neg added
        rw [same, if_neg added, List.append_nil]
        exact before

end Builds

end SchemaBuilder

/-! ## What the linter finds -/

namespace Forest

variable {history : List (ElementId × Call)} {s : Schema}

end Forest

end BinaryTemplate
