import BinaryTemplate.Proofs.Simulation

/-!
# Counterparts

Two schemas are counterparts if element by element they differ at most in the children and the order
of their structures. No other attribute depends on those, so every other one has the same effective
value in both.
Two decoders are counterparts if their schemas are, their evaluators answer alike, and their
encodings and limits are the same; whether they validate their trees does not matter.
-/

namespace BinaryTemplate

/-! ## Schemas -/

/-- The kind without the children that a structure declares, and without their order. -/
def Kind.bare : Kind → Kind
  | .structure body => .structure { body with children := [], order := none }
  | kind => kind

def Element.bare (e : Element) : Element := { e with kind := e.kind.bare }

theorem Kind.name_bare (kind : Kind) : kind.bare.name = kind.name := by
  cases kind <;> rfl

theorem Kind.bare_eq {kind : Kind} (other : ∀ body, kind ≠ .structure body) :
    kind.bare = kind := by
  cases kind with
  | «structure» body => exact absurd rfl (other body)
  | _ => rfl

/-- Only structures may differ, in their children and the order of them. -/
theorem Kind.cases_bare {kind kind' : Kind} (same : kind.bare = kind'.bare) :
    (∃ body body', kind = .structure body ∧ kind' = .structure body') ∨
      (∀ body, kind ≠ .structure body) ∧ kind = kind' := by
  have named : ∀ {kind : Kind}, kind.name = "structure" → ∃ body, kind = .structure body := by
    intro kind name
    cases kind <;> first | exact ⟨_, rfl⟩ | exact absurd name (by simp [Kind.name])
  have names : kind.name = kind'.name := by
    rw [← Kind.name_bare kind, ← Kind.name_bare kind', same]
  by_cases isStructure : kind.name = "structure"
  · obtain ⟨body, own⟩ := named isStructure
    obtain ⟨body', own'⟩ := named (names.symm.trans isStructure)
    exact .inl ⟨body, body', own, own'⟩
  · have other : ∀ {kind : Kind}, kind.name ≠ "structure" → ∀ body, kind ≠ .structure body := by
      rintro _ differs body rfl
      exact differs rfl
    refine .inr ⟨other isStructure, ?_⟩
    rw [← bare_eq (other isStructure), same, bare_eq (other (names ▸ isStructure))]

/-- The attribute does not depend on the children of structures or on their order. -/
def Attribute.Bare {α : Type} (a : Attribute α) : Prop :=
  (fun traits body => a.own ⟨traits, .structure { body with children := [], order := none }⟩) =
    fun traits body => a.own ⟨traits, .structure body⟩

theorem Attribute.Bare.own_bare {α : Type} {a : Attribute α} (bare : a.Bare) (e : Element) :
    a.own e.bare = a.own e := by
  obtain ⟨traits, kind⟩ := e
  cases kind with
  | «structure» body => exact congrFun (congrFun bare traits) body
  | _ => rfl

theorem Attribute.Bare.own_eq {α : Type} {a : Attribute α} (bare : a.Bare) {e e' : Element}
    (same : e.bare = e'.bare) : a.own e = a.own e' := by
  rw [← bare.own_bare e, ← bare.own_bare e', same]

namespace Schema

/-- The same elements but for the children of structures and the order of them. -/
def Counterpart (s s' : Schema) : Prop :=
  ∀ id, (s.get? id).map Element.bare = (s'.get? id).map Element.bare

variable {s s' : Schema} {α : Type}

theorem Counterpart.refl (s : Schema) : s.Counterpart s := fun _ => rfl

theorem Counterpart.symm (same : s.Counterpart s') : s'.Counterpart s := fun id => (same id).symm

theorem Counterpart.get? (same : s.Counterpart s') {id : ElementId} {e : Element}
    (got : s.get? id = some e) : ∃ e', s'.get? id = some e' ∧ e.bare = e'.bare := by
  have h := same id
  rw [got] at h
  cases got' : s'.get? id with
  | none =>
    rw [got'] at h
    cases h
  | some e' =>
    rw [got'] at h
    exact ⟨e', rfl, Option.some.inj h⟩

theorem Counterpart.missing (same : s.Counterpart s') {id : ElementId} (got : s.get? id = none) :
    s'.get? id = none := by
  have h := same id
  rw [got] at h
  cases got' : s'.get? id with
  | none => rfl
  | some e' =>
    rw [got'] at h
    cases h

theorem search_missing {w : Walk α} {chain : List ElementId} {id : ElementId}
    (fresh : id ∉ chain) (missing : s.get? id = none) : s.search w chain id = .ok none := by
  rw [search, dif_neg fresh]
  split
  · rfl
  · rename_i got
    cases missing.symm.trans got

theorem search_found {w : Walk α} {chain : List ElementId} {id : ElementId} {e : Element}
    (fresh : id ∉ chain) (found : s.get? id = some e) :
    s.search w chain id =
      match w.own e with
      | some v => .ok (some v)
      | none =>
        match w.links id e with
        | .error cycle => .error cycle
        | .ok next => s.searchFirst w (id :: chain) next := by
  rw [search, dif_neg fresh]
  split
  · rename_i missing
    cases missing.symm.trans found
  · rename_i got
    cases got.symm.trans found
    rfl

theorem searchFirst_congr {w w' : Walk α} {chain : List ElementId}
    (each : ∀ id, s.search w chain id = s'.search w' chain id) (ids : List ElementId) :
    s.searchFirst w chain ids = s'.searchFirst w' chain ids := by
  induction ids with
  | nil => rw [searchFirst, searchFirst]
  | cons id rest inductionHypothesis => rw [searchFirst, searchFirst, each, inductionHypothesis]

/-- Walks that read and follow the same things at elements that are alike find the same. -/
theorem search_congr {alike : Element → Element → Prop}
    (elements : ∀ id, Option.Rel alike (s.get? id) (s'.get? id)) {w w' : Walk α}
    (key : w.key = w'.key) (own : ∀ e e', alike e e' → w.own e = w'.own e')
    (links : ∀ id e e', alike e e' → w.links id e = w'.links id e')
    (chain : List ElementId) (id : ElementId) : s.search w chain id = s'.search w' chain id := by
  induction measured : s.offChain chain using Nat.strongRecOn generalizing chain id with
  | ind left inductionHypothesis =>
    subst measured
    by_cases onChain : id ∈ chain
    · rw [search, search, dif_pos onChain, dif_pos onChain, key]
    have same := elements id
    cases got : s.get? id with
    | none =>
      rw [got] at same
      cases got' : s'.get? id with
      | none => rw [search_missing onChain got, search_missing onChain got']
      | some e' =>
        rw [got'] at same
        cases same
    | some e =>
      rw [got] at same
      cases got' : s'.get? id with
      | none =>
        rw [got'] at same
        cases same
      | some e' =>
        rw [got'] at same
        obtain ⟨alike⟩ := same
        rw [search_found onChain got, search_found onChain got', own e e' alike,
          links id e e' alike]
        cases w'.own e' with
        | some v => rfl
        | none =>
          cases w'.links id e' with
          | error cycle => rfl
          | ok next =>
            have less := offChain_cons_lt onChain got
            exact searchFirst_congr (fun id => inductionHypothesis _ less _ id rfl) next

/-- The structure behind a reference depends on the structures that elements name themselves and on
their templates, and on nothing else. -/
theorem structureLink_congr {alike : Element → Element → Prop}
    (elements : ∀ id, Option.Rel alike (s.get? id) (s'.get? id))
    (own : ∀ e e', alike e e' → Attribute.structure?.own e = Attribute.structure?.own e')
    (template : ∀ e e', alike e e' → e.traits.template = e'.traits.template) (id : ElementId) :
    s.structureLink id = s'.structureLink id := by
  refine search_congr elements rfl own (fun id e e' same => ?_) [] id
  show Except.ok e.traits.template.toList = .ok e'.traits.template.toList
  rw [template e e' same]

theorem Counterpart.elements (same : s.Counterpart s') (id : ElementId) :
    Option.Rel (fun e e' => e.bare = e'.bare) (s.get? id) (s'.get? id) := by
  cases got : s.get? id with
  | none =>
    rw [same.missing got]
    exact .none
  | some e =>
    obtain ⟨e', got', alike⟩ := same.get? got
    rw [got']
    exact .some alike

theorem Counterpart.structureLink_eq (same : s.Counterpart s') (id : ElementId) :
    s.structureLink id = s'.structureLink id := by
  refine structureLink_congr same.elements (fun e e' alike => ?_) (fun e e' alike => ?_) id
  · exact Attribute.Bare.own_eq (a := .structure?) rfl alike
  · have traits : e.traits = e'.traits := congrArg (·.traits) alike
    rw [traits]

theorem Counterpart.fallbacks_eq (same : s.Counterpart s') (scope : Scope) {id : ElementId}
    {e e' : Element} (alike : e.bare = e'.bare) :
    s.fallbacks scope id e = s'.fallbacks scope id e' := by
  obtain ⟨traits, kind⟩ := e
  obtain ⟨traits', kind'⟩ := e'
  obtain rfl : traits = traits' := congrArg (·.traits) alike
  have kinds : kind.bare = kind'.bare := congrArg (·.kind) alike
  have target : s.referenceLink scope id ⟨traits, kind⟩ =
      s'.referenceLink scope id ⟨traits, kind'⟩ := by
    unfold referenceLink
    -- Only a reference has a structure link, and both are one or neither is.
    cases scope <;> cases kind <;> cases kind' <;>
      first | rfl | exact same.structureLink_eq id | cases kinds
  unfold fallbacks
  rw [target]

/-- An attribute that all elements keep alike has the same effective value in both schemas. -/
theorem Counterpart.lookup_eq_of_own (same : s.Counterpart s') {a : Attribute α}
    (own : ∀ id e e', s.get? id = some e → s'.get? id = some e' → a.own e = a.own e')
    (id : ElementId) : s.lookup a id = s'.lookup a id := by
  have elements : ∀ id, Option.Rel (fun e e' => e.bare = e'.bare ∧ a.own e = a.own e')
      (s.get? id) (s'.get? id) := by
    intro id
    cases got : s.get? id with
    | none =>
      rw [same.missing got]
      exact .none
    | some e =>
      obtain ⟨e', got', alike⟩ := same.get? got
      rw [got']
      exact .some ⟨alike, own id e e' got got'⟩
  unfold lookup
  refine search_congr elements ?_ ?_ ?_ [] id
  · rfl
  · exact fun _ _ alike => alike.2
  · exact fun _ _ _ alike => same.fallbacks_eq a.scope alike.1

theorem Counterpart.lookup_eq (same : s.Counterpart s') {a : Attribute α} (bare : a.Bare)
    (id : ElementId) : s.lookup a id = s'.lookup a id := by
  refine same.lookup_eq_of_own (fun id e e' got got' => bare.own_eq ?_) id
  obtain ⟨_, found, alike⟩ := same.get? got
  cases found.symm.trans got'
  exact alike

end Schema

/-! ## Nodes -/

/-- Two nodes of the same element, perhaps in different schemas, that differ at most in the
children of a structure and the order of them. -/
structure Node.Twins {s s' : Schema} (n : Node s) (n' : Node s') : Prop
    extends n.Namesakes n' where
  kind : n.kind.bare = n'.kind.bare
  attributes : ∀ {α : Type} (a : Attribute α), a.Bare → n.lookup a = n'.lookup a

namespace Schema

variable {s s' : Schema}

theorem Counterpart.twins (same : s.Counterpart s') {n : Node s} {n' : Node s'}
    (id : n.id = n'.id) : n.Twins n' := by
  have lookup : ∀ {α : Type} (a : Attribute α), a.Bare → n.lookup a = n'.lookup a := by
    intro α a bare
    rw [Node.lookup, Node.lookup, id, same.lookup_eq bare]
  have kind : n.kind.bare = n'.kind.bare := by
    obtain ⟨e', found, alike⟩ := same.get? n.found
    rw [id] at found
    cases found.symm.trans n'.found
    exact congrArg Element.kind alike
  refine ⟨⟨id, ?_⟩, kind, lookup⟩
  have name : n.name = n'.name := by
    rw [Node.name, Node.name, Node.lookupD, Node.lookupD, lookup]
    rfl
  rw [Node.label, Node.label, name, ← Kind.name_bare n.kind, ← Kind.name_bare n'.kind, kind, id]

theorem Counterpart.node? (same : s.Counterpart s') {id : ElementId} {n : Node s}
    (h : s.node? id = some n) : ∃ n', s'.node? id = some n' ∧ n.Twins n' := by
  obtain ⟨e', found, -⟩ := same.get? (found_of_node? h)
  obtain ⟨n', h', id'⟩ := node?_of_get? found
  exact ⟨n', h', same.twins ((id_of_node? h).trans id'.symm)⟩

theorem node?_eq_none_iff {id : ElementId} : s.node? id = none ↔ s.get? id = none := by
  constructor
  · intro h
    cases got : s.get? id with
    | none => rfl
    | some e =>
      obtain ⟨n, found, -⟩ := node?_of_get? got
      cases h.symm.trans found
  · intro missing
    cases found : s.node? id with
    | none => rfl
    | some n => cases missing.symm.trans (found_of_node? found)

theorem Counterpart.node?_none (same : s.Counterpart s') {id : ElementId}
    (h : s.node? id = none) : s'.node? id = none :=
  node?_eq_none_iff.mpr (same.missing (node?_eq_none_iff.mp h))

end Schema

namespace Node.Twins

theorem refl {s : Schema} (n : Node s) : n.Twins n := (Schema.Counterpart.refl s).twins rfl

variable {s s' : Schema} {n : Node s} {n' : Node s'} {α : Type}

theorem lookup (twins : n.Twins n') {a : Attribute α} (bare : a.Bare) :
    n.lookup a = n'.lookup a :=
  twins.attributes a bare

theorem lookupD (twins : n.Twins n') {a : Attribute α} {fallback : α} (bare : a.Bare) :
    n.lookupD a fallback = n'.lookupD a fallback := by
  rw [Node.lookupD, Node.lookupD, twins.lookup bare]

theorem kindName (twins : n.Twins n') : n.kind.name = n'.kind.name := by
  rw [← Kind.name_bare n.kind, ← Kind.name_bare n'.kind, twins.kind]

theorem kind_eq (twins : n.Twins n') (same : s = s') : n.kind = n'.kind := by
  subst same
  have found := n.found
  rw [twins.id, n'.found] at found
  exact congrArg Element.kind (Option.some.inj found.symm)

theorem order_eq (twins : n.Twins n') (same : s = s') : n.order = n'.order := by
  subst same
  rw [Node.eq_of_id twins.id]

theorem kind_cases (twins : n.Twins n') :
    (∃ body body', n.kind = .structure body ∧ n'.kind = .structure body') ∨
      (∀ body, n.kind ≠ .structure body) ∧ n.kind = n'.kind :=
  Kind.cases_bare twins.kind

end Node.Twins

/-! ## The standard evaluator -/

namespace Value

variable {s s' : Schema}

mutual

theorem findNamed?_congr (same : hasName s = hasName s') (name : String) :
    ∀ v : Value, v.findNamed? s name = v.findNamed? s' name
  | ⟨element, offset, len, order, payload, children⟩ => by
    rw [findNamed?, findNamed?, same, findNamedIn?_congr same name children]

theorem findNamedIn?_congr (same : hasName s = hasName s') (name : String) :
    ∀ vs : List Value, findNamedIn? s name vs = findNamedIn? s' name vs
  | [] => by rw [findNamedIn?, findNamedIn?]
  | v :: rest => by
    rw [findNamedIn?, findNamedIn?, findNamed?_congr same name v,
      findNamedIn?_congr same name rest]

end

end Value

theorem Context.lookup_congr {s s' : Schema} (same : Value.hasName s = Value.hasName s')
    (frames : List Frame) : Context.lookup ⟨s, frames⟩ = Context.lookup ⟨s', frames⟩ := by
  have named : Value.findNamed? s = Value.findNamed? s' :=
    funext fun name => funext (Value.findNamed?_congr same name)
  funext names
  cases names with
  | nil => rfl
  | cons first rest =>
    simp only [Context.lookup, Context.sibling?, Context.descendant?, Value.childNamed?, named,
      same]

/-- Schemas that give the same names to values give the same meaning to expressions. -/
theorem Evaluator.evaluateStandard_congr {s s' : Schema}
    (same : Value.hasName s = Value.hasName s') (frames : List Frame) (text : String) :
    Evaluator.evaluateStandard ⟨s, frames⟩ text = Evaluator.evaluateStandard ⟨s', frames⟩ text := by
  have named : Context.named ⟨s, frames⟩ = Context.named ⟨s', frames⟩ := by
    unfold Context.named
    rw [Context.lookup_congr same]
  have integer : Context.integer ⟨s, frames⟩ = Context.integer ⟨s', frames⟩ := by
    unfold Context.integer
    rw [named]
  unfold Evaluator.evaluateStandard
  rw [named, integer]

namespace Schema.Counterpart

variable {s s' : Schema} (same : s.Counterpart s')

include same

theorem hasName_eq : Value.hasName s = Value.hasName s' := by
  funext name v
  have names : v.name s = v.name s' := by
    unfold Value.name
    cases found : s.node? v.element with
    | none => rw [same.node?_none found]
    | some n =>
      obtain ⟨n', found', twins⟩ := same.node? found
      rw [found']
      exact twins.lookupD rfl
  unfold Value.hasName
  rw [names]

/-- Expressions name values by the names of their elements, which do not depend on children. -/
theorem evaluateStandard_eq (frames : List Frame) (text : String) :
    Evaluator.evaluateStandard ⟨s, frames⟩ text = Evaluator.evaluateStandard ⟨s', frames⟩ text :=
  Evaluator.evaluateStandard_congr same.hasName_eq frames text

end Schema.Counterpart

/-! ## Decoders -/

/-- Two decoders, perhaps over different sources, for counterparts of one schema. -/
structure Decoder.Counterpart {σ τ : Type} (d : Decoder σ) (d' : Decoder τ) : Prop where
  schema : d.schema.Counterpart d'.schema
  evaluates : ∀ frames text, d.evaluator.evaluate ⟨d.schema, frames⟩ text =
    d'.evaluator.evaluate ⟨d'.schema, frames⟩ text
  encodings : d.encodings = d'.encodings
  strict : d.options.strict = d'.options.strict
  maxDepth : d.options.maxDepth = d'.options.maxDepth
  maxRepeat : d.options.maxRepeat = d'.options.maxRepeat

theorem Decoder.Counterpart.refl {σ : Type} (d : Decoder σ) : d.Counterpart d :=
  ⟨.refl d.schema, fun _ _ => rfl, rfl, rfl, rfl, rfl⟩

theorem Decoder.Counterpart.symm {σ τ : Type} {d : Decoder σ} {d' : Decoder τ}
    (kin : d.Counterpart d') : d'.Counterpart d :=
  ⟨kin.schema.symm, fun frames text => (kin.evaluates frames text).symm, kin.encodings.symm,
    kin.strict.symm, kin.maxDepth.symm, kin.maxRepeat.symm⟩

end BinaryTemplate
