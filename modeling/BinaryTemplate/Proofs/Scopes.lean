import BinaryTemplate.Proofs.Counterpart

/-!
# What the scopes of attributes keep apart

The scope of an attribute says along which links its value may be found. A link that does not count
for the scope makes no difference, wherever it leads and whatever it closes a cycle with: parents
only matter to the four attributes of structural scope, and the structure that a reference names
matters to no attribute of identity scope but to itself. Two schemas that differ in such links only
are walked through in step, so what is compared is also how a lookup fails.
-/

namespace BinaryTemplate

/-! ## Elements without some of their links -/

/-- The element without its parent. -/
def Element.parentless (e : Element) : Element :=
  { e with traits := { e.traits with parent := none } }

/-- The kind without the structure that a reference names. -/
def Kind.unbound : Kind → Kind
  | .structRef body => .structRef { body with structure? := none }
  | kind => kind

/-- The element without its parent and without the structure that it names. -/
def Element.unbound (e : Element) : Element :=
  ⟨e.parentless.traits, e.kind.unbound⟩

namespace Schema

/-- The same elements but for what `drop` takes from each of them. -/
def SameUpTo (drop : Element → Element) (s s' : Schema) : Prop :=
  ∀ id, (s.get? id).map drop = (s'.get? id).map drop

variable {s s' : Schema} {drop : Element → Element}

theorem SameUpTo.elements (same : SameUpTo drop s s') (id : ElementId) :
    Option.Rel (fun e e' => drop e = drop e') (s.get? id) (s'.get? id) := by
  have alike := same id
  generalize s.get? id = e at alike ⊢
  generalize s'.get? id = e' at alike ⊢
  cases e with
  | none =>
    cases e' with
    | none => exact .none
    | some e' => cases alike
  | some e =>
    cases e' with
    | none => cases alike
    | some e' => exact .some (Option.some.inj alike)

end Schema

/-! ## The attributes of a template -/

namespace Attribute

/-- An attribute together with the type of its values. -/
abbrev Typed := (α : Type) × Attribute α

/-- The attributes of identity scope. -/
def identifying : List Typed :=
  [⟨_, id⟩, ⟨_, name⟩, ⟨_, description⟩, ⟨_, elemType⟩, ⟨_, structure?⟩]

/-- The attributes of template scope. -/
def templated : List Typed :=
  [⟨_, fill⟩, ⟨_, stroke⟩, ⟨_, repeatMin⟩, ⟨_, repeatMax⟩, ⟨_, length⟩, ⟨_, lengthOffset⟩,
    ⟨_, order⟩, ⟨_, mustMatch⟩, ⟨_, numberKind⟩, ⟨_, minVal⟩, ⟨_, maxVal⟩, ⟨_, numberValues⟩,
    ⟨_, masks⟩, ⟨_, valueExpression⟩, ⟨_, stringKind⟩, ⟨_, delimiter⟩, ⟨_, stringValues⟩,
    ⟨_, binaryValues⟩, ⟨_, script⟩, ⟨_, references⟩, ⟨_, relativeTo⟩, ⟨_, referencedSize⟩,
    ⟨_, followNull⟩, ⟨_, additional⟩, ⟨_, grammar⟩, ⟨_, filename⟩, ⟨_, uti⟩, ⟨_, disabled⟩]

/-- The attributes of structural scope. -/
def structural : List Typed :=
  [⟨_, byteOrder⟩, ⟨_, radix⟩, ⟨_, encoding⟩, ⟨_, lengthUnit⟩]

/-- All attributes of a template. -/
def all : List Typed := identifying ++ templated ++ structural

variable {a : Typed}

theorem scope_identifying (member : a ∈ identifying) : a.2.scope = .identity := by
  fin_cases member <;> rfl

theorem scope_templated (member : a ∈ templated) : a.2.scope = .template := by
  fin_cases member <;> rfl

theorem scope_structural (member : a ∈ structural) : a.2.scope = .structural := by
  fin_cases member <;> rfl

theorem mem_all_iff : a ∈ all ↔ a ∈ identifying ∨ a ∈ templated ∨ a ∈ structural := by
  simp only [all, List.mem_append, or_assoc]

theorem mem_identifying_of_scope (member : a ∈ all) (scope : a.2.scope = .identity) :
    a ∈ identifying := by
  obtain here | here | here := mem_all_iff.mp member
  · exact here
  · cases scope.symm.trans (scope_templated here)
  · cases scope.symm.trans (scope_structural here)

theorem mem_structural_of_scope (member : a ∈ all) (scope : a.2.scope = .structural) :
    a ∈ structural := by
  obtain here | here | here := mem_all_iff.mp member
  · cases scope.symm.trans (scope_identifying here)
  · cases scope.symm.trans (scope_templated here)
  · exact here

/-- No attribute is kept in the parent link of an element. -/
theorem own_parentless (member : a ∈ all) (e : Element) : a.2.own e.parentless = a.2.own e := by
  fin_cases member <;> rfl

/-- What identifies an element is not kept in its parent link either, nor in the structure that it
names, unless it is just that structure. -/
theorem own_unbound (member : a ∈ identifying) (other : a ≠ ⟨_, structure?⟩) (e : Element) :
    a.2.own e.unbound = a.2.own e := by
  fin_cases member
  all_goals first | rfl | exact absurd rfl other

end Attribute

/-! ## Lookups -/

namespace Schema

variable {s s' : Schema} {α : Type} {a : Attribute α}

theorem template_of_parentless {e e' : Element} (same : e.parentless = e'.parentless) :
    e.traits.template = e'.traits.template :=
  congrArg (fun e => e.traits.template) same

/-- Without its parent an element falls back to the same elements, unless the scope counts it. -/
theorem fallbacks_of_parentless (same : s.SameUpTo Element.parentless s') {scope : Scope}
    (unstructural : scope ≠ .structural) {id : ElementId} {e e' : Element}
    (alike : e.parentless = e'.parentless) : s.fallbacks scope id e = s'.fallbacks scope id e' := by
  have kind : e.kind = e'.kind := congrArg (fun e => e.kind) alike
  have target : s.referenceLink scope id e = s'.referenceLink scope id e' := by
    have named : s.structureLink id = s'.structureLink id := by
      refine structureLink_congr same.elements (fun e e' alike => ?_) (fun e e' alike => ?_) id
      · have kind : e.kind = e'.kind := congrArg (fun e => e.kind) alike
        simp only [Attribute.structure?, kind]
      · exact template_of_parentless alike
    unfold referenceLink
    rw [kind, named]
  unfold fallbacks
  rw [target, template_of_parentless alike, if_neg unstructural, if_neg unstructural]

/-- Parents make no difference to an attribute whose scope does not count them. -/
theorem lookup_of_parentless (same : s.SameUpTo Element.parentless s')
    (unstructural : a.scope ≠ .structural) (own : ∀ e, a.own e.parentless = a.own e)
    (id : ElementId) : s.lookup a id = s'.lookup a id := by
  unfold lookup
  refine search_congr same.elements ?_ (fun e e' alike => ?_) (fun id e e' alike => ?_) [] id
  · rfl
  · show a.own e = a.own e'
    rw [← own e, alike, own e']
  · exact fallbacks_of_parentless same unstructural alike

/-- The scope that counts nothing but templates. -/
theorem fallbacks_identity (id : ElementId) (e : Element) :
    s.fallbacks .identity id e = .ok e.traits.template.toList := by
  simp [fallbacks, referenceLink, Except.map]

/-- Neither parents nor the structures that references name make a difference to an attribute of
identity scope: its walk follows templates alone. -/
theorem lookup_of_unbound (same : s.SameUpTo Element.unbound s') (identity : a.scope = .identity)
    (own : ∀ e, a.own e.unbound = a.own e) (id : ElementId) : s.lookup a id = s'.lookup a id := by
  unfold lookup
  refine search_congr same.elements ?_ (fun e e' alike => ?_) (fun id e e' alike => ?_) [] id
  · rfl
  · show a.own e = a.own e'
    rw [← own e, alike, own e']
  · show s.fallbacks a.scope id e = s'.fallbacks a.scope id e'
    rw [identity]
    have template : e.traits.template = e'.traits.template :=
      congrArg (fun e => e.traits.template) alike
    rw [fallbacks_identity, fallbacks_identity, template]

/-- The scopes of attributes are respected. Between two schemas with the same elements but for
their parents, every attribute of identity or template scope is looked up alike, with the same
value, with none or with the same error; if also the structures that references name may differ,
this holds of every attribute of identity scope but of the one that names them. So what an element
is in can only matter to the attributes of structural scope, which are the byte order, the radix,
the encoding and the length unit, and nothing that identifies a reference is taken from the
structure behind it. -/
theorem scopes_are_respected (s s' : Schema) :
    (s.SameUpTo Element.parentless s' → ∀ (α : Type) (a : Attribute α), ⟨α, a⟩ ∈ Attribute.all →
      a.scope = .identity ∨ a.scope = .template → ∀ id, s.lookup a id = s'.lookup a id) ∧
    (s.SameUpTo Element.unbound s' → ∀ (α : Type) (a : Attribute α), ⟨α, a⟩ ∈ Attribute.all →
      a.scope = .identity → (⟨α, a⟩ : Attribute.Typed) ≠ ⟨_, .structure?⟩ →
      ∀ id, s.lookup a id = s'.lookup a id) ∧
    (s.SameUpTo Element.parentless s' → ∀ (α : Type) (a : Attribute α), ⟨α, a⟩ ∈ Attribute.all →
      ∀ id, s.lookup a id ≠ s'.lookup a id →
      (⟨α, a⟩ : Attribute.Typed) ∈
        [⟨_, .byteOrder⟩, ⟨_, .radix⟩, ⟨_, .encoding⟩, ⟨_, .lengthUnit⟩]) := by
  refine ⟨?_, ?_, ?_⟩
  · intro same α a listed scope id
    refine lookup_of_parentless same ?_ (Attribute.own_parentless listed) id
    obtain scope | scope := scope <;> rw [scope] <;> decide
  · intro same α a listed scope other id
    have identifies := Attribute.mem_identifying_of_scope listed scope
    exact lookup_of_unbound same scope (Attribute.own_unbound identifies other) id
  · intro same α a listed id differs
    refine Attribute.mem_structural_of_scope listed (by_contra fun unstructural => ?_)
    exact differs (lookup_of_parentless same unstructural (Attribute.own_parentless listed) id)

/-! ## A reference among cycles -/

/-- A structure inside a reference to it, and references that are each other's template, with the
given parent of the structure and the given structure behind the reference. -/
def entangled (parent : Option ElementId) (target : ElementId) : Schema where
  elements := #[
    ⟨{ name := some "record", parent := parent },
      .structure { byteOrder := some .big, extent := { length := some (.literal 4) } }⟩,
    ⟨{ template := some ⟨2⟩, parent := some ⟨0⟩ }, .structRef { structure? := some target }⟩,
    ⟨{ template := some ⟨1⟩ }, .structRef {}⟩,
    ⟨{ parent := parent }, .number {}⟩]
  root := ⟨1⟩

theorem scopes_are_respected_entangled :
    (entangled (some ⟨1⟩) ⟨0⟩).lookup .length ⟨1⟩ = .ok (some (.literal 4)) ∧
      (entangled none ⟨0⟩).lookup .length ⟨1⟩ = .ok (some (.literal 4)) ∧
      (entangled (some ⟨1⟩) ⟨0⟩).lookup .name ⟨1⟩ = .error ⟨"name", ⟨1⟩, 2⟩ ∧
      (entangled none ⟨7⟩).lookup .name ⟨1⟩ = .error ⟨"name", ⟨1⟩, 2⟩ ∧
      (entangled (some ⟨1⟩) ⟨0⟩).lookup .byteOrder ⟨3⟩ = .ok (some .big) ∧
      (entangled none ⟨0⟩).lookup .byteOrder ⟨3⟩ = .ok none ∧
      (⟨_, .byteOrder⟩ : Attribute.Typed) ∈ Attribute.structural := by
  have alike : ∀ parent parent' target,
      (entangled parent target).SameUpTo Element.parentless (entangled parent' target) := by
    rintro parent parent' target ⟨_ | _ | _ | _ | index⟩ <;> rfl
  have alike' : (entangled (some ⟨1⟩) ⟨0⟩).SameUpTo Element.unbound (entangled none ⟨7⟩) := by
    rintro ⟨_ | _ | _ | _ | index⟩ <;> rfl
  obtain ⟨first, -, third⟩ := scopes_are_respected (entangled (some ⟨1⟩) ⟨0⟩) (entangled none ⟨0⟩)
  obtain ⟨-, second, -⟩ := scopes_are_respected (entangled (some ⟨1⟩) ⟨0⟩) (entangled none ⟨7⟩)
  have length : (entangled (some ⟨1⟩) ⟨0⟩).lookup .length ⟨1⟩ = .ok (some (.literal 4)) := by cbv
  have name : (entangled (some ⟨1⟩) ⟨0⟩).lookup .name ⟨1⟩ = .error ⟨"name", ⟨1⟩, 2⟩ := by cbv
  have order : (entangled (some ⟨1⟩) ⟨0⟩).lookup .byteOrder ⟨3⟩ = .ok (some .big) := by cbv
  have order' : (entangled none ⟨0⟩).lookup .byteOrder ⟨3⟩ = .ok none := by cbv
  refine ⟨length, ?_, name, ?_, order, order', ?_⟩
  · rw [← first (alike _ _ _) _ .length (by simp [Attribute.all, Attribute.templated])
      (.inr rfl) ⟨1⟩, length]
  · rw [← second alike' _ .name (by simp [Attribute.all, Attribute.identifying]) rfl ?_ ⟨1⟩, name]
    intro same
    have keys : "name" = "structure" := congrArg (fun a : Attribute.Typed => a.2.key) same
    exact absurd keys (by decide)
  · refine third (alike _ _ _) _ .byteOrder (by simp [Attribute.all, Attribute.structural]) ⟨3⟩ ?_
    rw [order, order']
    rintro ⟨⟩

end Schema

end BinaryTemplate
