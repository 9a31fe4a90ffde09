import BinaryTemplate.Proofs.Counterpart
import BinaryTemplate.Proofs.Lookalikes

/-!
# Without listed values

A template in which one element lists no values: the list that it would have, be it its own or
inherited, is overridden by an empty one. No other attribute of any element depends on a list, and
neither does what expressions name; so the element looks like the one in the template, but it is
compared with nothing.
-/

namespace BinaryTemplate

/-! ## Templates -/

/-- The kind with an empty list of values. -/
def Kind.unlisted : Kind → Kind
  | .number body => .number { body with values := some [] }
  | .string body => .string { body with values := some [] }
  | .binary body => .binary { body with values := some [] }
  | kind => kind

def Element.unlisted (e : Element) : Element := { e with kind := e.kind.unlisted }

/-- The template in which an element lists no values. -/
def Schema.unlisted (s : Schema) (id : ElementId) : Schema :=
  { s with elements := s.elements.modify id.index Element.unlisted }

@[simp] theorem Kind.name_unlisted (kind : Kind) : kind.unlisted.name = kind.name := by
  cases kind <;> rfl

/-- An attribute that is not a list of values. -/
structure Attribute.NoList {α : Type} (a : Attribute α) : Prop where
  number : (fun traits body => a.own ⟨traits, .number { body with values := some [] }⟩) =
    fun traits body => a.own ⟨traits, .number body⟩
  string : (fun traits body => a.own ⟨traits, .string { body with values := some [] }⟩) =
    fun traits body => a.own ⟨traits, .string body⟩
  binary : (fun traits body => a.own ⟨traits, .binary { body with values := some [] }⟩) =
    fun traits body => a.own ⟨traits, .binary body⟩

theorem Attribute.NoList.own_unlisted {α : Type} {a : Attribute α} (noList : a.NoList)
    (e : Element) : a.own e.unlisted = a.own e := by
  obtain ⟨traits, kind⟩ := e
  cases kind with
  | number body => exact congrFun (congrFun noList.number traits) body
  | string body => exact congrFun (congrFun noList.string traits) body
  | binary body => exact congrFun (congrFun noList.binary traits) body
  | _ => rfl

namespace Schema

variable {s : Schema} {α : Type}

theorem get?_unlisted (s : Schema) (id other : ElementId) :
    (s.unlisted id).get? other =
      (s.get? other).map fun e => if other = id then e.unlisted else e := by
  have same : id.index = other.index ↔ other = id := by
    cases id
    cases other
    simp [eq_comm]
  unfold unlisted get?
  rw [Array.getElem?_modify]
  by_cases isOne : other = id
  · simp only [if_pos isOne, if_pos (same.mpr isOne)]
  · simp only [if_neg isOne, if_neg (mt same.mp isOne), Option.map_id']

theorem elements_unlisted (s : Schema) (id other : ElementId) :
    Option.Rel (fun e e' => e' = e ∨ e' = e.unlisted) (s.get? other)
      ((s.unlisted id).get? other) := by
  rw [get?_unlisted]
  cases s.get? other with
  | none => exact .none
  | some e =>
    by_cases isOne : other = id
    · exact .some (.inr (if_pos isOne))
    · exact .some (.inl (if_neg isOne))

theorem structureLink_unlisted (s : Schema) (id other : ElementId) :
    (s.unlisted id).structureLink other = s.structureLink other := by
  refine (search_congr (s.elements_unlisted id) rfl ?_ ?_ [] other).symm
  · rintro e _ (rfl | rfl)
    · rfl
    · exact (Attribute.NoList.own_unlisted (a := .structure?) ⟨rfl, rfl, rfl⟩ e).symm
  · rintro other e _ (rfl | rfl) <;> rfl

theorem fallbacks_unlisted (s : Schema) (id : ElementId) (scope : Scope) (other : ElementId)
    {e e' : Element} (alike : e' = e ∨ e' = e.unlisted) :
    (s.unlisted id).fallbacks scope other e' = s.fallbacks scope other e := by
  have link (e : Element) :
      (s.unlisted id).referenceLink scope other e = s.referenceLink scope other e := by
    unfold referenceLink
    rw [s.structureLink_unlisted id other]
  have original : (s.unlisted id).fallbacks scope other e = s.fallbacks scope other e := by
    unfold fallbacks
    rw [link]
  obtain rfl | rfl := alike
  · exact original
  · rw [← original]
    obtain ⟨traits, kind⟩ := e
    cases kind <;> cases scope <;> rfl

theorem lookup_unlisted (s : Schema) (id : ElementId) {a : Attribute α} (noList : a.NoList)
    (other : ElementId) : (s.unlisted id).lookup a other = s.lookup a other := by
  symm
  refine search_congr (s.elements_unlisted id) ?_ ?_ ?_ [] other
  · rfl
  · rintro e _ (rfl | rfl)
    · rfl
    · exact (noList.own_unlisted e).symm
  · exact fun other _ _ alike => (s.fallbacks_unlisted id a.scope other alike).symm

/-- What an element has itself is its effective value. -/
theorem lookup_own {a : Attribute α} {id : ElementId} {e : Element} {value : α}
    (found : s.get? id = some e) (own : a.own e = some value) :
    s.lookup a id = .ok (some value) := by
  unfold lookup
  rw [search_found List.not_mem_nil found]
  simp only [own]

/-- Names do not depend on lists, so values and expressions keep their meaning. -/
theorem hasName_unlisted (s : Schema) (id : ElementId) :
    Value.hasName (s.unlisted id) = Value.hasName s := by
  funext name v
  have names : v.name (s.unlisted id) = v.name s := by
    unfold Value.name
    have name_ (n : Node s) (n' : Node (s.unlisted id)) (same : n.id = n'.id) :
        n'.name = n.name := by
      unfold Node.name Node.lookupD Node.lookup
      rw [← same, s.lookup_unlisted id ⟨rfl, rfl, rfl⟩]
    cases found : s.node? v.element with
    | none =>
      have missing : (s.unlisted id).node? v.element = none := by
        rw [node?_eq_none_iff] at found ⊢
        rw [get?_unlisted, found]
        rfl
      rw [missing]
    | some n =>
      have got := congrArg (Option.map fun e => if v.element = id then e.unlisted else e)
        (found_of_node? found)
      rw [← get?_unlisted] at got
      obtain ⟨n', found', same⟩ := node?_of_get? got
      rw [found']
      exact name_ n n' ((id_of_node? found).trans same.symm)
  unfold Value.hasName
  rw [names]

end Schema

/-! ## Nodes -/

namespace Node

variable {s : Schema} {α : Type}

/-- The element in the template in which it lists no values. -/
def unlisted (n : Node s) : Node (s.unlisted n.id) where
  id := n.id
  element := n.element.unlisted
  found := by rw [s.get?_unlisted, n.found, Option.map_some, if_pos rfl]

theorem lookup_unlisted (n : Node s) {a : Attribute α} (noList : a.NoList) :
    n.unlisted.lookup a = n.lookup a :=
  s.lookup_unlisted n.id noList n.id

theorem lookupD_unlisted (n : Node s) {a : Attribute α} (noList : a.NoList) (fallback : α) :
    n.unlisted.lookupD a fallback = n.lookupD a fallback := by
  rw [lookupD, n.lookup_unlisted noList, lookupD]

theorem lookupD_own (n : Node s) {a : Attribute α} {value : α} (own : a.own n.element = some value)
    (fallback : α) : n.lookupD a fallback = .ok value := by
  rw [lookupD, lookup, Schema.lookup_own n.found own]
  rfl

theorem namesakes_unlisted (n : Node s) : n.Namesakes n.unlisted := by
  refine ⟨rfl, ?_⟩
  have name : n.unlisted.name = n.name := n.lookupD_unlisted (a := .name) ⟨rfl, rfl, rfl⟩ ""
  have kind : n.unlisted.kind.name = n.kind.name := n.kind.name_unlisted
  unfold label
  rw [name, kind]
  rfl

theorem numberValues_unlisted (n : Node s) {body : NumberBody} (kind : n.kind = .number body) :
    n.unlisted.numberValues = .ok [] := by
  refine n.unlisted.lookupD_own ?_ []
  show Attribute.numberValues.own ⟨n.element.traits, n.kind.unlisted⟩ = some []
  rw [kind]
  rfl

theorem stringValues_unlisted (n : Node s) {body : StringBody} (kind : n.kind = .string body) :
    n.unlisted.stringValues = .ok [] := by
  refine n.unlisted.lookupD_own ?_ []
  show Attribute.stringValues.own ⟨n.element.traits, n.kind.unlisted⟩ = some []
  rw [kind]
  rfl

theorem binaryValues_unlisted (n : Node s) {body : BinaryBody} (kind : n.kind = .binary body) :
    n.unlisted.binaryValues = .ok [] := by
  refine n.unlisted.lookupD_own ?_ []
  show Attribute.binaryValues.own ⟨n.element.traits, n.kind.unlisted⟩ = some []
  rw [kind]
  rfl

end Node

/-! ## Decoders -/

/-- The decoder for the template in which an element lists no values. -/
@[reducible] def Decoder.unlisted {σ : Type} (d : Decoder σ) (id : ElementId) : Decoder σ :=
  { d with schema := d.schema.unlisted id }

namespace Decoder

variable {σ : Type} {d : Decoder σ} {p : Place} {n : Node d.schema}

/-- Expressions come to the same whether an element lists its values or not. -/
def OverlooksList (d : Decoder σ) (id : ElementId) : Prop :=
  ∀ frames text, d.evaluator.evaluate ⟨d.schema.unlisted id, frames⟩ text =
    d.evaluator.evaluate ⟨d.schema, frames⟩ text

/-- The standard evaluator looks at nothing but names and values. -/
theorem overlooksList_of_standard (standard : d.evaluator = .standard) (id : ElementId) :
    d.OverlooksList id := by
  intro frames text
  rw [standard]
  exact Evaluator.evaluateStandard_congr (d.schema.hasName_unlisted id) frames text

theorem lookalikes_unlisted (overlooks : d.OverlooksList n.id) (p : Place) :
    @Lookalikes σ d (d.unlisted n.id) p p n n.unlisted where
  names := n.namesakes_unlisted
  limit := rfl
  evaluates := overlooks (p.inner :: p.outer)
  encodings := rfl
  strict := rfl
  length := n.lookup_unlisted ⟨rfl, rfl, rfl⟩
  lengthUnit := n.lookupD_unlisted (a := .lengthUnit) ⟨rfl, rfl, rfl⟩ _
  byteOrder := n.lookupD_unlisted (a := .byteOrder) ⟨rfl, rfl, rfl⟩ _
  numberKind := n.lookupD_unlisted (a := .numberKind) ⟨rfl, rfl, rfl⟩ _
  valueExpression := n.lookup_unlisted ⟨rfl, rfl, rfl⟩
  minVal := n.lookup_unlisted ⟨rfl, rfl, rfl⟩
  maxVal := n.lookup_unlisted ⟨rfl, rfl, rfl⟩
  masks := n.lookupD_unlisted (a := .masks) ⟨rfl, rfl, rfl⟩ _
  encoding := n.lookupD_unlisted (a := .encoding) ⟨rfl, rfl, rfl⟩ _
  delimiter := n.lookup_unlisted ⟨rfl, rfl, rfl⟩
  stringKind := n.lookup_unlisted ⟨rfl, rfl, rfl⟩

end Decoder

end BinaryTemplate
