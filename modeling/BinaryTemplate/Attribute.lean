import BinaryTemplate.Schema

/-!
# Effective attribute values

The effective value of an attribute is found by walking along fallback links. The walk tries, in
order, the element itself, the structure behind a structure reference, the element's template and
the element's parent; the scope of an attribute says which of these links count. Links may form
any graph, so the walk carries the chain of elements whose fallbacks it is in: an element that
returns on its own chain would make the walk go on forever, and the walk stops there with a
`CycleError`. An element met twice on different branches is no cycle.
-/

namespace BinaryTemplate

/-- A walk that came back to an element on its own chain. -/
structure CycleError where
  attributeName : String
  element : ElementId
  depth : Nat
deriving DecidableEq, Repr, Inhabited

namespace CycleError

def message (e : CycleError) : String :=
  "attribute `" ++ e.attributeName ++ "` loops back to element " ++ e.element.text ++ " after " ++
    toString e.depth ++ " inheritance links (cycle in extends/parent)"

end CycleError

inductive Scope where
  /-- The template. -/
  | identity
  /-- The structure behind a reference, then the template. -/
  | template
  /-- As `template`, then the parent. -/
  | structural
deriving DecidableEq, Repr, Inhabited

/-- An optional attribute of elements: the key that names it in messages, the links that it
follows, and how to read the value that is set on an element itself. -/
structure Attribute (α : Type) where
  key : String
  scope : Scope
  own : Element → Option α

/-- A search along links: the value that an element itself has, and the elements to ask next. -/
structure Walk (α : Type) where
  key : String
  own : Element → Option α
  links : ElementId → Element → Except CycleError (List ElementId)

namespace Schema

/-- How many elements of the schema are not on the chain. -/
def offChain (s : Schema) (chain : List ElementId) : Nat :=
  (s.ids.filter (· ∉ chain)).length

theorem offChain_cons_lt {s : Schema} {chain : List ElementId} {id : ElementId} {e : Element}
    (fresh : id ∉ chain) (found : s.get? id = some e) :
    s.offChain (id :: chain) < s.offChain chain := by
  have isId : id ∈ s.ids := by
    simp only [ids, List.mem_map, List.mem_range]
    exact ⟨id.index, index_lt_size_of_get? found, rfl⟩
  have split : s.ids.filter (· ∉ id :: chain) = (s.ids.filter (· ∉ chain)).filter (· ≠ id) := by
    rw [List.filter_filter]
    congr 1
    funext other
    simp
  unfold offChain
  rw [split, List.length_filter_lt_length_iff_exists]
  exact ⟨id, by simp [isId, fresh], by simp⟩

mutual

/-- The value that a walk finds from `id`, given the chain of elements that it is below. -/
def search {α : Type} (s : Schema) (w : Walk α) (chain : List ElementId) (id : ElementId) :
    Except CycleError (Option α) :=
  -- The chain holds the elements that this one is reached through, not all that were visited.
  if _fresh : id ∈ chain then
    .error { attributeName := w.key, element := id, depth := chain.length }
  else
    match _found : s.get? id with
    -- A link that dangles ends its branch and is no error.
    | none => .ok none
    | some e =>
      match w.own e with
      | some v => .ok (some v)
      | none =>
        match w.links id e with
        | .error cycle => .error cycle
        | .ok next => s.searchFirst w (id :: chain) next
termination_by (s.offChain chain, 0)
decreasing_by
  -- Every element that is entered is one less that is off the chain.
  exact Prod.Lex.left _ _ (offChain_cons_lt _fresh _found)

/-- The value that a walk finds from the first of several elements that has one. -/
def searchFirst {α : Type} (s : Schema) (w : Walk α) (chain : List ElementId) :
    List ElementId → Except CycleError (Option α)
  | [] => .ok none
  | id :: rest =>
    match s.search w chain id with
    | .error cycle => .error cycle
    | .ok (some v) => .ok (some v)
    | .ok none => s.searchFirst w chain rest
termination_by ids => (s.offChain chain, ids.length + 1)

end

end Schema

namespace Attribute

/-- The structure that a structure reference names. -/
def structure? : Attribute ElementId where
  key := "structure"
  scope := .identity
  own e := match e.kind with
    | .structRef body => body.structure?
    | _ => none

end Attribute

namespace Schema

/-- The structure behind `id`: set on the reference itself or on one of its templates. -/
def structureLink (s : Schema) (id : ElementId) : Except CycleError (Option ElementId) :=
  s.search
    { key := Attribute.structure?.key
      own := Attribute.structure?.own
      links := fun _ e => .ok e.traits.template.toList }
    [] id

/-- The structure link as far as attributes of the given scope follow it. -/
def referenceLink (s : Schema) (scope : Scope) (id : ElementId) (e : Element) :
    Except CycleError (Option ElementId) :=
  match scope, e.kind with
  | .identity, _ => .ok none
  -- The structure of a reference is itself inherited, along templates alone.
  | _, .structRef _ => s.structureLink id
  | _, _ => .ok none

/-- The elements that an attribute of the given scope falls back to, in order. -/
def fallbacks (s : Schema) (scope : Scope) (id : ElementId) (e : Element) :
    Except CycleError (List ElementId) :=
  (s.referenceLink scope id e).map fun target =>
    target.toList ++ e.traits.template.toList ++
      (if scope = .structural then e.traits.parent.toList else [])

/-- The effective value of an attribute before defaults; `none` when no element along the
links sets it. -/
def lookup {α : Type} (s : Schema) (a : Attribute α) (id : ElementId) :
    Except CycleError (Option α) :=
  s.search { key := a.key, own := a.own, links := s.fallbacks a.scope } [] id

end Schema

end BinaryTemplate
