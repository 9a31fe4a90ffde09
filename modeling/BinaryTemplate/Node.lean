import BinaryTemplate.Attribute.Table

/-!
# Nodes

A node is an element that is known to be in a schema. It answers the effective value of each
attribute, with the default that applies when no element along the links sets it.
-/

namespace BinaryTemplate

/-- An element together with the evidence that the schema holds it. -/
structure Node (s : Schema) where
  id : ElementId
  element : Element
  found : s.get? id = some element

def Schema.node? (s : Schema) (id : ElementId) : Option (Node s) :=
  match found : s.get? id with
  | some e => some ⟨id, e, found⟩
  | none => none

theorem Schema.id_of_node? {s : Schema} {id : ElementId} {n : Node s}
    (h : s.node? id = some n) : n.id = id := by
  unfold Schema.node? at h
  split at h
  · cases h; rfl
  · cases h

theorem Schema.found_of_node? {s : Schema} {id : ElementId} {n : Node s}
    (h : s.node? id = some n) : s.get? id = some n.element := by
  have found := n.found
  rw [Schema.id_of_node? h] at found
  exact found

theorem Schema.node?_of_get? {s : Schema} {id : ElementId} {e : Element}
    (found : s.get? id = some e) : ∃ n : Node s, s.node? id = some n ∧ n.id = id := by
  unfold Schema.node?
  split
  · exact ⟨_, rfl, rfl⟩
  · rename_i missing
    cases missing.symm.trans found

/-- The id of a node determines it. -/
theorem Node.eq_of_id {s : Schema} {n n' : Node s} (same : n.id = n'.id) : n = n' := by
  obtain ⟨id, e, found⟩ := n
  obtain ⟨id', e', found'⟩ := n'
  obtain rfl : id = id' := same
  cases found.symm.trans found'
  rfl

theorem Schema.node?_of_id {s : Schema} (n : Node s) : s.node? n.id = some n := by
  obtain ⟨n', found, same⟩ := Schema.node?_of_get? n.found
  rw [found, Node.eq_of_id same]

namespace Node

variable {s : Schema}

def lookup {α : Type} (n : Node s) (a : Attribute α) : Except CycleError (Option α) :=
  s.lookup a n.id

def lookupD {α : Type} (n : Node s) (a : Attribute α) (fallback : α) : Except CycleError α :=
  (n.lookup a).map (·.getD fallback)

def kind (n : Node s) : Kind := n.element.kind

def template? (n : Node s) : Option (Node s) :=
  n.element.traits.template.bind s.node?

def parent? (n : Node s) : Option (Node s) :=
  n.element.traits.parent.bind s.node?

/-! ## Identity -/

def name (n : Node s) : Except CycleError String := n.lookupD .name ""

def description (n : Node s) : Except CycleError String := n.lookupD .description ""

def elemType (n : Node s) : Except CycleError String := n.lookupD .elemType ""

/-- How messages call the element: `kind:name`, or `kind#id` when it has no name. -/
def label (n : Node s) : String :=
  let name := n.name.toOption.getD ""
  if name.isEmpty then n.kind.name ++ n.id.text else n.kind.name ++ ":" ++ name

/-! ## Presentation -/

def fill (n : Node s) : Except CycleError Colour := n.lookupD .fill .white

def stroke (n : Node s) : Except CycleError Colour := n.lookupD .stroke .black

def radix (n : Node s) : Except CycleError Radix := n.lookupD .radix .dec

/-! ## Layout -/

/-- The number of repeats when a bound is not set. -/
def once : Reference := .literal 1

def repeatMin (n : Node s) : Except CycleError Reference := n.lookupD .repeatMin once

def repeatMax (n : Node s) : Except CycleError Reference := n.lookupD .repeatMax once

def byteOrder (n : Node s) : Except CycleError ByteOrder := n.lookupD .byteOrder .little

def encoding (n : Node s) : Except CycleError String := n.lookupD .encoding "UTF-8"

def lengthUnit (n : Node s) : Except CycleError LengthUnit := n.lookupD .lengthUnit .byte

def order (n : Node s) : Except CycleError ChildOrder := n.lookupD .order .declared

/-! ## Constraints and links -/

def mustMatch (n : Node s) : Except CycleError Bool := n.lookupD .mustMatch true

def numberKind (n : Node s) : Except CycleError NumberKind := n.lookupD .numberKind .unsigned

def numberValues (n : Node s) : Except CycleError (List (NamedValue Int64)) :=
  n.lookupD .numberValues []

def masks (n : Node s) : Except CycleError (List Mask) := n.lookupD .masks []

def stringValues (n : Node s) : Except CycleError (List (NamedValue String)) :=
  n.lookupD .stringValues []

def binaryValues (n : Node s) : Except CycleError (List (NamedValue (List UInt8))) :=
  n.lookupD .binaryValues []

def followNull (n : Node s) : Except CycleError Bool := n.lookupD .followNull false

def filename (n : Node s) : Except CycleError String := n.lookupD .filename ""

def uti (n : Node s) : Except CycleError String := n.lookupD .uti ""

def disabled (n : Node s) : Except CycleError Bool := n.lookupD .disabled false

end Node

end BinaryTemplate
