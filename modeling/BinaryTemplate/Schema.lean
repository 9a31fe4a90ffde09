import BinaryTemplate.Element.Setter

/-!
# Schemas

A schema holds all elements of a template in one array; an element's id is its index. A schema is
made with a `SchemaBuilder`, which hands out the ids in order and links an element to the
container that it is added to. After that a schema only answers questions.
-/

namespace BinaryTemplate

/-- The elements of a template and the one that a decode starts from. -/
structure Schema where
  elements : Array Element
  root : ElementId
deriving Repr, Inhabited

namespace Schema

/-- The element with the given id; `none` for a dangling id. -/
def get? (s : Schema) (id : ElementId) : Option Element :=
  s.elements[id.index]?

def size (s : Schema) : Nat := s.elements.size

def ids (s : Schema) : List ElementId :=
  (List.range s.size).map ElementId.mk

/-- The first element whose own name, not an inherited one, is `name`. -/
def findByName (s : Schema) (name : String) : Option ElementId :=
  s.ids.find? fun id => (s.get? id).any fun e => e.traits.name == some name

theorem index_lt_size_of_get? {s : Schema} {id : ElementId} {e : Element}
    (found : s.get? id = some e) : id.index < s.size := by
  obtain ⟨inRange, _⟩ := Array.getElem?_eq_some_iff.mp found
  exact inRange

end Schema

structure SchemaBuilder where
  elements : Array Element := #[]
deriving Repr, Inhabited

namespace SchemaBuilder

def nextId (b : SchemaBuilder) : ElementId := ⟨b.elements.size⟩

/-- Adds an element that is nobody's child. -/
def define (b : SchemaBuilder) (e : Element) : SchemaBuilder :=
  { b with elements := b.elements.push e }

def modify (b : SchemaBuilder) (id : ElementId) (f : Element → Element) : SchemaBuilder :=
  { b with elements := b.elements.modify id.index f }

def isGrammar (b : SchemaBuilder) (id : ElementId) : Bool :=
  match b.elements[id.index]? with
  | some ⟨_, .grammar _⟩ => true
  | _ => false

/-- Adds an element as the last child of `container`. Children of a grammar have no parent; any
other container becomes the parent of what is added to it, whether it exists and can have
children or not. -/
def add (b : SchemaBuilder) (container : ElementId) (e : Element) : SchemaBuilder :=
  let e := if b.isGrammar container then e else e.setParent (some container)
  (b.define e).modify container (Element.mapKind (Kind.addChild b.nextId))

def setTemplate (b : SchemaBuilder) (id base : ElementId) : SchemaBuilder :=
  b.modify id (Element.setTemplate base)

def setStart (b : SchemaBuilder) (id start : ElementId) : SchemaBuilder :=
  b.modify id (Element.setStart start)

def build (b : SchemaBuilder) (root : ElementId) : Schema where
  elements := b.elements
  root := root

end SchemaBuilder

end BinaryTemplate
