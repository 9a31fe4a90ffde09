import BinaryTemplate.Value

/-!
# The context of a decode

What is known at a point of a decode: the open containers, and the values completed in each. A
path finds a value by its names, an element id finds a value of that element, and both look into
the innermost container first and at recent values before older ones.
-/

namespace BinaryTemplate

/-- An open container, or the scope of a decode that is not inside one. -/
structure Frame where
  element : ElementId
  /-- The structure behind a structure reference. -/
  definition : Option ElementId
  start : Nat
  stop : Nat
  /-- The completed values, the most recent one first. -/
  completed : List Value
  isScope : Bool
deriving Repr

namespace Frame

def scope (element : ElementId) (start stop : Nat) : Frame :=
  ⟨element, none, start, stop, [], true⟩

def container (element : ElementId) (definition : Option ElementId) (start stop : Nat) : Frame :=
  ⟨element, definition, start, stop, [], false⟩

def complete (f : Frame) (v : Value) : Frame := { f with completed := v :: f.completed }

def children (f : Frame) : List Value := f.completed.reverse

end Frame

structure Context where
  schema : Schema
  frames : List Frame

namespace Context

def empty (s : Schema) : Context := ⟨s, []⟩

/-- The completed values of the innermost open frame, in decode order. -/
def siblings (c : Context) : List Value :=
  match c.frames with
  | [] => []
  | f :: _ => f.children

/-- The most recent completed value with the given name in the innermost frame that has one. -/
def sibling? (c : Context) (name : String) : Option Value :=
  c.frames.findSome? fun f => f.completed.find? (Value.hasName c.schema name)

/-- A value with the given name anywhere below the completed values. -/
def descendant? (c : Context) (name : String) : Option Value :=
  c.frames.findSome? fun f => f.completed.findSome? (Value.findNamed? c.schema name)

/-- The value that a path names. Its first name is looked for among the completed values of each
frame before their descendants; every further name is a child of the value before it. -/
def lookup (c : Context) : List String → Option Value
  | [] => none
  | first :: rest =>
    ((c.sibling? first).or (c.descendant? first)).bind fun v =>
      rest.foldlM (fun v name => v.childNamed? c.schema name) v

/-- A completed value of an element, from the innermost frame and the most recent tree that has
one. -/
def find? (c : Context) (element : ElementId) : Option Value :=
  c.frames.findSome? fun f => f.completed.findSome? (Value.find? element)

/-- The start of the innermost open container that decodes `element`, as its own element or as
the structure behind a reference. -/
def containerStart? (c : Context) (element : ElementId) : Option Nat :=
  (c.frames.find? fun f =>
    !f.isScope && (f.element == element || f.definition == some element)).map (·.start)

end Context

end BinaryTemplate
