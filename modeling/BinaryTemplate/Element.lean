import BinaryTemplate.Reference

/-!
# Elements of a template

An element describes one field, container or definition of a file format. It carries the traits
that every element may have and a body that depends on its kind. Every attribute is optional:
`none` means that the attribute is not set here and is looked up elsewhere, so a zero is never
confused with an absent value. Elements refer to one another by their index in the schema, and
nothing prevents such a link from dangling or from closing a cycle.
-/

namespace BinaryTemplate

structure ElementId where
  index : Nat
deriving DecidableEq, Repr, Inhabited

namespace ElementId

/-- The form that an element id has in messages. -/
def text (id : ElementId) : String := "#" ++ toString id.index

instance : ToString ElementId := ⟨text⟩

end ElementId

inductive ByteOrder where
  | little
  | big
deriving DecidableEq, Repr, Inhabited

inductive Radix where
  | dec
  | hex
  | octal
  | binary
deriving DecidableEq, Repr, Inhabited

inductive LengthUnit where
  | bit
  | byte
deriving DecidableEq, Repr, Inhabited

namespace LengthUnit

def bits : LengthUnit → Nat
  | .bit => 1
  | .byte => 8

def name : LengthUnit → String
  | .bit => "Bit"
  | .byte => "Byte"

end LengthUnit

/-- How the children of a structure follow one another. -/
inductive ChildOrder where
  /-- Each child definition is decoded in its turn. -/
  | declared
  /-- At each position the first child definition that decodes is taken. -/
  | anyOf
deriving DecidableEq, Repr, Inhabited

inductive NumberKind where
  | unsigned
  | signed
  | float
deriving DecidableEq, Repr, Inhabited

inductive StringKind where
  | fixedLength
  | zeroTerminated
  | pascal
  | delimited
deriving DecidableEq, Repr, Inhabited

structure Colour where
  rgb : UInt32
deriving DecidableEq, Repr, Inhabited

namespace Colour

def white : Colour := ⟨0xFFFFFF⟩

def black : Colour := ⟨0⟩

end Colour

/-- A value of a field that has a name: an integer, a text or a run of bytes. -/
structure NamedValue (α : Type) where
  name : String
  value : α
deriving DecidableEq, Repr

/-- A bit field inside a number, with names for some of its values. -/
structure Mask where
  name : String
  mask : UInt64
  values : List (NamedValue Int64)
deriving DecidableEq, Repr

/-- What every element may carry, whatever its kind. -/
structure Traits where
  id : Option Int64 := none
  name : Option String := none
  description : Option String := none
  elemType : Option String := none
  fill : Option Colour := none
  stroke : Option Colour := none
  repeatMin : Option Reference := none
  repeatMax : Option Reference := none
  /-- The template from which unset attributes are taken. -/
  template : Option ElementId := none
  /-- The container from which unset format attributes are taken. -/
  parent : Option ElementId := none
deriving DecidableEq, Repr, Inhabited

structure Extent where
  length : Option Reference := none
  unit : Option LengthUnit := none
deriving DecidableEq, Repr, Inhabited

/-- The body of a grammar: the top-level elements and the one that is decoded. -/
structure GrammarBody where
  children : List ElementId := []
  /-- When set, only this element is decoded and the children are definitions. -/
  start : Option ElementId := none
deriving DecidableEq, Repr, Inhabited

structure GrammarRefBody where
  filename : Option String := none
  uti : Option String := none
  disabled : Option Bool := none
  grammar : Option ElementId := none
deriving DecidableEq, Repr, Inhabited

structure StructureBody where
  children : List ElementId := []
  order : Option ChildOrder := none
  encoding : Option String := none
  byteOrder : Option ByteOrder := none
  radix : Option Radix := none
  extent : Extent := {}
  /-- Added to the length before the length is converted to bytes. -/
  lengthOffset : Option Reference := none
deriving DecidableEq, Repr, Inhabited

structure StructRefBody where
  structure? : Option ElementId := none
deriving DecidableEq, Repr, Inhabited

structure NumberBody where
  kind : Option NumberKind := none
  extent : Extent := {}
  byteOrder : Option ByteOrder := none
  radix : Option Radix := none
  mustMatch : Option Bool := none
  minVal : Option Reference := none
  maxVal : Option Reference := none
  values : Option (List (NamedValue Int64)) := none
  masks : Option (List Mask) := none
  /-- When set, the value is computed and not read. -/
  valueExpression : Option Reference := none
deriving DecidableEq, Repr, Inhabited

structure StringBody where
  kind : Option StringKind := none
  delimiter : Option UInt8 := none
  encoding : Option String := none
  extent : Extent := {}
  mustMatch : Option Bool := none
  values : Option (List (NamedValue String)) := none
deriving DecidableEq, Repr, Inhabited

structure BinaryBody where
  extent : Extent := {}
  mustMatch : Option Bool := none
  values : Option (List (NamedValue (List UInt8))) := none
deriving DecidableEq, Repr, Inhabited

structure CustomBody where
  extent : Extent := {}
  script : Option ElementId := none
deriving DecidableEq, Repr, Inhabited

/-- The body of an offset: a pointer to another place of the file. -/
structure OffsetBody where
  extent : Extent := {}
  byteOrder : Option ByteOrder := none
  radix : Option Radix := none
  /-- The element decoded at the address that the pointer gives. -/
  references : Option ElementId := none
  /-- The element whose start the pointer counts from; the start of the file when unset. -/
  relativeTo : Option ElementId := none
  /-- The element whose decoded value is the size of the referenced region. -/
  referencedSize : Option ElementId := none
  followNull : Option Bool := none
  additional : Option Reference := none
deriving DecidableEq, Repr, Inhabited

structure ScriptBody where
  language : Option String := none
  source : Option String := none
deriving DecidableEq, Repr, Inhabited

inductive Kind where
  | grammar (body : GrammarBody)
  | grammarRef (body : GrammarRefBody)
  | structure (body : StructureBody)
  | structRef (body : StructRefBody)
  | number (body : NumberBody)
  | string (body : StringBody)
  | binary (body : BinaryBody)
  | custom (body : CustomBody)
  | offset (body : OffsetBody)
  | script (body : ScriptBody)
deriving DecidableEq, Repr, Inhabited

namespace Kind

def name : Kind → String
  | .grammar _ => "grammar"
  | .grammarRef _ => "grammarref"
  | .structure _ => "structure"
  | .structRef _ => "structref"
  | .number _ => "number"
  | .string _ => "string"
  | .binary _ => "binary"
  | .custom _ => "custom"
  | .offset _ => "offset"
  | .script _ => "script"

def producesChildren : Kind → Bool
  | .grammar _ | .structure _ | .structRef _ => true
  | _ => false

/-- The declared children; only grammars and structures have some. -/
def children : Kind → List ElementId
  | .grammar body => body.children
  | .structure body => body.children
  | _ => []

/-- The kind with one more declared child; unchanged if it has no children. -/
def addChild (child : ElementId) : Kind → Kind
  | .grammar body => .grammar { body with children := body.children ++ [child] }
  | .structure body => .structure { body with children := body.children ++ [child] }
  | kind => kind

def extent? : Kind → Option Extent
  | .structure body => some body.extent
  | .number body => some body.extent
  | .string body => some body.extent
  | .binary body => some body.extent
  | .custom body => some body.extent
  | .offset body => some body.extent
  | _ => none

/-- The kind with its length and unit changed by `f`; unchanged if it has none. -/
def mapExtent (f : Extent → Extent) : Kind → Kind
  | .structure body => .structure { body with extent := f body.extent }
  | .number body => .number { body with extent := f body.extent }
  | .string body => .string { body with extent := f body.extent }
  | .binary body => .binary { body with extent := f body.extent }
  | .custom body => .custom { body with extent := f body.extent }
  | .offset body => .offset { body with extent := f body.extent }
  | kind => kind

/-- Whether two kinds are the same one of the ten, whatever their bodies. -/
def sameAs (a b : Kind) : Bool := a.name == b.name

end Kind

structure Element where
  traits : Traits := {}
  kind : Kind
deriving DecidableEq, Repr, Inhabited

namespace Element

/-- An element of the given kind; an empty name leaves the name unset. -/
def named (name : String) (kind : Kind) : Element where
  traits := { name := if name.isEmpty then none else some name }
  kind := kind

end Element

end BinaryTemplate
