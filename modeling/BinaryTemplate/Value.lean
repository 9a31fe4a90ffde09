import BinaryTemplate.Node
import BinaryTemplate.Text.Quoted
import BinaryTemplate.Value.Number

/-!
# Values

The result of a decode is a tree of values, one per decoded instance of an element, each with the
bytes that it covers. The children of a container follow one another without gap. An offset also
carries the value decoded at the place it points to; this side tree is no child and lies anywhere
in the file.
-/

namespace BinaryTemplate

/-- Positions and lengths are below this limit. -/
abbrev positionLimit : Nat := Integer.unsignedLimit

/-- Where a bit field lies: the index of its first bit in the file, counted from the least
significant bit of each byte, and its width. -/
structure BitSpan where
  firstBit : Nat
  bits : Nat
deriving DecidableEq, Repr, Inhabited

/-- The bit field that a mask extracts, and the name of its value. -/
structure MaskValue where
  name : String
  value : UInt64
  matched : Option String
deriving DecidableEq, Repr

/-- What a value holds beside its place: nothing for containers, and the decoded content for
fields. `matched` is the name of the listed value that the content equals. -/
inductive Payload (α : Type) where
  | none
  | number (value : NumberValue) (matched : Option String) (masks : List MaskValue)
      (bits : Option BitSpan)
  | string (text : String) (matched : Option String)
  /-- The bytes are not kept: they can be read again at the value's place. -/
  | binary (matched : Option String)
  /-- `target` is the address pointed to, unless a null pointer was not followed. -/
  | offset (pointer : UInt64) (target : Option Nat) (referenced : Option α)
  | custom (text : String)
deriving Repr

structure Value where
  element : ElementId
  offset : Nat
  len : Nat
  /-- The byte order that a number or an offset was read with. -/
  order : Option ByteOrder
  payload : Payload Value
  children : List Value
deriving Repr

namespace Value

instance : Inhabited Value := ⟨⟨default, 0, 0, none, .none, []⟩⟩

def empty (element : ElementId) (offset len : Nat) : Value :=
  ⟨element, offset, len, none, .none, []⟩

/-- The first byte after the value; the last position if the value reaches past it. -/
def stop (v : Value) : Nat := min (v.offset + v.len) (positionLimit - 1)

/-! ## Views -/

/-- The integer that the value stands for: of a number, or of the pointer of an offset. -/
def toInt? (v : Value) : Option Int64 :=
  match v.payload with
  | .number value .. => value.toInt?
  | .offset pointer .. => Integer.narrow? pointer.toNat
  | _ => none

def number? (v : Value) : Option NumberValue :=
  match v.payload with
  | .number value .. => some value
  | _ => none

def text? (v : Value) : Option String :=
  match v.payload with
  | .string text _ => some text
  | .custom text => some text
  | _ => none

/-- The name of the listed value that the content equals. -/
def matched? (v : Value) : Option String :=
  match v.payload with
  | .number _ matched .. => matched
  | .string _ matched => matched
  | .binary matched => matched
  | _ => none

def referenced? (v : Value) : Option Value :=
  match v.payload with
  | .offset _ _ referenced => referenced
  | _ => none

def display (v : Value) : String :=
  let place := v.element.text ++ " [" ++ Text.Numeral.hex v.offset ++ "+" ++ toString v.len ++ "]"
  match v.payload with
  | .none => place
  | .number value .. => place ++ " = " ++ value.text
  | .string text _ => place ++ " = " ++ Text.quoted text
  | .custom text => place ++ " = " ++ Text.quoted text
  | .binary (some name) => place ++ " = " ++ name
  | .binary none => place
  | .offset pointer (some target) _ =>
    place ++ " -> " ++ Text.Numeral.hex target ++ " (pointer " ++
      Text.Numeral.hex pointer.toNat ++ ")"
  | .offset _ none _ => place ++ " -> null"

/-! ## Names -/

/-- The effective name of the value's element; empty for a dangling element. -/
def name (s : Schema) (v : Value) : Except CycleError String :=
  match s.node? v.element with
  | some node => node.name
  | none => .ok ""

/-- The effective description of the value's element; empty for a dangling element. -/
def description (s : Schema) (v : Value) : Except CycleError String :=
  match s.node? v.element with
  | some node => node.description
  | none => .ok ""

/-- Whether the value has the given name. A name that cannot be resolved is no name. -/
def hasName (s : Schema) (name : String) (v : Value) : Bool :=
  match v.name s with
  | .ok own => own == name
  | .error _ => false

/-- How messages call the value: its element and its place. -/
def label (s : Schema) (v : Value) : String :=
  (match s.node? v.element with
    | some node => node.label
    | none => v.element.text) ++ "@" ++ Text.Numeral.hex v.offset

/-! ## Search -/

mutual

/-- The first value of an element in the tree, side trees left out: the value itself, or else
the first hit among its children in turn. -/
def find? (element : ElementId) : Value → Option Value
  | ⟨own, offset, len, order, payload, children⟩ =>
    if own = element then some ⟨own, offset, len, order, payload, children⟩
    else findIn? element children

/-- The first hit among several trees in turn. -/
def findIn? (element : ElementId) : List Value → Option Value
  | [] => none
  | v :: rest => (find? element v).or (findIn? element rest)

end

def childNamed? (s : Schema) (name : String) (v : Value) : Option Value :=
  v.children.reverse.find? (hasName s name)

mutual

/-- A value with the given name in the tree, side trees left out: the value itself, or else the
first hit among its children, the last child first. -/
def findNamed? (s : Schema) (name : String) : Value → Option Value
  | ⟨element, offset, len, order, payload, children⟩ =>
    if hasName s name ⟨element, offset, len, order, payload, children⟩ then
      some ⟨element, offset, len, order, payload, children⟩
    else findNamedIn? s name children

/-- The first hit among several trees, the last one first. -/
def findNamedIn? (s : Schema) (name : String) : List Value → Option Value
  | [] => none
  | v :: rest => (findNamedIn? s name rest).or (findNamed? s name v)

end

end Value

end BinaryTemplate
