import BinaryTemplate.Value

/-!
# Validation of value trees

The structural invariants of a value tree: every element is part of the schema, no value reaches
past the last position, only containers have children, and the children of a value tile it: the
first starts where the value starts, each starts where the one before ends, and the last ends
where the value ends. A side tree is held to the same rules on its own.
-/

namespace BinaryTemplate

/-- What is wrong with a value tree. Values are named by their labels. -/
inductive ValidationError where
  | unknownElement (value : String) (element : ElementId)
  | unexpectedChildren (value : String) (kind : String)
  | childOffset (parent child : String) (expected found : Nat)
  | childrenEnd (parent : String) (expected found : Nat)
  | overflow (value : String)
  | sideTree (offset : String) (cause : ValidationError)
deriving DecidableEq, Repr

namespace ValidationError

open Text.Numeral (hex)

def message : ValidationError → String
  | unknownElement value element =>
    value ++ ": element " ++ element.text ++ " is not part of the grammar"
  | unexpectedChildren value kind => value ++ ": a " ++ kind ++ " value cannot have children"
  | childOffset parent child expected found =>
    parent ++ ": child " ++ child ++ " starts at " ++ hex found ++ ", expected " ++ hex expected
  | childrenEnd parent expected found =>
    parent ++ ": children end at " ++ hex found ++ ", expected " ++ hex expected
  | overflow value => value ++ ": offset + len overflows"
  | sideTree offset cause => "in value referenced by " ++ offset ++ ": " ++ cause.message

end ValidationError

namespace Value

mutual

/-- Checks the invariants of the tree. Of several faults the one that a walk from the root meets
first is reported: a value before its children, the children in turn, the side tree last. -/
def validate (s : Schema) : Value → Except ValidationError Unit
  | ⟨element, offset, len, order, payload, children⟩ => do
    let label := label s ⟨element, offset, len, order, payload, children⟩
    match s.get? element with
    | none => throw (.unknownElement label element)
    | some e =>
      if positionLimit ≤ offset + len then throw (.overflow label)
      -- A container without children may have any length.
      if !children.isEmpty then
        if !e.kind.producesChildren then throw (.unexpectedChildren label e.kind.name)
        validateTiling s label (offset + len) offset children
      match payload with
      | .offset _ _ (some side) => (validate s side).mapError (.sideTree label)
      | _ => pure ()

/-- Checks the children of `parent` that are to cover the bytes from `cursor` to `stop`. -/
def validateTiling (s : Schema) (parent : String) (stop : Nat) :
    Nat → List Value → Except ValidationError Unit
  | cursor, [] =>
    if cursor = stop then pure () else throw (.childrenEnd parent stop cursor)
  | cursor, child :: rest => do
    if child.offset ≠ cursor then
      throw (.childOffset parent (child.label s) cursor child.offset)
    validate s child
    -- The end of a child is capped at the last position, like the addition that it stands for.
    validateTiling s parent stop child.stop rest

end

end Value

end BinaryTemplate
