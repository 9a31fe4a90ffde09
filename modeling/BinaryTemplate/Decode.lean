import BinaryTemplate.Decode.Container

/-!
# Decoding

A decode walks the template from an element over the source and builds the tree of values. The
recursion through containers, references and side trees ends by the depth that is left: every
value takes one level of it, and where none is left the decode fails.
-/

namespace BinaryTemplate

/-- How a decode went: the value with the tolerated violations in order, or the error; the source
after it; and the events in order. -/
structure Report (σ : Type) where
  result : Except DecodeError (Value × List DecodeError)
  source : σ
  events : List Event

namespace Decoder

open DecodeM (fail record resolved tell tellAt onSource)

variable {σ : Type} [ByteSource σ] (d : Decoder σ)

/-- Decodes an instance of `n` at the cursor, which is at `offset`. -/
def decodeKind (child : d.DecodeChild) (p : Place) (n : Node d.schema) (offset : Nat) :
    DecodeM σ Value :=
  match n.kind with
  -- A start element stands for the whole grammar; the other children are definitions then.
  | .grammar body =>
    let children := match body.start with
      | some start => [start]
      | none => body.children
    d.decodeContainer child p n none children .declared none
  | .grammarRef _ => d.decodeGrammarRef child p n offset
  | .structure _ => d.decodeStructure child p n n
  | .structRef _ => d.decodeStructRef child p n offset
  | .number _ => d.decodeNumber p n
  | .string _ => d.decodeString p n
  | .binary _ => d.decodeBinary p n
  | .custom _ => do
    match ← resolved n offset (n.lookup .script) with
    | some script => d.decodeScripted p n script
    | none => fail n offset (.unresolved .noScript)
  | .offset _ => d.decodeOffset child p n
  | .script _ => d.decodeScripted p n n.id

/-- Decodes one instance of an element at the cursor, with so much depth left. -/
def decodeOne : (depth : Nat) → d.DecodeChild
  | 0, _, n => do
    record (.tried n.kind.name)
    let offset ← tell n
    fail n offset (.depthExceeded d.options.maxDepth)
  | depth + 1, p, n => do
    record (.tried n.kind.name)
    let offset ← tell n
    d.decodeKind (decodeOne depth) p n offset

def checkTree (n : Node d.schema) (v : Value) : DecodeM σ Unit :=
  if d.options.validate then
    match v.validate d.schema with
    | .ok () => pure ()
    | .error e => fail n v.offset (.validation e)
  else pure ()

def startPlace (element : ElementId) (start dataStop : Nat) : Place where
  inner := .scope element start dataStop
  outer := []
  dataStop := dataStop
  following := []

/-- Decodes one instance of an element at the cursor, and validates it. -/
def decodeWhole (element : ElementId) : DecodeM σ Value := do
  let n ← d.node element 0
  let start ← tell n
  -- The scope of the decode reaches to the end of the file.
  let dataStop ← onSource n start ByteSource.size
  let v ← d.decodeOne d.options.maxDepth (startPlace element start dataStop) n
  d.checkTree n v
  return v

/-- Decodes one instance of an element from the cursor of a source. -/
def decodeElement (element : ElementId) (source : σ) : Report σ :=
  match (d.decodeWhole element).run { source := source } with
  | (result, st) =>
    { result := result.map fun v => (v, st.warnings.reverse)
      source := st.source
      events := st.events.reverse }

def decode (source : σ) : Report σ := d.decodeElement d.schema.root source

end Decoder

end BinaryTemplate
