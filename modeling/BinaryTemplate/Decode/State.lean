import BinaryTemplate.Decode.Event
import BinaryTemplate.Evaluator
import BinaryTemplate.Script

/-!
# The state of a decode

A decode threads the source, the bits of the current byte that are still unread, the warnings and
the events through its steps. The state is kept when a step fails: the cursor stays where the
failed read left it, and `Mark` remembers what has to be put back before something else is tried.
Where a decode is in the template, by contrast, is an argument of its functions: `Place` holds the
open frames, and a step cannot change the frames of its callers.
-/

namespace BinaryTemplate

structure DecodeOptions where
  /-- How deep values may nest, side trees included. -/
  maxDepth : Nat := 256
  /-- How many instances one element may have in a row. -/
  maxRepeat : Nat := 0x100000
  validate : Bool := true
  /-- Whether violated constraints fail the decode; they are warnings otherwise. -/
  strict : Bool := true
deriving DecidableEq, Repr

/-- A schema with all that a decode of it needs, over sources of type `σ`. -/
structure Decoder (σ : Type) where
  schema : Schema
  evaluator : Evaluator := .standard
  encodings : Text.Encodings := .common
  scripts : Option (ScriptHost σ) := none
  options : DecodeOptions := {}

/-- What a decode changes as it goes. -/
structure DecodeState (σ : Type) where
  source : σ
  /-- The bits of the byte before the cursor that are still unread, the next one first. -/
  pending : List Bool := []
  /-- The tolerated violations, the most recent one first. -/
  warnings : List DecodeError := []
  events : List Event := []

abbrev DecodeM (σ : Type) := ExceptT DecodeError (StateM (DecodeState σ))

/-- Where in the template and in the file a decode is. -/
structure Place where
  inner : Frame
  outer : List Frame
  dataStop : Nat
  /-- The addresses and elements of the offsets that are being followed. -/
  following : List (Nat × ElementId)

namespace Place

def limit (p : Place) : Nat := p.inner.stop

def context (p : Place) (s : Schema) : Context := ⟨s, p.inner :: p.outer⟩

def enter (p : Place) (f : Frame) : Place :=
  { p with inner := f, outer := p.inner :: p.outer }

/-- The place after one more value is completed in the innermost frame. -/
def complete (p : Place) (v : Value) : Place := { p with inner := p.inner.complete v }

end Place

namespace DecodeM

variable {σ : Type}

def outcome {α : Type} (step : DecodeM σ α) : DecodeM σ (Except DecodeError α) :=
  fun st => let (result, st') := step st; (.ok result, st')

def record (e : Event) : DecodeM σ Unit :=
  modify fun st => { st with events := e :: st.events }

/-- Lets go of the unread bits of the current byte. -/
def align : DecodeM σ Unit := modify fun st => { st with pending := [] }

def setPending (bits : List Bool) : DecodeM σ Unit := modify fun st => { st with pending := bits }

variable {s : Schema}

def fail {α : Type} (n : Node s) (offset : Nat) (failure : Failure) : DecodeM σ α :=
  throw { element := n.id, name := n.label, offset := offset, failure := failure }

def resolved {α : Type} (n : Node s) (offset : Nat) :
    Except CycleError α → DecodeM σ α
  | .ok a => pure a
  | .error cycle => fail n offset (.cycle cycle)

def onSource {α : Type} (n : Node s) (offset : Nat) (operation : SourceM σ α) :
    DecodeM σ α := fun st =>
  match operation st.source with
  | (.ok a, source) => (.ok a, { st with source := source })
  | (.error e, source) => (fail n offset (.ofInput e) : DecodeM σ α) { st with source := source }

variable [ByteSource σ]

/-- The cursor, asked for at an element and an offset. -/
def tellAt (n : Node s) (offset : Nat) : DecodeM σ Nat := onSource n offset ByteSource.tell

/-- The cursor, before the offset of an element is known. -/
def tell (n : Node s) : DecodeM σ Nat := tellAt n 0

def seek (n : Node s) (offset position : Nat) : DecodeM σ Unit := do
  let _ ← onSource n offset (ByteSource.seek (.start position))

end DecodeM

/-- The cursor, the unread bits and the warnings before an attempt. -/
structure Mark where
  position : Nat
  pending : List Bool
  warnings : List DecodeError

namespace Mark

variable {σ : Type} {s : Schema} [ByteSource σ]

def take (n : Node s) : DecodeM σ Mark := do
  let position ← DecodeM.tell n
  let st ← get
  return ⟨position, st.pending, st.warnings⟩

def rewind (n : Node s) (m : Mark) : DecodeM σ Unit := do
  DecodeM.seek n m.position m.position
  modify fun st => { st with pending := m.pending, warnings := m.warnings }

end Mark

namespace Decoder

variable {σ : Type} (d : Decoder σ)

/-- The node of an element that a decode needs at an offset. -/
def node (id : ElementId) (offset : Nat) : DecodeM σ (Node d.schema) :=
  match d.schema.node? id with
  | some n => pure n
  | none => throw
      { element := id, name := id.text, offset := offset, failure := .unresolved (.notInSchema id) }

/-- Fails with a violated constraint, or tolerates it as a warning. -/
def violation (e : DecodeError) : DecodeM σ Unit :=
  if d.options.strict then throw e
  else do
    DecodeM.record (.tolerated e)
    modify fun st => { st with warnings := e :: st.warnings }

end Decoder

end BinaryTemplate
