import BinaryTemplate.Decode.Binary
import BinaryTemplate.Decode.Custom
import BinaryTemplate.Decode.Offset
import BinaryTemplate.Decode.String

/-!
# Containers

A container decodes its children into one frame, either each in its turn or, at each position, the
first that fits. An element may repeat. Once an open-ended run has its minimum, an instance that
does not fit ends it, and what that attempt changed is put back; a bounded run passes every failure
on. Runs end by the number of instances that they may still have.
-/

namespace BinaryTemplate.Decoder

open DecodeM (fail record resolved outcome align tell tellAt)

variable {σ : Type} [ByteSource σ] (d : Decoder σ)

/-! ## Repeats -/

/-- The least and the greatest number of instances; no greatest number if the run is open-ended.
The least number is never above the greatest. -/
def repeatBounds (p : Place) (n : Node d.schema) (offset : Nat) :
    DecodeM σ (Nat × Option Nat) := do
  let min ← d.evalInteger p n offset (← resolved n offset n.repeatMin)
  let max ← d.evalInteger p n offset (← resolved n offset n.repeatMax)
  if min.toInt < 0 then fail n offset (.unsupported (.negativeRepeatMin min))
  if max.toInt < 0 then return (min.toInt.toNat, none)
  return (Nat.min min.toInt.toNat max.toInt.toNat, some max.toInt.toNat)

/-- Whether nothing is left in the innermost frame, unread bits included. -/
def exhausted (p : Place) (position : Nat) : DecodeM σ Bool :=
  return p.limit ≤ position && (← get).pending.isEmpty

/-- Decodes the instances of a run after the first `count`; at most `room` more may follow. -/
def repeatFrom (child : d.DecodeChild) (n : Node d.schema) (min : Nat) (max : Option Nat) :
    (room count : Nat) → Place → DecodeM σ Place
  | room, count, p => do
    if max.any (· ≤ count) then return p
    let mark ← Mark.take n
    -- Below the minimum the end of the data is left to the next attempt to report.
    if min ≤ count then
      if ← exhausted p mark.position then return p
    match room with
    | 0 => fail n mark.position (.repeatLimit d.options.maxRepeat)
    | room + 1 =>
      match ← outcome (child p n) with
      | .ok v =>
        -- Without a greatest number an empty instance would be followed by another one for ever.
        if v.len = 0 ∧ max.isNone then return p.complete v
        repeatFrom child n min max room (count + 1) (p.complete v)
      | .error e =>
        -- In a bounded run, and below the minimum, the failure is that of the container.
        if max.isNone && min ≤ count && e.isMismatch then
          record (.runEnded n.label count e)
          mark.rewind n
          return p
        throw e

def decodeRepeated (child : d.DecodeChild) (p : Place) (n : Node d.schema) : DecodeM σ Place := do
  let offset ← tell n
  let (min, max) ← d.repeatBounds p n offset
  d.repeatFrom child n min max d.options.maxRepeat 0 p

/-! ## Children in their turn -/

/-- Whether an element is switched off; only references to grammars can be. -/
def isDisabled (n : Node d.schema) : DecodeM σ Bool :=
  match n.kind with
  | .grammarRef _ => resolved n 0 n.disabled
  | _ => return false

def decodeDeclared (child : d.DecodeChild) : List ElementId → Place → DecodeM σ Place
  | [], p => return p
  | id :: rest, p => do
    let n ← d.node id p.inner.start
    if ← d.isDisabled n then
      record (.disabled n.label)
      decodeDeclared child rest p
    else
      let p ← d.decodeRepeated child p n
      decodeDeclared child rest p

/-! ## Any of the children -/

/-- A child definition with its bounds and the number of its instances so far. -/
structure Alternative (s : Schema) where
  node : Node s
  min : Nat
  max : Option Nat
  count : Nat

def Alternative.isFull {s : Schema} (a : Alternative s) : Bool := a.max.any (· ≤ a.count)

/-- The alternatives that are not switched off, in their order, without instances. -/
def alternatives (p : Place) (offset : Nat) : List ElementId →
    DecodeM σ (List (Alternative d.schema))
  | [] => return []
  | id :: rest => do
    let n ← d.node id offset
    if ← d.isDisabled n then alternatives p offset rest
    else
      let (min, max) ← d.repeatBounds p n offset
      let others ← alternatives p offset rest
      return ⟨n, min, max, 0⟩ :: others

/-- The first alternative that decodes at the mark: its value, and the alternatives after it. -/
def firstMatch (child : d.DecodeChild) (p : Place) (n : Node d.schema) (mark : Mark) :
    List (Alternative d.schema) → DecodeM σ (Option (Value × List (Alternative d.schema)))
  | [] => return none
  | a :: rest => do
    -- A full alternative is passed over without an attempt.
    if a.isFull then
      let found ← firstMatch child p n mark rest
      return found.map fun (v, rest) => (v, a :: rest)
    match ← outcome (child p a.node) with
    | .ok v => return some (v, { a with count := a.count + 1 } :: rest)
    | .error e =>
      -- Only a mismatch lets the next alternative have its turn.
      if !e.isMismatch then throw e
      record (.rejected a.node.label mark.position e)
      mark.rewind n
      let found ← firstMatch child p n mark rest
      return found.map fun (v, rest) => (v, a :: rest)

/-- Takes the first alternative that fits as long as there is one and it is not empty; fewer than
`room` further values may follow the next one. -/
def decodeChoices (child : d.DecodeChild) (n : Node d.schema) :
    (room : Nat) → Place → List (Alternative d.schema) →
      DecodeM σ (Place × List (Alternative d.schema))
  | room, p, choices => do
    let mark ← Mark.take n
    if ← exhausted p mark.position then return (p, choices)
    match ← d.firstMatch child p n mark choices with
    | none => return (p, choices)
    | some (v, choices) =>
      let p := p.complete v
      -- An empty value would be taken again and again, so it is the last one.
      if v.len = 0 then return (p, choices)
      match room with
      | 0 => fail n mark.position (.repeatLimit d.options.maxRepeat)
      | room + 1 => decodeChoices child n room p choices

def checkMinimums (offset : Nat) : List (Alternative d.schema) → DecodeM σ Unit
  | [] => return ()
  | a :: rest => do
    if a.count < a.min then fail a.node offset (.repeatMin a.min a.count)
    checkMinimums offset rest

def decodeAnyOf (child : d.DecodeChild) (n : Node d.schema) (children : List ElementId)
    (p : Place) : DecodeM σ Place := do
  let offset ← tell n
  let choices ← d.alternatives p offset children
  let (p, choices) ← d.decodeChoices child n (d.options.maxRepeat - 1) p choices
  d.checkMinimums offset choices
  return p

/-! ## The container -/

/-- The end of a container that starts at `start`: by its declared length, or the end of the frame
around it. -/
def containerStop (p : Place) (n : Node d.schema) (start : Nat) (declared : Option Nat) :
    DecodeM σ Nat :=
  match declared with
  | none => pure p.limit
  | some len =>
    if start + len ≤ p.limit then pure (start + len)
    else fail n start (.shortRead len (p.limit - start))

/-- The failure of a container whose content has failed. A read inside a declared length that
needs bytes beyond it overruns the container, if the frame around it goes on. -/
def contentFailure (p : Place) (n : Node d.schema) (start stop : Nat) (declared : Option Nat)
    (e : DecodeError) : DecodeError :=
  match declared, e.shortReadStop? with
  | some len, some reach =>
    -- At the end of the frame around it the data is really short, and the error stays as it is.
    if stop < p.limit ∧ start ≤ e.offset ∧ e.offset ≤ stop ∧ stop < reach then
      ⟨n.id, n.label, start, .lengthMismatch len (reach - start)⟩
    else e
  | _, _ => e

/-- The length of a container whose content has `consumed` bytes, which have to be as many as are
declared. -/
def containerLength (n : Node d.schema) (start consumed : Nat) (declared : Option Nat) :
    DecodeM σ Nat :=
  match declared with
  | none => pure consumed
  | some len =>
    if len = consumed then pure len else fail n start (.lengthMismatch len consumed)

def decodeContent (child : d.DecodeChild) (n : Node d.schema) (children : List ElementId)
    (order : ChildOrder) (p : Place) : DecodeM σ Place :=
  match order with
  | .declared => d.decodeDeclared child children p
  | .anyOf => d.decodeAnyOf child n children p

/-- Decodes a container of the element `n` with the given children. Bit fields start on a byte
inside it and behind it. -/
def decodeContainer (child : d.DecodeChild) (p : Place) (n : Node d.schema)
    (definition : Option ElementId) (children : List ElementId) (order : ChildOrder)
    (declared : Option Nat) : DecodeM σ Value := do
  align
  let start ← tell n
  let stop ← d.containerStop p n start declared
  record (.opened n.label start stop)
  let inside := p.enter (.container n.id definition start stop)
  -- The bits are let go of before an error is passed on, so the outcome is kept for a moment.
  let content ← outcome (d.decodeContent child n children order inside)
  align
  match content with
  | .error e => throw (d.contentFailure p n start stop declared e)
  | .ok inside =>
    let position ← tellAt n start
    let len ← d.containerLength n start (position - start) declared
    return { Value.empty n.id start len with children := inside.inner.children }

/-! ## Structures and grammars -/

/-- The declared length of a structure in bytes: its length and the offset added to it. -/
def structureLength (p : Place) (n : Node d.schema) (offset : Nat) :
    DecodeM σ (Option Nat) := do
  match ← resolved n offset (n.lookup .length) with
  | none => return none
  | some length =>
    let units ← d.evalCount p n offset length
    let extra ← d.evalAttribute p n offset .lengthOffset
    let total ← d.asCount n offset (units + (extra.map (·.toInt)).getD 0)
    let unit ← resolved n offset n.lengthUnit
    let len ← d.toBytes n offset total unit
    return some len

/-- Decodes the structure `definition` for the element `n`, which is that structure or a reference
to it. -/
def decodeStructure (child : d.DecodeChild) (p : Place) (n definition : Node d.schema) :
    DecodeM σ Value := do
  align
  let offset ← tell n
  let order ← resolved n offset n.order
  let declared ← d.structureLength p n offset
  d.decodeContainer child p n
    (if definition.id = n.id then none else some definition.id)
    definition.kind.children order declared

def decodeStructRef (child : d.DecodeChild) (p : Place) (n : Node d.schema) (offset : Nat) :
    DecodeM σ Value := do
  match ← resolved n offset (n.lookup .structure?) with
  | none => fail n offset (.unresolved .noStructure)
  | some target =>
    let definition ← d.node target offset
    match definition.kind with
    | .structure _ => d.decodeStructure child p n definition
    | kind => fail n offset (.unresolved (.notAStructure target kind.name))

/-- Decodes the grammar that a reference names; nothing if the reference is switched off. -/
def decodeGrammarRef (child : d.DecodeChild) (p : Place) (n : Node d.schema) (offset : Nat) :
    DecodeM σ Value := do
  if ← resolved n offset n.disabled then return Value.empty n.id offset 0
  match ← resolved n offset (n.lookup .grammar) with
  | none =>
    let filename := n.filename.toOption.getD ""
    fail n offset (.unresolved (.noGrammar filename))
  | some target =>
    let grammar ← d.node target offset
    match grammar.kind with
    | .grammar _ => child p grammar
    | kind => fail n offset (.unresolved (.notAGrammar target kind.name))

end BinaryTemplate.Decoder
