import BinaryTemplate.Proofs.Outcome

/-!
# The decoder on a stack

A decode may also keep its place itself: the open frames with the bits that are unread in each, how
deep it is, and the offsets that it follows are then part of one state, which its steps change. A
container pushes a frame and pops it, whether its content decodes or not; an attempt goes one level
deeper and comes back, unless a link of the template is broken. What is put back before something
else is tried is less than what an attempt may change: the cursor, the unread bits of the innermost
frame, and the number of warnings.

All that does not touch the stack is left to the decoder, at the place and in the state that the
machine is in.
-/

namespace BinaryTemplate

/-- The state of a decode that keeps its place itself. -/
structure Machine (σ : Type) where
  source : σ
  inner : Frame
  /-- The bits of the byte before the cursor that are unread in the innermost frame. -/
  bits : List Bool
  /-- The frames around it with their unread bits, the innermost one first. -/
  outer : List (Frame × List Bool)
  dataStop : Nat
  depth : Nat
  following : List (Nat × ElementId)
  warnings : List DecodeError
  events : List Event

abbrev MachineM (σ : Type) := ExceptT DecodeError (StateM (Machine σ))

/-- What an attempt is taken back to. The warnings are cut to their number. -/
structure Checkpoint where
  position : Nat
  bits : List Bool
  warnings : Nat

namespace Machine

variable {σ : Type}

def place (m : Machine σ) : Place := ⟨m.inner, m.outer.map Prod.fst, m.dataStop, m.following⟩

def state (m : Machine σ) : DecodeState σ := ⟨m.source, m.bits, m.warnings, m.events⟩

/-- The machine with the same stack in another state. -/
def resume (m : Machine σ) (st : DecodeState σ) : Machine σ :=
  { m with
    source := st.source
    bits := st.pending
    warnings := st.warnings
    events := st.events }

def push (m : Machine σ) (f : Frame) : Machine σ :=
  { m with inner := f, bits := [], outer := (m.inner, m.bits) :: m.outer }

/-- The first frame stays for the whole decode. -/
def pop (m : Machine σ) : Machine σ :=
  match m.outer with
  | [] => m
  | (f, bits) :: rest => { m with inner := f, bits := bits, outer := rest }

/-! ## Steps -/

def ending {α : Type} (step : MachineM σ α) (m : Machine σ) : Except DecodeError α × Machine σ :=
  step m

/-- A step of the decoder at the place of the machine. -/
def atPlace {α : Type} (step : Place → DecodeM σ α) : MachineM σ α := fun m =>
  let (answer, st) := (step m.place).ending m.state
  (answer, m.resume st)

def outcome {α : Type} (step : MachineM σ α) : MachineM σ (Except DecodeError α) := fun m =>
  let (answer, m') := step m
  (.ok answer, m')

section Stack

/-! A decode may be watched: `watch` is done with the machine whenever the stack has changed, and
when an attempt begins. It is `id` for a decode that nobody watches. -/

variable (watch : Machine σ → Machine σ)

def enter (f : Frame) : MachineM σ Unit := modify fun m => watch (m.push f)

/-- Closes the innermost frame and gives it. -/
def leave : MachineM σ Frame := modifyGet fun m => (m.inner, watch m.pop)

/-- Enters the scope of a side tree, whose offset is now being followed. -/
def enterSide (element : ElementId) (target stop : Nat) : MachineM σ Unit :=
  modify fun m => watch { m.push (.scope element target stop) with
    following := (target, element) :: m.following }

def leaveSide : MachineM σ Unit :=
  modify fun m => watch { m.pop with following := m.following.tail }

def beginAttempt : MachineM σ Unit := modify watch

end Stack

def complete (v : Value) : MachineM σ Unit :=
  modify fun m => { m with inner := m.inner.complete v }

/-- The rest of an attempt that has gone one level deeper, and the way back up. -/
def settled {α : Type} (step : MachineM σ α) : MachineM σ α := do
  let result ← outcome step
  modify fun m => { m with depth := m.depth - 1 }
  liftExcept result

section Checkpoints

variable [ByteSource σ] {s : Schema}

def checkpoint (n : Node s) : MachineM σ Checkpoint := do
  let position ← atPlace fun _ => DecodeM.tell n
  let m ← get
  return ⟨position, m.bits, m.warnings.length⟩

def rewind (n : Node s) (c : Checkpoint) : MachineM σ Unit := do
  atPlace fun _ => DecodeM.seek n c.position c.position
  modify fun m => { m with
    bits := c.bits
    warnings := m.warnings.drop (m.warnings.length - c.warnings) }

end Checkpoints

/-! ## Containers -/

open DecodeM (fail record resolved align tell tellAt seek)
open Decoder (Alternative exhausted)

variable [ByteSource σ] (d : Decoder σ) (watch : Machine σ → Machine σ)
  (attempt : Node d.schema → MachineM σ Value)

def repeatFrom (n : Node d.schema) (min : Nat) (max : Option Nat) :
    (room count : Nat) → MachineM σ Unit
  | room, count => do
    if max.any (· ≤ count) then return ()
    let mark ← checkpoint n
    if min ≤ count then
      if ← atPlace fun p => exhausted p mark.position then return ()
    match room with
    | 0 => atPlace fun _ => fail n mark.position (.repeatLimit d.options.maxRepeat)
    | room + 1 =>
      match ← outcome (attempt n) with
      | .ok v =>
        complete v
        if v.len = 0 ∧ max.isNone then return ()
        repeatFrom n min max room (count + 1)
      | .error e =>
        if max.isNone && min ≤ count && e.isMismatch then
          atPlace fun _ => record (.runEnded n.label count e)
          rewind n mark
          return ()
        throw e

def decodeRepeated (n : Node d.schema) : MachineM σ Unit := do
  let offset ← atPlace fun _ => tell n
  let (min, max) ← atPlace fun p => d.repeatBounds p n offset
  repeatFrom d attempt n min max d.options.maxRepeat 0

def decodeDeclared : List ElementId → MachineM σ Unit
  | [] => return ()
  | id :: rest => do
    let n ← atPlace fun p => d.node id p.inner.start
    if ← atPlace fun _ => d.isDisabled n then
      atPlace fun _ => record (.disabled n.label)
      decodeDeclared rest
    else
      decodeRepeated d attempt n
      decodeDeclared rest

def firstMatch (n : Node d.schema) (mark : Checkpoint) :
    List (Alternative d.schema) → MachineM σ (Option (Value × List (Alternative d.schema)))
  | [] => return none
  | a :: rest => do
    if a.isFull then
      let found ← firstMatch n mark rest
      return found.map fun (v, rest) => (v, a :: rest)
    match ← outcome (attempt a.node) with
    | .ok v => return some (v, { a with count := a.count + 1 } :: rest)
    | .error e =>
      if !e.isMismatch then throw e
      atPlace fun _ => record (.rejected a.node.label mark.position e)
      rewind n mark
      let found ← firstMatch n mark rest
      return found.map fun (v, rest) => (v, a :: rest)

def decodeChoices (n : Node d.schema) :
    (room : Nat) → List (Alternative d.schema) → MachineM σ (List (Alternative d.schema))
  | room, choices => do
    let mark ← checkpoint n
    if ← atPlace fun p => exhausted p mark.position then return choices
    match ← firstMatch d attempt n mark choices with
    | none => return choices
    | some (v, choices) =>
      complete v
      if v.len = 0 then return choices
      match room with
      | 0 => atPlace fun _ => fail n mark.position (.repeatLimit d.options.maxRepeat)
      | room + 1 => decodeChoices n room choices

def decodeAnyOf (n : Node d.schema) (children : List ElementId) : MachineM σ Unit := do
  let offset ← atPlace fun _ => tell n
  let choices ← atPlace fun p => d.alternatives p offset children
  let choices ← decodeChoices d attempt n (d.options.maxRepeat - 1) choices
  atPlace fun _ => d.checkMinimums offset choices

def decodeContent (n : Node d.schema) (children : List ElementId) (order : ChildOrder) :
    MachineM σ Unit :=
  match order with
  | .declared => decodeDeclared d attempt children
  | .anyOf => decodeAnyOf d attempt n children

def decodeContainer (n : Node d.schema) (definition : Option ElementId)
    (children : List ElementId) (order : ChildOrder) (declared : Option Nat) :
    MachineM σ Value := do
  atPlace fun _ => align
  let start ← atPlace fun _ => tell n
  let stop ← atPlace fun p => d.containerStop p n start declared
  atPlace fun _ => record (.opened n.label start stop)
  enter watch (.container n.id definition start stop)
  let content ← outcome (decodeContent d attempt n children order)
  let frame ← leave watch
  match content with
  | .error e => atPlace fun p => throw (d.contentFailure p n start stop declared e)
  | .ok () =>
    let position ← atPlace fun _ => tellAt n start
    let len ← atPlace fun _ => d.containerLength n start (position - start) declared
    return { Value.empty n.id start len with children := frame.children }

def decodeStructure (n definition : Node d.schema) : MachineM σ Value := do
  atPlace fun _ => align
  let offset ← atPlace fun _ => tell n
  let order ← atPlace fun _ => resolved n offset n.order
  let declared ← atPlace fun p => d.structureLength p n offset
  decodeContainer d watch attempt n (if definition.id = n.id then none else some definition.id)
    definition.kind.children order declared

def decodeGrammarRef (n : Node d.schema) (offset : Nat) : MachineM σ Value := do
  if ← atPlace fun _ => resolved n offset n.disabled then return Value.empty n.id offset 0
  match ← atPlace fun _ => resolved n offset (n.lookup .grammar) with
  | none =>
    let filename := n.filename.toOption.getD ""
    atPlace fun _ => fail n offset (.unresolved (.noGrammar filename))
  | some target =>
    let grammar ← atPlace fun _ => d.node target offset
    match grammar.kind with
    | .grammar _ => attempt grammar
    | kind => atPlace fun _ => fail n offset (.unresolved (.notAGrammar target kind.name))

/-! ## Offsets -/

instance : LawfulBEq (Nat × ElementId) := inferInstance

def follow (n : Node d.schema) (offset target : Nat) (element : ElementId) :
    MachineM σ Value := do
  if (target, element) ∈ (← get).following then
    atPlace fun _ => fail n offset (.pointerLoop target)
  let referenced ← atPlace fun _ => d.node element offset
  let size ← atPlace fun p => d.referencedSize? p n offset
  let stop ← atPlace fun p => d.regionStop p n offset target size
  let resume ← atPlace fun _ => tellAt n offset
  atPlace fun _ => record (.followed n.label referenced.label target)
  atPlace fun _ => seek n offset target
  enterSide watch element target stop
  let result ← outcome (attempt referenced)
  leaveSide watch
  atPlace fun _ => seek n offset resume
  liftExcept result

def followTarget (n : Node d.schema) (offset : Nat) (target : Option Nat) :
    MachineM σ (Option Value) := do
  match target, ← atPlace fun _ => resolved n offset (n.lookup .references) with
  | some target, some element =>
    let v ← follow d watch attempt n offset target element
    return some v
  | _, _ => return none

def decodeOffset (n : Node d.schema) : MachineM σ Value := do
  let position ← atPlace fun _ => tell n
  let order ← atPlace fun _ => resolved n position n.byteOrder
  let r ← atPlace fun p => d.readRaw p n order
  let target ← atPlace fun p => d.targetAddress p n r.offset r.raw
  let referenced ← followTarget d watch attempt n r.offset target
  return {
    element := n.id
    offset := r.offset
    len := r.len
    order := some order
    payload := .offset (UInt64.ofNat r.raw) target referenced
    children := [] }

/-! ## Elements -/

/-- The rest of an attempt, which is one level deeper now. A reference to a structure and a custom
element find what they are links to before they prepare for the way back, so that a link which is
broken leaves the machine too deep. -/
def decodeKind (n : Node d.schema) (offset : Nat) : MachineM σ Value :=
  match n.kind with
  | .grammar body =>
    let children := match body.start with
      | some start => [start]
      | none => body.children
    settled (decodeContainer d watch attempt n none children .declared none)
  | .grammarRef _ => settled (decodeGrammarRef d attempt n offset)
  | .structure _ => settled (decodeStructure d watch attempt n n)
  | .structRef _ => do
    match ← atPlace fun _ => resolved n offset (n.lookup .structure?) with
    | none => atPlace fun _ => fail n offset (.unresolved .noStructure)
    | some target =>
      let definition ← atPlace fun _ => d.node target offset
      match definition.kind with
      | .structure _ => settled (decodeStructure d watch attempt n definition)
      | kind =>
        settled (atPlace fun _ => fail n offset (.unresolved (.notAStructure target kind.name)))
  | .number _ => settled (atPlace fun p => d.decodeNumber p n)
  | .string _ => settled (atPlace fun p => d.decodeString p n)
  | .binary _ => settled (atPlace fun p => d.decodeBinary p n)
  | .custom _ => do
    match ← atPlace fun _ => resolved n offset (n.lookup .script) with
    | some script => settled (atPlace fun p => d.decodeScripted p n script)
    | none => settled (atPlace fun _ => fail n offset (.unresolved .noScript))
  | .offset _ => settled (decodeOffset d watch attempt n)
  | .script _ => settled (atPlace fun p => d.decodeScripted p n n.id)

/-- Decodes one instance of an element; at most `fuel` levels deeper. The machine counts its levels
itself. -/
def decodeWithin : (fuel : Nat) → Node d.schema → MachineM σ Value
  | 0, n => do
    beginAttempt watch
    atPlace fun _ => record (.tried n.kind.name)
    let offset ← atPlace fun _ => tell n
    atPlace fun _ => fail n offset (.depthExceeded d.options.maxDepth)
  | fuel + 1, n => do
    beginAttempt watch
    atPlace fun _ => record (.tried n.kind.name)
    let offset ← atPlace fun _ => tell n
    if d.options.maxDepth ≤ (← get).depth then
      atPlace fun _ => fail n offset (.depthExceeded d.options.maxDepth)
    else
      modify fun m => { m with depth := m.depth + 1 }
      decodeKind d watch (decodeWithin fuel) n offset

/-- Decodes one instance of an element. No machine can go deeper than the limit. -/
def decodeOne (n : Node d.schema) : MachineM σ Value := decodeWithin d watch d.options.maxDepth n

end Machine

end BinaryTemplate
