import BinaryTemplate.Node

/-!
# Linting schemas

Faults of a template that would only show up in the middle of a decode: links that dangle, close a
cycle or lead to an element of the wrong kind, links that are missing, and offsets that reference
nothing. Each finding names the element, the rule and how serious it is.
-/

namespace BinaryTemplate

inductive Severity where
  | error
  | warning
deriving DecidableEq, Repr

inductive LintRule where
  | extendsCycle
  | parentCycle
  | extendsKindMismatch
  | danglingId
  | missingStructure
  | missingScript
  | missingGrammar
  | offsetWithoutReferences
  | nonContainerParent
deriving DecidableEq, Repr

namespace LintRule

/-- An offset without a target still yields its pointer; all other findings are errors. -/
def severity : LintRule → Severity
  | offsetWithoutReferences => .warning
  | _ => .error

end LintRule

/-- A finding on one element, which is named by its label. -/
structure LintMessage where
  element : ElementId
  name : String
  rule : LintRule
  message : String
deriving DecidableEq, Repr

namespace Lint

/-- A finding before it is attached to its element. -/
abbrev Finding := LintRule × String

/-- A finding on a link that leads nowhere. -/
def dangling (link : String) (id : ElementId) : Finding :=
  (.danglingId, link ++ " " ++ id.text ++ " does not exist")

/-- The finding on an optional link that dangles. -/
def danglingLink (s : Schema) (link : String) (id : Option ElementId) : List Finding :=
  match id with
  | some id => if (s.get? id).isNone then [dangling link id] else []
  | none => []

/-! ## Cycles -/

/-- Whether following `next` comes to `start` within so many steps from `current`. -/
def comesTo (next : ElementId → Option ElementId) (start : ElementId) :
    (steps : Nat) → (current : Option ElementId) → Bool
  | 0, _ => false
  | _ + 1, none => false
  | steps + 1, some id => id == start || comesTo next start steps (next id)

/-- A link of elements as a step between ids; a dangling id has no next one. -/
def step (s : Schema) (link : Element → Option ElementId) (id : ElementId) : Option ElementId :=
  (s.get? id).bind link

/-- Whether following a link from an element comes back to it. A cycle through it has no more
elements than the schema, so that many steps decide. -/
def reachesItself (s : Schema) (link : Element → Option ElementId) (start : ElementId) : Bool :=
  comesTo (step s link) start s.size (step s link start)

/-! ## The rules -/

/-- The template exists, is of the same kind, and does not lead back here. -/
def checkTemplate (s : Schema) (id : ElementId) (e : Element) : List Finding :=
  (match e.traits.template with
    | none => []
    | some base =>
      match s.get? base with
      | none => [dangling "extends" base]
      | some b =>
        if b.kind.sameAs e.kind then []
        else [(.extendsKindMismatch, "extends " ++ base.text ++ " which is a " ++ b.kind.name)]) ++
  if reachesItself s (·.traits.template) id then
    [(.extendsCycle, "extends chain loops back to this element")]
  else []

def isContainer : Kind → Bool
  | .structure _ | .grammar _ => true
  | _ => false

/-- The parent exists, is a container, and does not lead back here. -/
def checkParent (s : Schema) (id : ElementId) (e : Element) : List Finding :=
  (match e.traits.parent with
    | none => []
    | some parent =>
      match s.get? parent with
      | none => [dangling "parent" parent]
      | some p =>
        if isContainer p.kind then []
        else [(.nonContainerParent, "parent " ++ parent.text ++ " is a " ++ p.kind.name)]) ++
  if reachesItself s (·.traits.parent) id then
    [(.parentCycle, "parent chain loops back to this element")]
  else []

def checkChildren (s : Schema) (e : Element) : List Finding :=
  e.kind.children.flatMap fun child => danglingLink s "child" (some child)

/-- A link that an element needs is there, exists, and leads to the right kind. A link that
cannot be resolved counts as absent. -/
def checkLink (s : Schema) (link : Except CycleError (Option ElementId)) (what : String)
    (isRight : Kind → Bool) (rule : LintRule) : List Finding :=
  match link.toOption.join with
  | none => [(rule, "no " ++ what ++ " linked")]
  | some id =>
    match s.get? id with
    | none => [dangling what id]
    | some target =>
      if isRight target.kind then []
      else [(rule, what ++ " " ++ id.text ++ " is a " ++ target.kind.name)]

def isStructure : Kind → Bool
  | .structure _ => true
  | _ => false

def isScript : Kind → Bool
  | .script _ => true
  | _ => false

def isGrammar : Kind → Bool
  | .grammar _ => true
  | _ => false

/-- The links of an offset exist; without a reference only the pointer is decoded. -/
def checkOffset {s : Schema} (n : Node s) : List Finding :=
  (match (n.lookup .references).toOption.join with
    | none =>
      [(.offsetWithoutReferences, "offset has no references; only the pointer is decoded")]
    | some id => danglingLink s "references" (some id)) ++
  danglingLink s "relativeTo" (n.lookup .relativeTo).toOption.join ++
  danglingLink s "referencedSize" (n.lookup .referencedSize).toOption.join

/-- The links that the kind of an element calls for. -/
def checkKind {s : Schema} (n : Node s) : List Finding :=
  match n.kind with
  | .grammar body => danglingLink s "start" body.start
  | .structRef _ =>
    checkLink s (n.lookup .structure?) "structure" isStructure .missingStructure
  | .custom _ => checkLink s (n.lookup .script) "script" isScript .missingScript
  | .grammarRef _ =>
    -- A reference that is switched off is never followed, so it needs no grammar.
    if n.disabled.toOption.getD false then []
    else checkLink s (n.lookup .grammar) "grammar" isGrammar .missingGrammar
  | .offset _ => checkOffset n
  | _ => []

def checkNode {s : Schema} (n : Node s) : List Finding :=
  checkTemplate s n.id n.element ++ checkParent s n.id n.element ++ checkChildren s n.element ++
    checkKind n

end Lint

def Schema.lint (s : Schema) : List LintMessage :=
  (s.ids.filterMap s.node?).flatMap fun n =>
    (Lint.checkNode n).map fun (rule, message) =>
      { element := n.id, name := n.label, rule := rule, message := message }

end BinaryTemplate
