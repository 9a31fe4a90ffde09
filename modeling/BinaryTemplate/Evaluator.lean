import BinaryTemplate.Context
import BinaryTemplate.Expression.Parse

/-!
# Evaluators

An evaluator gives the value of an expression in the context of a decode. The standard evaluator
reads the expression language; a path alone may also name a value that is not numeric, and then
stands for its element. Other evaluators can be used in its place.
-/

namespace BinaryTemplate

inductive Evaluated where
  | integer (n : Int64)
  | element (id : ElementId)
deriving DecidableEq, Repr

structure Evaluator where
  evaluate : Context → String → Except ExpressionError Evaluated

namespace Context

/-- The value that a path names, or the error that there is none. -/
def named (c : Context) (first : String) (rest : List String) : Except ExpressionError Value :=
  match c.lookup (first :: rest) with
  | some v => .ok v
  | none => .error (.unknownName (pathText first rest))

def integer (c : Context) (first : String) (rest : List String) :
    Except ExpressionError Int64 := do
  let v ← c.named first rest
  match v.toInt? with
  | some n => pure n
  | none => throw (.notNumeric (pathText first rest))

end Context

namespace Evaluator

/-- The value of an expression by the expression language. A whole text that is an integer
literal is taken as such, signs included; a path alone may be without an integer. -/
def evaluateStandard (c : Context) (text : String) : Except ExpressionError Evaluated :=
  match Literal.parse? (Text.trim text.toList) with
  | some n => .ok (.integer n)
  | none =>
    match tokens? text.toList with
    | some [.path first rest] => do
      let v ← c.named first rest
      match v.toInt? with
      | some n => pure (.integer n)
      | none => pure (.element v.element)
    | _ =>
      match Expression.parse? text with
      | some e => (e.evaluate c.integer).map .integer
      | none => .error (.parse text)

def standard : Evaluator := ⟨evaluateStandard⟩

/-- The evaluator that answers the listed expressions from the list and leaves all others to
`base`. -/
def withTable (table : List (String × Except ExpressionError Evaluated)) (base : Evaluator) :
    Evaluator where
  evaluate c text :=
    match table.lookup text with
    | some answer => answer
    | none => base.evaluate c text

end Evaluator

end BinaryTemplate
