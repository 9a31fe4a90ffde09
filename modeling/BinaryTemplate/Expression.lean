import BinaryTemplate.Reference

/-!
# Expressions

The trees of reference expressions and the exact arithmetic of their operators. All operands and
results are signed integers of 64 bits. A result is computed over the unbounded integers and has
to fit; one that does not is an overflow and never wraps. The one exception is the left shift,
which drops the bits that leave the word.
-/

namespace BinaryTemplate

inductive BinaryOp where
  | or
  | and
  | eq
  | ne
  | le
  | ge
  | lt
  | gt
  | bitOr
  | bitXor
  | bitAnd
  | shiftLeft
  | shiftRight
  | add
  | sub
  | mul
  | div
  | mod
deriving DecidableEq, Repr, Inhabited

namespace BinaryOp

def symbol : BinaryOp → String
  | .or => "||"
  | .and => "&&"
  | .eq => "=="
  | .ne => "!="
  | .le => "<="
  | .ge => ">="
  | .lt => "<"
  | .gt => ">"
  | .bitOr => "|"
  | .bitXor => "^"
  | .bitAnd => "&"
  | .shiftLeft => "<<"
  | .shiftRight => ">>"
  | .add => "+"
  | .sub => "-"
  | .mul => "*"
  | .div => "/"
  | .mod => "%"

/-- How many levels of operators bind tighter, the unary operators included. -/
def level : BinaryOp → Nat
  | .mul | .div | .mod => 1
  | .add | .sub => 2
  | .shiftLeft | .shiftRight => 3
  | .bitAnd => 4
  | .bitXor => 5
  | .bitOr => 6
  | .eq | .ne | .le | .ge | .lt | .gt => 7
  | .and => 8
  | .or => 9

/-- The level of the comparisons; these do not chain. -/
def comparisonLevel : Nat := 7

def loosest : Nat := 9

end BinaryOp

inductive UnaryOp where
  | neg
  | not
  | complement
deriving DecidableEq, Repr, Inhabited

/-- A reference expression. Numbers keep their text, since one that does not fit 64 bits is only
found out when it is evaluated. -/
inductive Expression where
  | number (text : List Char)
  | path (first : String) (rest : List String)
  | unary (op : UnaryOp) (operand : Expression)
  | binary (op : BinaryOp) (left right : Expression)
deriving DecidableEq, Repr, Inhabited

/-- Why an expression has no value. -/
inductive ExpressionError where
  | parse (text : String)
  | unknownName (name : String)
  | notNumeric (name : String)
  | divideByZero
  /-- An operation whose exact result does not fit, or a number too great, as text. -/
  | overflow (operation : String)
  | unsupported (text : String)
deriving DecidableEq, Repr, Inhabited

namespace ExpressionError

def message : ExpressionError → String
  | .parse text => "parse error in `" ++ text ++ "`"
  | .unknownName name => "unknown name `" ++ name ++ "`"
  | .notNumeric name => "`" ++ name ++ "` is not numeric"
  | .divideByZero => "division by zero"
  | .overflow operation => "arithmetic overflow in `" ++ operation ++ "`"
  | .unsupported text => "unsupported expression: " ++ text

end ExpressionError

namespace UnaryOp

def apply (op : UnaryOp) (a : Int64) : Except ExpressionError Int64 :=
  match op with
  | .neg =>
    match Integer.narrow? (-a.toInt) with
    | some r => .ok r
    | none => .error (.overflow ("-" ++ toString a.toInt))
  | .not => .ok (if a = 0 then 1 else 0)
  | .complement => .ok (~~~a)

end UnaryOp

namespace BinaryOp

def truth (p : Bool) : Int64 := if p then 1 else 0

/-- The value of an operator applied to `a` and `b`. Division truncates towards zero and the
remainder has the sign of the dividend. -/
def apply (op : BinaryOp) (a b : Int64) : Except ExpressionError Int64 :=
  let overflow := ExpressionError.overflow
    (toString a.toInt ++ " " ++ op.symbol ++ " " ++ toString b.toInt)
  let exact (r : Int) : Except ExpressionError Int64 :=
    match Integer.narrow? r with
    | some r => .ok r
    | none => .error overflow
  let shifted (r : Int64) : Except ExpressionError Int64 :=
    if 0 ≤ b.toInt ∧ b.toInt < 64 then .ok r else .error overflow
  match op with
  | .or => .ok (truth (a != 0 || b != 0))
  | .and => .ok (truth (a != 0 && b != 0))
  | .eq => .ok (truth (a == b))
  | .ne => .ok (truth (a != b))
  | .le => .ok (truth (a.toInt ≤ b.toInt))
  | .ge => .ok (truth (b.toInt ≤ a.toInt))
  | .lt => .ok (truth (a.toInt < b.toInt))
  | .gt => .ok (truth (b.toInt < a.toInt))
  | .bitOr => .ok (a ||| b)
  | .bitXor => .ok (a ^^^ b)
  | .bitAnd => .ok (a &&& b)
  | .shiftLeft => shifted (a <<< b)
  | .shiftRight => shifted (a >>> b)
  | .add => exact (a.toInt + b.toInt)
  | .sub => exact (a.toInt - b.toInt)
  | .mul => exact (a.toInt * b.toInt)
  | .div => if b = 0 then .error .divideByZero else exact (a.toInt.tdiv b.toInt)
  | .mod =>
    if b = 0 then .error .divideByZero
    -- The least integer has no quotient by minus one, and so no remainder either.
    else if (Integer.narrow? (a.toInt.tdiv b.toInt)).isNone then .error overflow
    else exact (a.toInt.tmod b.toInt)

end BinaryOp

def pathText (first : String) (rest : List String) : String :=
  ".".intercalate (first :: rest)

namespace Expression

/-- The value of an expression, given the values of the paths in it. Operands come before their
operator and the left one before the right one; both operands of every operator are evaluated,
and the first error met is the answer. -/
def evaluate (path : String → List String → Except ExpressionError Int64) :
    Expression → Except ExpressionError Int64
  | .number text =>
    match Literal.parse? text with
    | some n => .ok n
    | none => .error (.overflow (String.ofList text))
  | .path first rest => path first rest
  | .unary op operand => do
    let a ← evaluate path operand
    op.apply a
  | .binary op left right => do
    let a ← evaluate path left
    let b ← evaluate path right
    op.apply a b

end Expression

end BinaryTemplate
