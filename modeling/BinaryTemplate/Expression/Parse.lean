import BinaryTemplate.Expression.Token

/-!
# Parsing expressions

Recursive descent over tokens. `operand n` reads an expression whose operators outside parentheses
all have a level of at most `n`; operators of one level group to the left, except that at most one
comparison may stand there. Each function returns the tokens that it leaves together with the
evidence that they are fewer, which is why the descent ends.
-/

namespace BinaryTemplate

/-- The result of reading an expression from `ts`: its tree and the tokens after it. -/
abbrev Parsed (ts : List Token) :=
  Option (Expression × { rest : List Token // rest.length < ts.length })

namespace Expression

mutual

/-- Reads an expression whose operators have a level of at most `n`. -/
def operand (n : Nat) (ts : List Token) : Parsed ts :=
  match n with
  | 0 => signed ts
  | n + 1 =>
    match operand n ts with
    | none => none
    | some (e, ⟨rest, shorter⟩) => (chain n e rest).map fun (e, ⟨rest, noLonger⟩) =>
        (e, ⟨rest, Nat.lt_of_le_of_lt noLonger shorter⟩)
termination_by (ts.length, n + 1)

/-- Reads the operators of level `n + 1` that follow the operand `left`, with their right
operands. -/
def chain (n : Nat) (left : Expression) (ts : List Token) :
    Option (Expression × { rest : List Token // rest.length ≤ ts.length }) :=
  match ts with
  | .operator op :: after =>
    if op.level = n + 1 then
      match operand n after with
      | none => none
      | some (right, ⟨rest, shorter⟩) =>
        have noLonger : rest.length ≤ (Token.operator op :: after).length :=
          Nat.le_succ_of_le (Nat.le_of_lt shorter)
        if n + 1 = BinaryOp.comparisonLevel then some (.binary op left right, ⟨rest, noLonger⟩)
        else
          (chain n (.binary op left right) rest).map fun (e, ⟨rest', fewer⟩) =>
            (e, ⟨rest', Nat.le_trans fewer noLonger⟩)
    else some (left, ⟨.operator op :: after, Nat.le_refl _⟩)
  | ts => some (left, ⟨ts, Nat.le_refl _⟩)
termination_by (ts.length, 0)

/-- Reads a number, a path or a parenthesis, with the operators in front of it. -/
def signed (ts : List Token) : Parsed ts :=
  match ts with
  | .operator .sub :: after =>
    (signed after).map fun (e, ⟨rest, shorter⟩) =>
      (.unary .neg e, ⟨rest, Nat.lt_succ_of_lt shorter⟩)
  | .unary op :: after =>
    (signed after).map fun (e, ⟨rest, shorter⟩) =>
      (.unary op e, ⟨rest, Nat.lt_succ_of_lt shorter⟩)
  | .number text :: after => some (.number text, ⟨after, Nat.lt_succ_self _⟩)
  | .path first further :: after => some (.path first further, ⟨after, Nat.lt_succ_self _⟩)
  | .openParen :: after =>
    match operand BinaryOp.loosest after with
    | some (e, ⟨.closeParen :: rest, shorter⟩) =>
      some (e, ⟨rest, Nat.lt_of_lt_of_le (Nat.lt_of_succ_lt shorter) (Nat.le_succ _)⟩)
    | _ => none
  | _ => none
termination_by (ts.length, 0)

end

def ofTokens? (ts : List Token) : Option Expression :=
  match operand BinaryOp.loosest ts with
  | some (e, ⟨[], _⟩) => some e
  | _ => none

def parse? (text : String) : Option Expression :=
  (tokens? text.toList).bind ofTokens?

end Expression

end BinaryTemplate
