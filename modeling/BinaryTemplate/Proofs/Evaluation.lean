import BinaryTemplate.Evaluator
import BinaryTemplate.Proofs.ExpressionParsing

/-!
# Evaluation follows the grammar

The value of a tree is what a stack machine computes that runs its operands and operators in post
order and stops at the first error. The standard evaluator answers every text of the grammar with
that value of its tree, and refuses all other texts; a text that is an integer when blanks around
it are dropped, and one that is only a path, have rules of their own.
-/

namespace BinaryTemplate

open Text.Numeral (digitOf? continue?)

/-! ## Numbers -/

theorem continue?_digits {base acc : Nat} {text : List Char} {values : List Nat}
    (each : List.Forall₂ (fun c value => digitOf? base c = some value) text values) :
    continue? base acc text =
      some (acc * base ^ values.length + Nat.ofDigits base values.reverse) := by
  induction each generalizing acc with
  | nil => simp [continue?]
  | cons digit _ inductionHypothesis =>
    rw [continue?, digit, Option.bind_some, inductionHypothesis, List.reverse_cons,
      Nat.ofDigits_append, Nat.ofDigits_singleton, List.length_reverse, List.length_cons]
    congr 1
    ring

namespace DigitsOf

variable {base n m : Nat} {text : List Char}

theorem parse? (h : DigitsOf base text n) : Text.Numeral.parse? base text = some n := by
  obtain ⟨nonempty, -⟩ := h.all
  obtain ⟨values, -, each, rfl⟩ := h
  rw [Text.Numeral.parse?, if_neg (by simpa using nonempty), continue?_digits each]
  simp

theorem digit (h : DigitsOf base text n) (c : Char) (member : c ∈ text) :
    (digitOf? base c).isSome = true :=
  h.all.2 c member

end DigitsOf

namespace Numeral

variable {text : List Char} {n m : Nat}

theorem magnitude? (h : Numeral text n) : Literal.magnitude? text = some n := by
  -- Neither a base mark nor a sign is a digit.
  have unsigned {base : Nat} {digits : List Char} (denotes : DigitsOf base digits n) :
      Literal.afterMark? base digits = some n := by
    unfold Literal.afterMark?
    split
    · cases denotes.digit _ List.mem_cons_self
    · exact denotes.parse?
  cases h with
  | decimal denotes =>
    unfold Literal.magnitude?
    split
    case h_5 => exact denotes.parse?
    all_goals exact absurd (denotes.digit _ (List.mem_cons_of_mem _ List.mem_cons_self)) (by decide)
  | hexadecimal marks denotes => rcases marks with rfl | rfl <;> exact unsigned denotes
  | binary marks denotes => rcases marks with rfl | rfl <;> exact unsigned denotes

theorem literal? (h : Numeral text n) : Literal.parse? text = Integer.narrow? n := by
  obtain ⟨c, cs, rfl, digit, -⟩ := @Token.numberFrom_append _ [] _ h nofun
  unfold Literal.parse?
  split
  · next same =>
    cases same
    cases digit
  · rw [h.magnitude?, Option.bind_some]

theorem unique (h : Numeral text n) (h' : Numeral text m) : n = m :=
  Option.some.inj (h.magnitude?.symm.trans h'.magnitude?)

end Numeral

/-! ## Post order -/

/-- What a tree does at one of its nodes, once the operands are on the stack. -/
inductive Instruction where
  | number (text : List Char)
  | path (first : String) (rest : List String)
  | unary (op : UnaryOp)
  | binary (op : BinaryOp)
deriving DecidableEq, Repr

/-- The nodes of a tree, each behind its operands and the left operand before the right one. -/
def Expression.postOrder : Expression → List Instruction
  | .number text => [.number text]
  | .path first rest => [.path first rest]
  | .unary op operand => operand.postOrder ++ [.unary op]
  | .binary op left right => left.postOrder ++ (right.postOrder ++ [.binary op])

variable {c : Context}

namespace Instruction

/-- What an instruction makes of the stack, whose top comes first. -/
inductive Steps (c : Context) :
    Instruction → List Int64 → Except ExpressionError (List Int64) → Prop
  | number {text : List Char} {n : Nat} {value : Int64} {stack : List Int64}
      (numeral : Numeral text n) (same : value.toInt = n) :
      Steps c (.number text) stack (.ok (value :: stack))
  | tooGreat {text : List Char} {n : Nat} {stack : List Int64} (numeral : Numeral text n)
      (exceeds : Integer.greatest < n) :
      Steps c (.number text) stack (.error (.overflow (String.ofList text)))
  | numeric {first : String} {rest : List String} {v : Value} {value : Int64} {stack : List Int64}
      (found : c.lookup (first :: rest) = some v) (known : v.toInt? = some value) :
      Steps c (.path first rest) stack (.ok (value :: stack))
  | notNumeric {first : String} {rest : List String} {v : Value} {stack : List Int64}
      (found : c.lookup (first :: rest) = some v) (unknown : v.toInt? = none) :
      Steps c (.path first rest) stack (.error (.notNumeric (pathText first rest)))
  | unknownName {first : String} {rest : List String} {stack : List Int64}
      (missing : c.lookup (first :: rest) = none) :
      Steps c (.path first rest) stack (.error (.unknownName (pathText first rest)))
  | unary {op : UnaryOp} {a : Int64} {stack : List Int64} :
      Steps c (.unary op) (a :: stack) ((op.apply a).map (· :: stack))
  | binary {op : BinaryOp} {a b : Int64} {stack : List Int64} :
      Steps c (.binary op) (b :: a :: stack) ((op.apply a b).map (· :: stack))

end Instruction

/-- A run of instructions, up to the first error. -/
inductive Runs (c : Context) :
    List Instruction → List Int64 → Except ExpressionError (List Int64) → Prop
  | done {stack : List Int64} : Runs c [] stack (.ok stack)
  | steps {i : Instruction} {further : List Instruction} {stack next : List Int64}
      {result : Except ExpressionError (List Int64)} (step : i.Steps c stack (.ok next))
      (run : Runs c further next result) : Runs c (i :: further) stack result
  | fails {i : Instruction} {further : List Instruction} {stack : List Int64}
      {error : ExpressionError} (step : i.Steps c stack (.error error)) :
      Runs c (i :: further) stack (.error error)

theorem Instruction.Steps.unique {i : Instruction} {stack : List Int64}
    {r r' : Except ExpressionError (List Int64)} (h : i.Steps c stack r) (h' : i.Steps c stack r') :
    r = r' := by
  cases h with
  | @number _ _ value _ numeral same =>
    cases h' with
    | number numeral' same' =>
      have values := same.trans ((congrArg _ (numeral.unique numeral')).trans same'.symm)
      rw [Int64.toInt_inj.mp values]
    | tooGreat numeral' exceeds =>
      have below := Int64.toInt_lt value
      have equal := numeral.unique numeral'
      simp only [Integer.greatest] at exceeds
      omega
  | tooGreat numeral exceeds =>
    cases h' with
    | @number _ _ value _ numeral' same =>
      have below := Int64.toInt_lt value
      have equal := numeral.unique numeral'
      simp only [Integer.greatest] at exceeds
      omega
    | tooGreat => rfl
  | numeric found known | notNumeric found known | unknownName found =>
    cases h' <;> simp_all
  | unary | binary =>
    cases h'
    rfl

theorem map_ne_error {α β : Type} {x : Except ExpressionError α} {f : α → β}
    {error : ExpressionError} (other : x ≠ .error error) : x.map f ≠ .error error := by
  cases x with
  | ok => exact nofun
  | error =>
    rintro ⟨⟩
    exact other rfl

theorem UnaryOp.apply_supported (op : UnaryOp) (a : Int64) (what : String) :
    op.apply a ≠ .error (.unsupported what) := by
  cases op
  case neg =>
    unfold UnaryOp.apply
    dsimp only
    split <;> exact nofun
  all_goals exact nofun

theorem BinaryOp.apply_supported (op : BinaryOp) (a b : Int64) (what : String) :
    op.apply a b ≠ .error (.unsupported what) := by
  cases op <;> unfold BinaryOp.apply <;> dsimp only <;> (repeat' split) <;> exact nofun

theorem Instruction.Steps.supported {i : Instruction} {stack : List Int64}
    {r : Except ExpressionError (List Int64)} (h : i.Steps c stack r) (what : String) :
    r ≠ .error (.unsupported what) := by
  cases h with
  | @unary op a => exact map_ne_error (op.apply_supported a what)
  | @binary op a b => exact map_ne_error (op.apply_supported a b what)
  | _ => exact nofun

namespace Runs

variable {is js : List Instruction} {stack next : List Int64} {error : ExpressionError}
  {r r' : Except ExpressionError (List Int64)}

theorem unique (h : Runs c is stack r) (h' : Runs c is stack r') : r = r' := by
  induction h with
  | done =>
    cases h'
    rfl
  | steps step _ inductionHypothesis =>
    cases h' with
    | steps step' run =>
      cases step.unique step'
      exact inductionHypothesis run
    | fails step' => cases step.unique step'
  | fails step =>
    cases h' with
    | steps step' => cases step.unique step'
    | fails step' =>
      cases step.unique step'
      rfl

theorem append (before : Runs c is stack (.ok next)) (behind : Runs c js next r) :
    Runs c (is ++ js) stack r := by
  generalize ended : Except.ok next = first at before
  induction before with
  | done =>
    cases ended
    exact behind
  | steps step _ inductionHypothesis => exact .steps step (inductionHypothesis ended)
  | fails => cases ended

theorem append_error (before : Runs c is stack (.error error)) :
    Runs c (is ++ js) stack (.error error) := by
  generalize ended : Except.error error = first at before
  induction before with
  | done => cases ended
  | steps step _ inductionHypothesis => exact .steps step (inductionHypothesis ended)
  | fails step =>
    cases ended
    exact .fails step

/-- Every error is one that a reader of the grammar expects. -/
theorem supported (h : Runs c is stack r) (what : String) : r ≠ .error (.unsupported what) := by
  induction h with
  | done => exact nofun
  | steps _ _ inductionHypothesis => exact inductionHypothesis
  | fails step => exact step.supported what

theorem single {i : Instruction} (step : i.Steps c stack r) : Runs c [i] stack r := by
  cases r with
  | ok => exact .steps step .done
  | error => exact .fails step

end Runs

namespace Expression

theorem steps_number {text : List Char} {n : Nat} (numeral : Numeral text n) (stack : List Int64) :
    (Instruction.number text).Steps c stack
      ((evaluate c.integer (.number text)).map (· :: stack)) := by
  rw [evaluate, numeral.literal?]
  cases fits : Integer.narrow? n with
  | some value => exact .number numeral (Integer.toInt_narrow? fits)
  | none =>
    refine .tooGreat numeral ?_
    simp only [Integer.narrow?, Integer.least, ite_eq_right_iff, reduceCtorEq, imp_false] at fits
    omega

theorem steps_path (first : String) (rest : List String) (stack : List Int64) :
    (Instruction.path first rest).Steps c stack
      ((evaluate c.integer (.path first rest)).map (· :: stack)) := by
  rw [evaluate, Context.integer, Context.named]
  cases found : c.lookup (first :: rest) with
  | none => exact .unknownName found
  | some v =>
    simp only [bind, Except.bind]
    cases known : v.toInt? with
    | none => exact .notNumeric found known
    | some value => exact .numeric found known

/-- The value of a tree is what its nodes compute in post order, and its error is the first one
that they meet. -/
theorem runs_postOrder {e : Expression} (spelled : e.Spelled) (stack : List Int64) :
    Runs c e.postOrder stack ((e.evaluate c.integer).map (· :: stack)) := by
  induction e generalizing stack with
  | number text =>
    obtain ⟨n, numeral⟩ := spelled
    exact .single (steps_number numeral stack)
  | path first rest => exact .single (steps_path first rest stack)
  | unary op operand inductionHypothesis =>
    have before := inductionHypothesis spelled stack
    rw [evaluate]
    cases value : operand.evaluate c.integer with
    | error error =>
      rw [value] at before
      exact before.append_error
    | ok a =>
      rw [value] at before
      exact before.append (.single .unary)
  | binary op left right ihLeft ihRight =>
    have before := ihLeft spelled.1 stack
    rw [evaluate]
    cases leftValue : left.evaluate c.integer with
    | error error =>
      rw [leftValue] at before
      exact before.append_error
    | ok a =>
      have behind := ihRight spelled.2 (a :: stack)
      rw [leftValue] at before
      cases rightValue : right.evaluate c.integer with
      | error error =>
        rw [rightValue] at behind
        exact before.append behind.append_error
      | ok b =>
        rw [rightValue] at behind
        exact before.append (behind.append (.single .binary))

/-- The value of the tree, or the first error that its nodes meet in post order. -/
def Yields (c : Context) (e : Expression) (result : Except ExpressionError Int64) : Prop :=
  Runs c e.postOrder [] (result.map ([·]))

theorem Spelled.yields_iff {e : Expression} (spelled : e.Spelled)
    {result : Except ExpressionError Int64} :
    e.Yields c result ↔ e.evaluate c.integer = result := by
  have runs := runs_postOrder (c := c) spelled []
  constructor
  · intro yields
    have same := runs.unique yields
    cases value : e.evaluate c.integer <;> rw [value] at same <;> cases result <;> cases same <;>
      rfl
  · rintro rfl
    exact runs

end Expression

/-! ## Answers to texts -/

namespace Evaluator

/-- What a text is answered with in a context. -/
inductive Answers (c : Context) (text : String) : Except ExpressionError Evaluated → Prop
  /-- An integer, with or without white space around it. -/
  | literal {n : Int64} (whole : Literal.parse? (Text.trim text.toList) = some n) :
      Answers c text (.ok (.integer n))
  /-- Only a path, to a value with an integer. -/
  | numeric {first : String} {rest : List String} {v : Value} {n : Int64}
      (noLiteral : Literal.parse? (Text.trim text.toList) = none)
      (lone : Written [.path first rest] text.toList)
      (found : c.lookup (first :: rest) = some v) (known : v.toInt? = some n) :
      Answers c text (.ok (.integer n))
  /-- Only a path, to a value without an integer. -/
  | element {first : String} {rest : List String} {v : Value}
      (noLiteral : Literal.parse? (Text.trim text.toList) = none)
      (lone : Written [.path first rest] text.toList)
      (found : c.lookup (first :: rest) = some v) (unknown : v.toInt? = none) :
      Answers c text (.ok (.element v.element))
  /-- Only a path, to no value. -/
  | unknownName {first : String} {rest : List String}
      (noLiteral : Literal.parse? (Text.trim text.toList) = none)
      (lone : Written [.path first rest] text.toList)
      (missing : c.lookup (first :: rest) = none) :
      Answers c text (.error (.unknownName (pathText first rest)))
  /-- A way to write any other tree. -/
  | tree {e : Expression} {result : Except ExpressionError Int64}
      (noLiteral : Literal.parse? (Text.trim text.toList) = none)
      (noPath : ∀ first rest, ¬ Written [.path first rest] text.toList)
      (rendering : e.Rendering text) (yields : e.Yields c result) :
      Answers c text (result.map .integer)
  /-- No way to write a tree. -/
  | refused (noLiteral : Literal.parse? (Text.trim text.toList) = none)
      (noTree : ∀ e : Expression, ¬ e.Rendering text) : Answers c text (.error (.parse text))

variable {text : String} {result : Except ExpressionError Evaluated}

theorem evaluateStandard_literal {n : Int64}
    (whole : Literal.parse? (Text.trim text.toList) = some n) :
    evaluateStandard c text = .ok (.integer n) := by
  rw [evaluateStandard, whole]

theorem evaluateStandard_lone {first : String} {rest : List String}
    (noLiteral : Literal.parse? (Text.trim text.toList) = none)
    (lone : Written [.path first rest] text.toList) :
    evaluateStandard c text =
      (c.named first rest).map fun v => v.toInt?.elim (.element v.element) .integer := by
  have scanned := tokens?_of_written lone (.singleton _)
  simp only [evaluateStandard, noLiteral, scanned]
  cases c.named first rest with
  | error => rfl
  | ok v =>
    simp only [bind, Except.bind, Except.map]
    cases v.toInt? <;> rfl

theorem evaluateStandard_tree (noLiteral : Literal.parse? (Text.trim text.toList) = none)
    (noPath : ∀ first rest, ¬ Written [.path first rest] text.toList) :
    evaluateStandard c text =
      match Expression.parse? text with
      | some e => (e.evaluate c.integer).map .integer
      | none => .error (.parse text) := by
  rw [evaluateStandard, noLiteral]
  dsimp only
  split
  · next scanned => exact absurd (written_of_tokens? scanned) (noPath _ _)
  · rfl

theorem Answers.evaluateStandard_eq (h : Answers c text result) :
    evaluateStandard c text = result := by
  cases h with
  | literal whole => exact evaluateStandard_literal whole
  | numeric noLiteral lone found known =>
    rw [evaluateStandard_lone noLiteral lone, Context.named, found]
    simp only [Except.map, known, Option.elim]
  | element noLiteral lone found unknown =>
    rw [evaluateStandard_lone noLiteral lone, Context.named, found]
    simp only [Except.map, unknown, Option.elim]
  | unknownName noLiteral lone missing =>
    rw [evaluateStandard_lone noLiteral lone, Context.named, missing]
    rfl
  | tree noLiteral noPath rendering yields =>
    have value := (Expression.spelled_iff.mpr ⟨_, rendering⟩).yields_iff.mp yields
    rw [evaluateStandard_tree noLiteral noPath, Expression.parse?_eq_some_iff.mpr rendering]
    exact congrArg (Except.map Evaluated.integer) value
  | refused noLiteral noTree =>
    rw [evaluateStandard_tree noLiteral fun _ _ lone =>
      noTree _ (Expression.rendering_of_lone lone)]
    cases parsed : Expression.parse? text with
    | none => rfl
    | some e => exact absurd (Expression.parse?_eq_some_iff.mp parsed) (noTree e)

theorem answers_evaluateStandard (c : Context) (text : String) :
    Answers c text (evaluateStandard c text) := by
  cases whole : Literal.parse? (Text.trim text.toList) with
  | some n =>
    rw [evaluateStandard_literal whole]
    exact .literal whole
  | none =>
    by_cases lone : ∃ first rest, Written [.path first rest] text.toList
    · obtain ⟨first, rest, lone⟩ := lone
      rw [evaluateStandard_lone whole lone, Context.named]
      cases found : c.lookup (first :: rest) with
      | none => exact .unknownName whole lone found
      | some v =>
        simp only [Except.map]
        cases known : v.toInt? with
        | none => exact .element whole lone found known
        | some n => exact .numeric whole lone found known
    · have noPath : ∀ first rest, ¬ Written [.path first rest] text.toList :=
        fun first rest written => lone ⟨first, rest, written⟩
      rw [evaluateStandard_tree whole noPath]
      cases parsed : Expression.parse? text with
      | none =>
        refine .refused whole fun e rendering => ?_
        cases parsed.symm.trans (Expression.parse?_eq_some_iff.mpr rendering)
      | some e =>
        have rendering := Expression.parse?_eq_some_iff.mp parsed
        have spelled := Expression.spelled_iff.mpr ⟨_, rendering⟩
        exact .tree whole noPath rendering (spelled.yields_iff.mpr rfl)

theorem Answers.supported (h : Answers c text result) (what : String) :
    result ≠ .error (.unsupported what) := by
  cases h with
  | @tree e result _ _ _ yields =>
    refine map_ne_error ?_
    rintro rfl
    exact yields.supported what rfl
  | _ => exact nofun

/-- The evaluator answers every text as the grammar has it. -/
theorem evaluateStandard_follows_grammar (c : Context) (text : String)
    (result : Except ExpressionError Evaluated) :
    (evaluateStandard c text = result ↔ Answers c text result) ∧
      ∀ what, evaluateStandard c text ≠ .error (.unsupported what) := by
  refine ⟨⟨?_, Answers.evaluateStandard_eq⟩, (answers_evaluateStandard c text).supported⟩
  rintro rfl
  exact answers_evaluateStandard c text

/-- Behind a no-break space an integer is no literal and no way to write a tree, and has a value
all the same. -/
theorem foreign_blank_is_dropped :
    Literal.parse? "\u00a05".toList = none ∧ (∀ e : Expression, ¬ e.Rendering "\u00a05") ∧
      ∀ c, evaluateStandard c "\u00a05" = .ok (.integer 5) := by
  refine ⟨by decide, fun e rendering => ?_, fun c => evaluateStandard_literal (by decide)⟩
  have parsed := Expression.parse?_eq_some_iff.mpr rendering
  have unread : tokens? "\u00a05".toList = none := by
    rw [show "\u00a05".toList = ['\u00a0', '5'] from rfl, tokens?]
    rfl
  rw [Expression.parse?, unread] at parsed
  cases parsed

end Evaluator

end BinaryTemplate
