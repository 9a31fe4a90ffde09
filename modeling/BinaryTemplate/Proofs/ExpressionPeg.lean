import BinaryTemplate.Proofs.ExpressionParsing
import BinaryTemplate.Proofs.ParsingExpressions

/-!
# The grammar of expressions as parsing expressions

Expressions are defined by a grammar that chooses in order and does not reconsider. Here it is, with
the tree that its matches denote. Of the operators it looks at those of one level at a time, so how
far one goes depends on where it is looked for. Whatever is matched is a way to write the tree of
the match.
-/

namespace BinaryTemplate

open BinaryOp (comparisonLevel loosest)

/-! ## The grammar -/

/-- The rules. Level zero is that of the unary operators, and each of the others has the binary
operators of that level. -/
inductive ExpressionRule where
  | level (n : Nat)
  | operator (level : Nat)
  | unaryOperator
  | number
  | path
  | name

namespace ExpressionRule

open Peg

def blanks : Peg ExpressionRule := .star (.char Token.isBlank)

/-- One behind the other, with any blanks between them. -/
def followed (first second : Peg ExpressionRule) : Peg ExpressionRule :=
  .seq first (.seq blanks second)

/-- Any number of them, with any blanks between them. -/
def many (item : Peg ExpressionRule) : Peg ExpressionRule :=
  .optional (.seq item (.star (.seq blanks item)))

/-- A character that is not doubled. -/
def single (c : Char) : Peg ExpressionRule := .seq (.literal [c]) (.not (.literal [c]))

def operatorBody : Nat → Peg ExpressionRule
  | 1 => oneOf ["*", "/", "%"]
  | 2 => oneOf ["+", "-"]
  | 3 => oneOf ["<<", ">>"]
  | 4 => single '&'
  | 5 => oneOf ["^"]
  | 6 => single '|'
  | 7 => oneOf ["==", "!=", "<=", ">=", "<", ">"]
  | 8 => oneOf ["&&"]
  | 9 => oneOf ["||"]
  | _ => oneOf []

def numberBody : Peg ExpressionRule :=
  .choice (.seq (oneOf ["0x", "0X"]) (plus (.char Token.isHexDigit)))
    (.choice (.seq (oneOf ["0b", "0B"]) (plus (.char Token.isBinaryDigit)))
      (plus (.char Char.isDigit)))

def primary : Peg ExpressionRule :=
  .choice (.rule .number) (.choice (.rule .path)
    (followed (.literal ['(']) (followed (.rule (.level loosest)) (.literal [')']))))

/-- An operator of a level with its right operand. -/
def further (n : Nat) : Peg ExpressionRule :=
  followed (.rule (.operator (n + 1))) (.rule (.level n))

def body : ExpressionRule → Peg ExpressionRule
  | .level 0 => followed (many (.rule .unaryOperator)) primary
  | .level (n + 1) =>
    -- Comparisons do not chain: there is at most one.
    followed (.rule (.level n))
      (if n + 1 = comparisonLevel then .optional (further n) else many (further n))
  | .operator n => operatorBody n
  | .unaryOperator => oneOf ["-", "!", "~"]
  | .number => numberBody
  | .path => .seq (.rule .name) (.star (.seq (.literal ['.']) (.rule .name)))
  | .name => .seq (.char Token.isNameStart) (.star (.char Token.isNameRest))

/-- A whole text. -/
def whole (e : Peg ExpressionRule) : Peg ExpressionRule :=
  .seq blanks (followed e finish)

end ExpressionRule

/-! ## The tree of a match -/

namespace Expression

open ExpressionRule Peg

def operatorMatch (op : BinaryOp) : Match ExpressionRule :=
  ⟨.operator op.level, op.symbol.toList, []⟩

def unaryMatch (op : UnaryOp) : Match ExpressionRule :=
  ⟨.unaryOperator, match op with | .neg => ['-'] | .not => ['!'] | .complement => ['~'], []⟩

def nameMatch (name : String) : Match ExpressionRule := ⟨.name, name.toList, []⟩

def pathMatch (first : String) (rest : List String) : Match ExpressionRule :=
  ⟨.path, (pathText first rest).toList, (first :: rest).map nameMatch⟩

mutual

/-- A match denotes a tree. The operators of one level group to the left, and those in front of an
operand to the right. -/
inductive Denotes : Match ExpressionRule → Expression → Prop
  | number {text : List Char} : Denotes ⟨.number, text, []⟩ (.number text)
  | path {first : String} {rest : List String} : Denotes (pathMatch first rest) (.path first rest)
  | signed {text : List Char} {ops : List UnaryOp} {m : Match ExpressionRule} {e : Expression}
      (operand : Denotes m e) :
      Denotes ⟨.level 0, text, ops.map unaryMatch ++ [m]⟩ (ops.foldr .unary e)
  | chain {n : Nat} {text : List Char} {m : Match ExpressionRule}
      {ms : List (Match ExpressionRule)} {left e : Expression} (first : Denotes m left)
      (others : Grows left ms e) : Denotes ⟨.level (n + 1), text, m :: ms⟩ e

/-- A left operand grows to a tree with the operators behind it. -/
inductive Grows : Expression → List (Match ExpressionRule) → Expression → Prop
  | nil {left : Expression} : Grows left [] left
  | cons {op : BinaryOp} {m : Match ExpressionRule} {ms : List (Match ExpressionRule)}
      {left right e : Expression} (operand : Denotes m right)
      (others : Grows (.binary op left right) ms e) : Grows left (operatorMatch op :: m :: ms) e

end

/-! ## What is matched is written -/

/-- What the match of a rule is. -/
def Means : Match ExpressionRule → Prop
  | ⟨.level n, text, inner⟩ =>
    ∃ e ts, Denotes ⟨.level n, text, inner⟩ e ∧ Renders n e ts ∧ Written ts text
  | ⟨.operator n, text, inner⟩ =>
    ∃ op : BinaryOp, op.level = n ∧ text = op.symbol.toList ∧ inner = []
  | ⟨.unaryOperator, text, inner⟩ => ∃ op : UnaryOp, ⟨.unaryOperator, text, inner⟩ = unaryMatch op
  | ⟨.number, text, inner⟩ => (∃ n, Numeral text n) ∧ inner = []
  | ⟨.path, text, inner⟩ => ∃ first rest, (∀ name ∈ first :: rest, IsName name) ∧
      ⟨.path, text, inner⟩ = pathMatch first rest
  | ⟨.name, text, inner⟩ => ∃ name, IsName name ∧ text = name.toList ∧ inner = []

variable {n : Nat} {ms : List (Match ExpressionRule)} {cs : List Char} {a b : Peg ExpressionRule}

theorem yields_followed (h : Yields Means (followed a b) ms cs) :
    ∃ ms₁ ms₂ cs₁ blank cs₂, Yields Means a ms₁ cs₁ ∧ (∀ c ∈ blank, Token.isBlank c = true) ∧
      Yields Means b ms₂ cs₂ ∧ ms = ms₁ ++ ms₂ ∧ cs = cs₁ ++ (blank ++ cs₂) := by
  cases h with
  | seq first others =>
    cases others with
    | seq spaces second =>
      obtain ⟨rfl, blank⟩ := spaces.star_char
      exact ⟨_, _, _, _, _, first, blank, second, rfl, rfl⟩

/-- Blanks between them are blanks in front of them. -/
theorem yields_many (h : Yields Means (many a) ms cs) :
    Yields Means (.star (.seq blanks a)) ms cs := by
  cases h with
  | left some =>
    cases some with
    | seq first others => exact .more (@Yields.seq _ _ _ _ [] _ [] _ .none first) others
  | right none =>
    cases none
    exact .none

theorem yields_further (h : Yields Means (further n) ms cs) :
    ∃ op m right rs, op.level = n + 1 ∧ ms = [operatorMatch op, m] ∧ Denotes m right ∧
      Renders n right rs ∧ Written (.operator op :: rs) cs := by
  obtain ⟨_, _, _, _, _, operator, blank, operand, rfl, rfl⟩ := yields_followed h
  cases operator with
  | rule meant =>
    obtain ⟨op, level, rfl, rfl⟩ := meant
    cases operand with
    | rule meant =>
      obtain ⟨right, rs, denotes, renders, written⟩ := meant
      refine ⟨op, _, right, rs, level, ?_, denotes, renders, ?_⟩
      · rw [← level]
        rfl
      · exact .unspaced .operator (written.blanks blank)

/-- Operators that chain render the tree to which the left operand grows. -/
theorem grows_of_yields (chains : n + 1 ≠ comparisonLevel)
    (h : Yields Means (.star (.seq blanks (further n))) ms cs) {left : Expression} {ls : List Token}
    (renders : Renders (n + 1) left ls) :
    ∃ e us, Grows left ms e ∧ Renders (n + 1) e (ls ++ us) ∧ Written us cs := by
  generalize same : Peg.star (.seq blanks (further n)) = e at h
  induction h generalizing left ls with
  | none => exact ⟨left, [], .nil, by rwa [List.append_nil], .nil nofun⟩
  | more item _ _ inductionHypothesis =>
    cases same
    cases item with
    | seq spaces item =>
      obtain ⟨rfl, blank⟩ := spaces.star_char
      obtain ⟨op, m, right, rs, level, rfl, denotes, behind, written⟩ := yields_further item
      obtain ⟨e, us, grows, whole, others⟩ :=
        inductionHypothesis (.chained level chains renders behind) rfl
      refine ⟨e, .operator op :: rs ++ us, .cons denotes grows, ?_, ?_⟩
      · rwa [List.append_assoc, List.cons_append] at whole
      · exact (written.blanks blank).append others
  | _ => cases same

theorem yields_level (h : Yields Means (body (.level (n + 1))) ms cs) :
    Means ⟨.level (n + 1), cs, ms⟩ := by
  obtain ⟨_, _, _, _, _, first, blank, others, rfl, rfl⟩ := yields_followed h
  cases first with
  | rule meant =>
    obtain ⟨left, ls, denotes, renders, written⟩ := meant
    by_cases compares : n + 1 = comparisonLevel
    · rw [if_pos compares] at others
      cases others with
      | left some =>
        obtain ⟨op, m, right, rs, level, rfl, operand, behind, further⟩ := yields_further some
        exact ⟨_, _, .chain denotes (.cons operand .nil), .compared level compares renders behind,
          written.append (further.blanks blank)⟩
      | right none =>
        cases none
        refine ⟨_, _, .chain denotes .nil, renders.looser, ?_⟩
        simpa using written.append (Written.nil blank)
    · rw [if_neg compares] at others
      obtain ⟨e, us, grows, whole, further⟩ :=
        grows_of_yields compares (yields_many others) renders.looser
      exact ⟨e, _, .chain denotes grows, whole, written.append (further.blanks blank)⟩

theorem spells_unaryMatch {op : UnaryOp} {text : List Char}
    {inner : List (Match ExpressionRule)} (same : ⟨.unaryOperator, text, inner⟩ = unaryMatch op) :
    op.token.Spells text := by
  cases op <;> cases same
  · exact .operator
  · exact .not
  · exact .complement

theorem yields_unaryOperators
    (h : Yields Means (.star (.seq blanks (.rule .unaryOperator))) ms cs) :
    ∃ ops : List UnaryOp, ms = ops.map unaryMatch ∧ Written (ops.map UnaryOp.token) cs := by
  generalize same : Peg.star (.seq blanks (.rule .unaryOperator)) = e at h
  induction h with
  | none => exact ⟨[], rfl, .nil nofun⟩
  | more item _ _ inductionHypothesis =>
    cases same
    cases item with
    | seq spaces item =>
      obtain ⟨rfl, blank⟩ := spaces.star_char
      cases item with
      | rule meant =>
        obtain ⟨op, same⟩ := meant
        obtain ⟨ops, rfl, others⟩ := inductionHypothesis rfl
        refine ⟨op :: ops, by rw [same]; rfl, ?_⟩
        rw [List.append_assoc]
        exact (Written.unspaced (spells_unaryMatch same) others).blanks blank
  | _ => cases same

theorem yields_primary (h : Yields Means primary ms cs) :
    ∃ m e ts, ms = [m] ∧ Denotes m e ∧ Renders 0 e ts ∧ Written ts cs := by
  cases h with
  | left number =>
    cases number with
    | rule meant =>
      obtain ⟨⟨_, numeral⟩, rfl⟩ := meant
      exact ⟨_, _, _, rfl, .number, .number, .alone (.number numeral)⟩
  | right others =>
    cases others with
    | left path =>
      cases path with
      | rule meant =>
        obtain ⟨first, rest, names, same⟩ := meant
        cases same
        exact ⟨_, _, _, rfl, .path, .path, .alone (.path names)⟩
    | right parens =>
      obtain ⟨_, _, _, _, _, opens, blank, others, rfl, rfl⟩ := yields_followed parens
      obtain ⟨_, _, _, _, _, inside, blank', closes, rfl, rfl⟩ := yields_followed others
      cases opens
      cases closes
      cases inside with
      | rule meant =>
        obtain ⟨e, ts, denotes, renders, written⟩ := meant
        refine ⟨_, e, _, rfl, denotes, .parens renders, ?_⟩
        have closed : Written [.closeParen] _ := (Written.alone .closeParen).blanks blank'
        exact .unspaced .openParen ((written.append closed).blanks blank)

theorem renders_signed {e : Expression} {ts : List Token} (ops : List UnaryOp)
    (renders : Renders 0 e ts) :
    Renders 0 (ops.foldr .unary e) (ops.map UnaryOp.token ++ ts) := by
  induction ops with
  | nil => exact renders
  | cons op ops inductionHypothesis => exact .unary inductionHypothesis

theorem yields_signed (h : Yields Means (body (.level 0)) ms cs) : Means ⟨.level 0, cs, ms⟩ := by
  obtain ⟨_, _, _, _, _, operators, blank, operand, rfl, rfl⟩ := yields_followed h
  obtain ⟨ops, rfl, signs⟩ := yields_unaryOperators (yields_many operators)
  obtain ⟨m, e, ts, rfl, denotes, renders, written⟩ := yields_primary operand
  exact ⟨_, _, .signed denotes, renders_signed ops renders, signs.append (written.blanks blank)⟩

theorem yields_operator (h : Yields Means (operatorBody n) ms cs) :
    Means ⟨.operator n, cs, ms⟩ := by
  have found {texts : List String} (h : Yields Means (oneOf texts) ms cs)
      (known : ∀ text ∈ texts, ∃ op : BinaryOp, op.level = n ∧ text = op.symbol) :
      Means ⟨.operator n, cs, ms⟩ := by
    obtain ⟨rfl, text, member, rfl⟩ := h.oneOf
    obtain ⟨op, level, rfl⟩ := known text member
    exact ⟨op, level, rfl, rfl⟩
  have alone {c : Char} (h : Yields Means (single c) ms cs) (op : BinaryOp) (level : op.level = n)
      (symbol : op.symbol.toList = [c]) : Means ⟨.operator n, cs, ms⟩ := by
    cases h with
    | seq first last =>
      cases first
      cases last
      exact ⟨op, level, symbol.symm, rfl⟩
  unfold operatorBody at h
  split at h
  · exact found h (by simpa using ⟨⟨.mul, rfl, rfl⟩, ⟨.div, rfl, rfl⟩, ⟨.mod, rfl, rfl⟩⟩)
  · exact found h (by simpa using ⟨⟨.add, rfl, rfl⟩, ⟨.sub, rfl, rfl⟩⟩)
  · exact found h (by simpa using ⟨⟨.shiftLeft, rfl, rfl⟩, ⟨.shiftRight, rfl, rfl⟩⟩)
  · exact alone h .bitAnd rfl rfl
  · exact found h (by simpa using ⟨.bitXor, rfl, rfl⟩)
  · exact alone h .bitOr rfl rfl
  · exact found h (by simpa using ⟨⟨.eq, rfl, rfl⟩, ⟨.ne, rfl, rfl⟩, ⟨.le, rfl, rfl⟩,
      ⟨.ge, rfl, rfl⟩, ⟨.lt, rfl, rfl⟩, ⟨.gt, rfl, rfl⟩⟩)
  · exact found h (by simpa using ⟨.and, rfl, rfl⟩)
  · exact found h (by simpa using ⟨.or, rfl, rfl⟩)
  · exact found h nofun

theorem yields_unaryOperator (h : Yields Means (body .unaryOperator) ms cs) :
    Means ⟨.unaryOperator, cs, ms⟩ := by
  obtain ⟨rfl, text, member, rfl⟩ := h.oneOf
  simp only [List.mem_cons, List.not_mem_nil, or_false] at member
  rcases member with rfl | rfl | rfl
  · exact ⟨.neg, rfl⟩
  · exact ⟨.not, rfl⟩
  · exact ⟨.complement, rfl⟩

theorem yields_number (h : Yields Means numberBody ms cs) : Means ⟨.number, cs, ms⟩ := by
  have marked {texts : List String} {isDigit : Char → Bool}
      (h : Yields Means (.seq (oneOf texts) (plus (.char isDigit))) ms cs) :
      ms = [] ∧ ∃ text ∈ texts, ∃ digits, cs = text.toList ++ digits ∧ digits ≠ [] ∧
        ∀ c ∈ digits, isDigit c = true := by
    cases h with
    | seq mark digits =>
      obtain ⟨rfl, text, member, rfl⟩ := mark.oneOf
      obtain ⟨rfl, nonempty, all⟩ := digits.plus_char
      exact ⟨rfl, text, member, _, rfl, nonempty, all⟩
  cases h with
  | left hexadecimal =>
    obtain ⟨rfl, text, member, digits, rfl, nonempty, all⟩ := marked hexadecimal
    obtain ⟨n, denotes⟩ := digitsOf_of_all 16 nonempty all
    simp only [List.mem_cons, List.not_mem_nil, or_false] at member
    rcases member with rfl | rfl
    · exact ⟨⟨n, .hexadecimal (.inl rfl) denotes⟩, rfl⟩
    · exact ⟨⟨n, .hexadecimal (.inr rfl) denotes⟩, rfl⟩
  | right others =>
    cases others with
    | left binary =>
      obtain ⟨rfl, text, member, digits, rfl, nonempty, all⟩ := marked binary
      obtain ⟨n, denotes⟩ := digitsOf_of_all 2 nonempty fun c digit =>
        (Token.isBinaryDigit_eq c).symm.trans (all c digit)
      simp only [List.mem_cons, List.not_mem_nil, or_false] at member
      rcases member with rfl | rfl
      · exact ⟨⟨n, .binary (.inl rfl) denotes⟩, rfl⟩
      · exact ⟨⟨n, .binary (.inr rfl) denotes⟩, rfl⟩
    | right decimal =>
      obtain ⟨rfl, nonempty, all⟩ := decimal.plus_char
      obtain ⟨n, denotes⟩ := digitsOf_of_all 10 nonempty fun c digit =>
        (Token.isDigit_eq c).symm.trans (all c digit)
      exact ⟨⟨n, .decimal denotes⟩, rfl⟩

theorem yields_name (h : Yields Means (body .name) ms cs) : Means ⟨.name, cs, ms⟩ := by
  cases h with
  | seq first others =>
    cases first with
    | char starts =>
      obtain ⟨rfl, rest⟩ := others.star_char
      exact ⟨_, Token.isName_ofList starts rest, (String.toList_ofList).symm, rfl⟩

theorem yields_furtherNames (h : Yields Means (.star (.seq (.literal ['.']) (.rule .name))) ms cs) :
    ∃ names : List String, (∀ name ∈ names, IsName name) ∧ ms = names.map nameMatch ∧
      cs = names.flatMap fun name => '.' :: name.toList := by
  generalize same : Peg.star (.seq (.literal ['.']) (.rule ExpressionRule.name)) = e at h
  induction h with
  | none => exact ⟨[], List.forall_mem_nil _, rfl, rfl⟩
  | more item _ _ inductionHypothesis =>
    cases same
    cases item with
    | seq dot item =>
      cases dot
      cases item with
      | rule meant =>
        obtain ⟨name, isName, rfl, rfl⟩ := meant
        obtain ⟨names, all, rfl, rfl⟩ := inductionHypothesis rfl
        exact ⟨name :: names, List.forall_mem_cons.mpr ⟨isName, all⟩, rfl, rfl⟩
  | _ => cases same

theorem yields_path (h : Yields Means (body .path) ms cs) : Means ⟨.path, cs, ms⟩ := by
  cases h with
  | seq name others =>
    cases name with
    | rule meant =>
      obtain ⟨first, isName, rfl, rfl⟩ := meant
      obtain ⟨rest, all, rfl, rfl⟩ := yields_furtherNames others
      refine ⟨first, rest, List.forall_mem_cons.mpr ⟨isName, all⟩, ?_⟩
      rw [pathMatch, toList_pathText]
      rfl

/-- Every rule means what its body has the form of. -/
theorem means_of_yields {rule : ExpressionRule} (h : Yields Means (body rule) ms cs) :
    Means ⟨rule, cs, ms⟩ := by
  cases rule with
  | level n =>
    cases n with
    | zero => exact yields_signed h
    | succ => exact yields_level h
  | operator => exact yields_operator h
  | unaryOperator => exact yields_unaryOperator h
  | number => exact yields_number h
  | path => exact yields_path h
  | name => exact yields_name h

/-- What is matched as a whole has blanks on both sides and nothing else. -/
theorem yields_whole {rest : List Char} (h : Matches body (whole a) cs (some (ms, rest))) :
    rest = [] ∧ ∃ blank text blank', (∀ c ∈ blank, Token.isBlank c = true) ∧
      Yields Means a ms text ∧ (∀ c ∈ blank', Token.isBlank c = true) ∧
      cs = blank ++ (text ++ blank') := by
  -- The end of the text is only found where nothing is left.
  have ended : rest = [] := by
    cases h with
    | seq _ inner =>
      cases inner with
      | seq _ last =>
        cases last with
        | seq _ last =>
          cases last with
          | not body =>
            cases body with
            | charFails refused =>
              cases rest with
              | nil => rfl
              | cons c rest => cases refused c rfl
  subst ended
  obtain ⟨text, rfl, yields⟩ := h.yields means_of_yields
  refine ⟨rfl, ?_⟩
  cases yields with
  | seq spaces inner =>
    obtain ⟨rfl, blank⟩ := spaces.star_char
    obtain ⟨_, _, _, _, _, inside, blank', last, rfl, rfl⟩ := yields_followed inner
    cases last
    exact ⟨_, _, _, blank, by simpa using inside, blank', by simp⟩

/-- A text that is matched as a whole is a way to write the tree. -/
theorem written_of_whole {rest : List Char}
    (h : Matches body (whole (.rule (.level loosest))) cs (some (ms, rest))) :
    rest = [] ∧ ∃ m e ts, ms = [m] ∧ Denotes m e ∧ Renders loosest e ts ∧ Written ts cs := by
  obtain ⟨rfl, _, _, _, blank, inside, blank', rfl⟩ := yields_whole h
  cases inside with
  | rule meant =>
    obtain ⟨e, ts, denotes, renders, written⟩ := meant
    have behind : Written (ts ++ []) _ := written.append (.nil blank')
    rw [List.append_nil] at behind
    exact ⟨rfl, _, e, ts, rfl, denotes, renders, behind.blanks blank⟩

end Expression

end BinaryTemplate
