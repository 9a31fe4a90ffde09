import Mathlib
import BinaryTemplate.Expression.Token

/-!
# The grammar of expressions

How expressions are written, apart from how they are read: how each token is spelled, where blanks
may stand, and which tokens render which tree. An operator of some level has operands of tighter
levels, or an operand of its own level on its left; a comparison has none of its own level on either
side. Whatever has looser operators stands in parentheses, and anything may.
-/

namespace BinaryTemplate

/-! ## Spellings -/

/-- The text consists of one or more digits of a base and denotes the number `n`. -/
def DigitsOf (base : Nat) (text : List Char) (n : Nat) : Prop :=
  ∃ values : List Nat, values ≠ [] ∧
    List.Forall₂ (fun c value => Text.Numeral.digitOf? base c = some value) text values ∧
    n = Nat.ofDigits base values.reverse

/-- The text of a number, with its value. -/
inductive Numeral : List Char → Nat → Prop
  | decimal {digits : List Char} {n : Nat} (denotes : DigitsOf 10 digits n) : Numeral digits n
  | hexadecimal {mark : Char} {digits : List Char} {n : Nat} (marks : mark = 'x' ∨ mark = 'X')
      (denotes : DigitsOf 16 digits n) : Numeral ('0' :: mark :: digits) n
  | binary {mark : Char} {digits : List Char} {n : Nat} (marks : mark = 'b' ∨ mark = 'B')
      (denotes : DigitsOf 2 digits n) : Numeral ('0' :: mark :: digits) n

/-- A name of a path: letters, digits and underscores, the first one no digit. -/
def IsName (name : String) : Prop :=
  ∃ c cs, name.toList = c :: cs ∧ Token.isNameStart c = true ∧
    ∀ other ∈ cs, Token.isNameRest other = true

namespace UnaryOp

/-- The token of an operator in front of its operand. -/
def token : UnaryOp → Token
  | .neg => .operator .sub
  | .not => .unary .not
  | .complement => .unary .complement

end UnaryOp

namespace Token

/-- The characters of a token. -/
inductive Spells : Token → List Char → Prop
  | number {text : List Char} {n : Nat} (numeral : Numeral text n) : Spells (.number text) text
  | path {first : String} {rest : List String} (names : ∀ name ∈ first :: rest, IsName name) :
      Spells (.path first rest) (pathText first rest).toList
  | operator {op : BinaryOp} : Spells (.operator op) op.symbol.toList
  | not : Spells (.unary .not) ['!']
  | complement : Spells (.unary .complement) ['~']
  | openParen : Spells .openParen ['(']
  | closeParen : Spells .closeParen [')']

end Token

/-- Tokens with any blanks before, between and behind them. -/
inductive Written : List Token → List Char → Prop
  | nil {blanks : List Char} (blank : ∀ c ∈ blanks, Token.isBlank c = true) : Written [] blanks
  | cons {t : Token} {ts : List Token} {blanks spelling rest : List Char}
      (blank : ∀ c ∈ blanks, Token.isBlank c = true) (spells : t.Spells spelling)
      (others : Written ts rest) : Written (t :: ts) (blanks ++ spelling ++ rest)

/-! ## Renderings -/

namespace Expression

/-- The tokens render the expression with operators of at most this level outside parentheses. -/
inductive Renders : Nat → Expression → List Token → Prop
  | number {text : List Char} : Renders 0 (.number text) [.number text]
  | path {first : String} {rest : List String} : Renders 0 (.path first rest) [.path first rest]
  | parens {e : Expression} {ts : List Token} (inside : Renders BinaryOp.loosest e ts) :
      Renders 0 e (.openParen :: (ts ++ [.closeParen]))
  | unary {op : UnaryOp} {e : Expression} {ts : List Token} (operand : Renders 0 e ts) :
      Renders 0 (.unary op e) (op.token :: ts)
  | looser {n : Nat} {e : Expression} {ts : List Token} (tighter : Renders n e ts) :
      Renders (n + 1) e ts
  | chained {n : Nat} {op : BinaryOp} {left right : Expression} {ls rs : List Token}
      (level : op.level = n + 1) (chains : n + 1 ≠ BinaryOp.comparisonLevel)
      (before : Renders (n + 1) left ls) (behind : Renders n right rs) :
      Renders (n + 1) (.binary op left right) (ls ++ .operator op :: rs)
  | compared {n : Nat} {op : BinaryOp} {left right : Expression} {ls rs : List Token}
      (level : op.level = n + 1) (compares : n + 1 = BinaryOp.comparisonLevel)
      (before : Renders n left ls) (behind : Renders n right rs) :
      Renders (n + 1) (.binary op left right) (ls ++ .operator op :: rs)

/-- The text is a way to write the expression. -/
def Rendering (e : Expression) (text : String) : Prop :=
  ∃ ts, Renders BinaryOp.loosest e ts ∧ Written ts text.toList

end Expression

/-! ## Neighbours in a rendering -/

namespace Token

/-- A token with which an operand starts. -/
def StartsOperand : Token → Prop
  | .number _ | .path _ _ | .unary _ | .openParen => True
  | .operator op => op = .sub
  | .closeParen => False

/-- A token with which an operand ends. -/
def EndsOperand : Token → Prop
  | .number _ | .path _ _ | .closeParen => True
  | _ => False

/-- One token may stand behind another one: an operator or a closing parenthesis behind an operand,
an operand behind everything else. -/
def Precedes (t next : Token) : Prop :=
  (t.EndsOperand ∧ (next = .closeParen ∨ ∃ op, next = .operator op)) ∨
    (¬ t.EndsOperand ∧ next.StartsOperand)

end Token

namespace Expression

/-- Tokens that can stand next to each other as an operand does. -/
structure Fits (ts : List Token) : Prop where
  nonempty : ts ≠ []
  starts : ∀ t ∈ ts.head?, t.StartsOperand
  ends : ∀ t ∈ ts.getLast?, t.EndsOperand
  chain : ts.IsChain Token.Precedes

namespace Fits

theorem single {t : Token} (starts : t.StartsOperand) (ends : t.EndsOperand) : Fits [t] where
  nonempty := nofun
  starts := by simpa using starts
  ends := by simpa using ends
  chain := .singleton t

variable {ts ls rs : List Token}

/-- Behind a token that calls for an operand. -/
theorem behind {t : Token} (starts : t.StartsOperand) (calls : ¬ t.EndsOperand) (fits : Fits ts) :
    Fits (t :: ts) where
  nonempty := nofun
  starts := by simpa using starts
  ends := by
    rw [List.getLast?_cons_of_ne_nil fits.nonempty]
    exact fits.ends
  chain := List.isChain_cons.mpr
    ⟨fun next first => .inr ⟨calls, fits.starts next first⟩, fits.chain⟩

/-- On both sides of an operator. -/
theorem between {op : BinaryOp} (before : Fits ls) (after : Fits rs) :
    Fits (ls ++ .operator op :: rs) where
  nonempty := by simp
  starts := by
    rw [List.head?_append_of_ne_nil _ before.nonempty]
    exact before.starts
  ends := by
    rw [List.getLast?_append_of_ne_nil _ (List.cons_ne_nil _ _),
      List.getLast?_cons_of_ne_nil after.nonempty]
    exact after.ends
  chain := by
    refine List.isChain_append.mpr ⟨before.chain, List.isChain_cons.mpr ⟨?_, after.chain⟩, ?_⟩
    · exact fun next first => .inr ⟨id, after.starts next first⟩
    · rintro last isLast _ ⟨⟩
      exact .inl ⟨before.ends last isLast, .inr ⟨op, rfl⟩⟩

/-- In parentheses. -/
theorem enclosed (fits : Fits ts) : Fits (.openParen :: (ts ++ [.closeParen])) where
  nonempty := nofun
  starts := by simp [Token.StartsOperand]
  ends := by
    rw [← List.cons_append, List.getLast?_concat]
    rintro _ ⟨⟩
    exact trivial
  chain := by
    refine List.isChain_cons.mpr ⟨?_, List.isChain_append.mpr ⟨fits.chain, .singleton _, ?_⟩⟩
    · rw [List.head?_append_of_ne_nil _ fits.nonempty]
      exact fun next first => .inr ⟨id, fits.starts next first⟩
    · rintro last isLast _ ⟨⟩
      exact .inl ⟨fits.ends last isLast, .inl rfl⟩

end Fits

theorem Renders.fits {n : Nat} {e : Expression} {ts : List Token} (h : Renders n e ts) :
    Fits ts := by
  induction h with
  | number | path => exact .single trivial trivial
  | parens _ inside => exact inside.enclosed
  | @unary op _ _ _ operand => cases op <;> exact operand.behind (by trivial) id
  | looser _ tighter => exact tighter
  | chained _ _ _ _ before after => exact before.between after
  | compared _ _ _ _ before after => exact before.between after

/-! ## Which trees can be written -/

/-- Every number of the tree is a numeral and every name in it a name. -/
def Spelled : Expression → Prop
  | .number text => ∃ n, Numeral text n
  | .path first rest => ∀ name ∈ first :: rest, IsName name
  | .unary _ operand => operand.Spelled
  | .binary _ left right => left.Spelled ∧ right.Spelled

end Expression

/-- Every one of the tokens can be written. -/
def Spellable (ts : List Token) : Prop := ∀ t ∈ ts, ∃ spelling, t.Spells spelling

theorem spellable_iff {ts : List Token} : Spellable ts ↔ ∃ cs, Written ts cs := by
  constructor
  · intro spellable
    induction ts with
    | nil => exact ⟨[], .nil nofun⟩
    | cons t ts inductionHypothesis =>
      obtain ⟨⟨spelling, spells⟩, others⟩ := List.forall_mem_cons.mp spellable
      obtain ⟨cs, written⟩ := inductionHypothesis others
      exact ⟨[] ++ spelling ++ cs, .cons nofun spells written⟩
  · rintro ⟨cs, written⟩
    induction written with
    | nil => exact nofun
    | cons _ spells _ inductionHypothesis =>
      exact List.forall_mem_cons.mpr ⟨⟨_, spells⟩, inductionHypothesis⟩

theorem Spellable.append_iff {ls rs : List Token} :
    Spellable (ls ++ rs) ↔ Spellable ls ∧ Spellable rs :=
  List.forall_mem_append

theorem Spellable.cons_iff {t : Token} {ts : List Token} :
    Spellable (t :: ts) ↔ (∃ spelling, t.Spells spelling) ∧ Spellable ts :=
  List.forall_mem_cons

theorem UnaryOp.exists_spells_token (op : UnaryOp) : ∃ spelling, op.token.Spells spelling := by
  cases op
  · exact ⟨_, .operator⟩
  · exact ⟨_, .not⟩
  · exact ⟨_, .complement⟩

namespace Expression

theorem Renders.spelled {n : Nat} {e : Expression} {ts : List Token} (h : Renders n e ts)
    (spellable : Spellable ts) : e.Spelled := by
  induction h with
  | number =>
    obtain ⟨_, spells⟩ := spellable _ List.mem_cons_self
    cases spells with
    | number numeral => exact ⟨_, numeral⟩
  | path =>
    obtain ⟨_, spells⟩ := spellable _ List.mem_cons_self
    cases spells with
    | path names => exact names
  | parens _ inductionHypothesis =>
    exact inductionHypothesis (Spellable.append_iff.mp (Spellable.cons_iff.mp spellable).2).1
  | unary _ inductionHypothesis => exact inductionHypothesis (Spellable.cons_iff.mp spellable).2
  | looser _ inductionHypothesis => exact inductionHypothesis spellable
  | chained _ _ _ _ before behind | compared _ _ _ _ before behind =>
    obtain ⟨left, right⟩ := Spellable.append_iff.mp spellable
    exact ⟨before left, behind (Spellable.cons_iff.mp right).2⟩

theorem Renders.lift {m n : Nat} (tighter : m ≤ n) {e : Expression} {ts : List Token}
    (h : Renders m e ts) : Renders n e ts := by
  induction tighter with
  | refl => exact h
  | step _ inductionHypothesis => exact inductionHypothesis.looser

/-- With every operand in parentheses. -/
theorem Renders.binary {op : BinaryOp} {left right : Expression} {ls rs : List Token}
    (before : Renders 0 left ls) (behind : Renders 0 right rs) :
    Renders BinaryOp.loosest (.binary op left right) (ls ++ .operator op :: rs) := by
  obtain ⟨n, level, within⟩ : ∃ n, op.level = n + 1 ∧ n + 1 ≤ BinaryOp.loosest := by
    cases op <;> exact ⟨_, rfl, by decide⟩
  refine .lift within ?_
  by_cases compares : n + 1 = BinaryOp.comparisonLevel
  · exact .compared level compares (before.lift (Nat.zero_le n)) (behind.lift (Nat.zero_le n))
  · exact .chained level compares (before.lift (Nat.zero_le _)) (behind.lift (Nat.zero_le n))

theorem Spelled.exists_renders {e : Expression} (spelled : e.Spelled) :
    ∃ ts, Renders 0 e ts ∧ Spellable ts := by
  induction e with
  | number text =>
    obtain ⟨n, numeral⟩ := spelled
    exact ⟨_, .number, Spellable.cons_iff.mpr ⟨⟨_, .number numeral⟩, nofun⟩⟩
  | path first rest =>
    exact ⟨_, .path, Spellable.cons_iff.mpr ⟨⟨_, .path spelled⟩, nofun⟩⟩
  | unary op operand inductionHypothesis =>
    obtain ⟨ts, renders, spellable⟩ := inductionHypothesis spelled
    exact ⟨_, .unary renders, Spellable.cons_iff.mpr ⟨op.exists_spells_token, spellable⟩⟩
  | binary op left right ihLeft ihRight =>
    obtain ⟨ls, before, leftSpellable⟩ := ihLeft spelled.1
    obtain ⟨rs, behind, rightSpellable⟩ := ihRight spelled.2
    refine ⟨_, .parens (.binary before behind), ?_⟩
    simp only [Spellable.cons_iff, Spellable.append_iff]
    exact ⟨⟨_, .openParen⟩, ⟨leftSpellable, ⟨_, .operator⟩, rightSpellable⟩, ⟨_, .closeParen⟩,
      nofun⟩

/-- The trees that some text renders are those whose numbers and names can be written. -/
theorem spelled_iff {e : Expression} : e.Spelled ↔ ∃ text, e.Rendering text := by
  constructor
  · intro spelled
    obtain ⟨ts, renders, spellable⟩ := spelled.exists_renders
    obtain ⟨cs, written⟩ := spellable_iff.mp spellable
    exact ⟨String.ofList cs, ts, renders.lift (Nat.zero_le _), by rwa [String.toList_ofList]⟩
  · rintro ⟨text, ts, renders, written⟩
    exact renders.spelled (spellable_iff.mpr ⟨_, written⟩)

theorem rendering_of_lone {first : String} {rest : List String} {text : String}
    (lone : Written [.path first rest] text.toList) : (path first rest).Rendering text :=
  ⟨_, .lift (Nat.zero_le _) .path, lone⟩

end Expression

end BinaryTemplate
