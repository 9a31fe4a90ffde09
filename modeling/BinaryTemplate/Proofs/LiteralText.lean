import BinaryTemplate.Proofs.Evaluation

/-!
# Integers as whole texts and as numbers of the grammar

An integer is read in two ways: as the whole text of an attribute or an expression, with one minus
sign and blanks around it allowed, and as a number of the expression grammar, where the minus sign
is an operator. Both give a text the same value, up to three differences: the whole text may have a
plus sign between base mark and digits, it may have any Unicode blanks around it, and it may be the
least integer, whose magnitude is no integer by itself.
-/

namespace BinaryTemplate

open Text (trim trimRight)
open Text.Numeral (digitOf? continue?)

/-! ## Numerals -/

theorem digits_of_continue? {base acc n : Nat} {text : List Char}
    (h : continue? base acc text = some n) : ∀ c ∈ text, (digitOf? base c).isSome = true := by
  induction text generalizing acc with
  | nil => exact nofun
  | cons c text inductionHypothesis =>
    rw [continue?, Option.bind_eq_some_iff] at h
    obtain ⟨value, digit, rest⟩ := h
    exact List.forall_mem_cons.mpr ⟨Option.isSome_of_eq_some digit, inductionHypothesis rest⟩

/-- A text of digits is read as the number that it denotes, and nothing else is read. -/
theorem parse?_eq_some_iff_digitsOf {base n : Nat} {text : List Char} :
    Text.Numeral.parse? base text = some n ↔ DigitsOf base text n := by
  refine ⟨fun h => ?_, DigitsOf.parse?⟩
  have read := h
  rw [Text.Numeral.parse?] at h
  by_cases empty : text.isEmpty = true
  · rw [if_pos empty] at h
    cases h
  · rw [if_neg empty] at h
    obtain ⟨m, denotes⟩ := digitsOf_of_all base (by simpa using empty) (digits_of_continue? h)
    obtain rfl : m = n := Option.some.inj (denotes.parse?.symm.trans read)
    exact denotes

/-- A number with a plus sign between its base mark and its digits. -/
inductive PlusNumeral : List Char → Nat → Prop
  | hexadecimal {mark : Char} {digits : List Char} {n : Nat} (marks : mark = 'x' ∨ mark = 'X')
      (denotes : DigitsOf 16 digits n) : PlusNumeral ('0' :: mark :: '+' :: digits) n
  | binary {mark : Char} {digits : List Char} {n : Nat} (marks : mark = 'b' ∨ mark = 'B')
      (denotes : DigitsOf 2 digits n) : PlusNumeral ('0' :: mark :: '+' :: digits) n

/-- A number that may have one minus sign in front, and the integer that it is then. -/
inductive Signed (Number : List Char → Nat → Prop) : List Char → Int → Prop
  | plain {text : List Char} {n : Nat} (number : Number text n) : Signed Number text n
  | negative {text : List Char} {n : Nat} (number : Number text n) :
      Signed Number ('-' :: text) (-n)

theorem PlusNumeral.magnitude? {text : List Char} {n : Nat} (h : PlusNumeral text n) :
    Literal.magnitude? text = some n := by
  cases h with
  | hexadecimal marks denotes => rcases marks with rfl | rfl <;> exact denotes.parse?
  | binary marks denotes => rcases marks with rfl | rfl <;> exact denotes.parse?

namespace Literal

theorem afterMark?_eq_some_iff {base n : Nat} {text : List Char} :
    afterMark? base text = some n ↔
      DigitsOf base text n ∨ ∃ digits, text = '+' :: digits ∧ DigitsOf base digits n := by
  unfold afterMark?
  split
  · next digits =>
    rw [parse?_eq_some_iff_digitsOf]
    constructor
    · exact fun denotes => .inr ⟨digits, rfl, denotes⟩
    · rintro (denotes | ⟨_, ⟨⟩, denotes⟩)
      · cases denotes.digit _ List.mem_cons_self
      · exact denotes
  · next unsigned =>
    rw [parse?_eq_some_iff_digitsOf]
    constructor
    · exact .inl
    · rintro (denotes | ⟨digits, rfl, -⟩)
      · exact denotes
      · exact absurd rfl (unsigned digits)

theorem magnitude?_eq_some_iff {text : List Char} {n : Nat} :
    magnitude? text = some n ↔ Numeral text n ∨ PlusNumeral text n := by
  constructor
  · intro h
    unfold magnitude? at h
    split at h
    case h_5 => exact .inl (.decimal (parse?_eq_some_iff_digitsOf.mp h))
    all_goals rcases afterMark?_eq_some_iff.mp h with denotes | ⟨digits, rfl, denotes⟩
    · exact .inl (.hexadecimal (.inl rfl) denotes)
    · exact .inr (.hexadecimal (.inl rfl) denotes)
    · exact .inl (.hexadecimal (.inr rfl) denotes)
    · exact .inr (.hexadecimal (.inr rfl) denotes)
    · exact .inl (.binary (.inl rfl) denotes)
    · exact .inr (.binary (.inl rfl) denotes)
    · exact .inl (.binary (.inr rfl) denotes)
    · exact .inr (.binary (.inr rfl) denotes)
  · exact fun h => h.elim Numeral.magnitude? PlusNumeral.magnitude?

/-- A whole text is read as an integer exactly if it is a number, with at most one minus sign in
front, or one with a plus sign behind its base mark. -/
theorem parse?_eq_some_iff {text : List Char} {value : Int64} :
    parse? text = some value ↔
      Signed Numeral text value.toInt ∨ Signed PlusNumeral text value.toInt := by
  constructor
  · intro h
    unfold parse? at h
    split at h
    all_goals
      obtain ⟨n, read, fits⟩ := Option.bind_eq_some_iff.mp h
      rw [← Integer.narrow?_eq_some_iff.mp fits]
    · exact (magnitude?_eq_some_iff.mp read).imp .negative .negative
    · exact (magnitude?_eq_some_iff.mp read).imp .plain .plain
  · intro h
    have signed : Signed (fun text n => magnitude? text = some n) text value.toInt := by
      rcases h with h | h
      all_goals
        generalize value.toInt = n at h
        cases h with
        | plain number => exact .plain (magnitude?_eq_some_iff.mpr (by simp [number]))
        | negative number => exact .negative (magnitude?_eq_some_iff.mpr (by simp [number]))
    generalize same : value.toInt = n at signed
    cases signed with
    | @negative rest m read =>
      rw [parse?, read, Option.bind_some, Integer.narrow?_eq_some_iff, same]
    | @plain _ m read =>
      unfold parse?
      split
      · -- The sign itself starts no magnitude.
        cases read
      · rw [read, Option.bind_some, Integer.narrow?_eq_some_iff, same]

end Literal

/-! ## Blanks -/

/-- All blanks of a text are blanks of the grammar, which knows only four of them. -/
def PlainBlanks (cs : List Char) : Prop :=
  ∀ c ∈ cs, Text.isBlank c = true → Token.isBlank c = true

/-- A text is its trimmed text with blanks at both ends. -/
theorem Text.trim_split (cs : List Char) : ∃ front back, cs = front ++ (trim cs ++ back) ∧
    (∀ c ∈ front, Text.isBlank c = true) ∧ ∀ c ∈ back, Text.isBlank c = true := by
  refine ⟨cs.takeWhile Text.isBlank, ((cs.dropWhile Text.isBlank).reverse.takeWhile
    Text.isBlank).reverse, ?_, fun c => List.mem_takeWhile_imp, fun c member =>
    List.mem_takeWhile_imp (List.mem_reverse.mp member)⟩
  rw [trim, trimRight, ← List.reverse_append, List.takeWhile_append_dropWhile,
    List.reverse_reverse, List.takeWhile_append_dropWhile]

theorem Text.isBlank_of_isNameRest {c : Char} (named : Token.isNameRest c = true) :
    Text.isBlank c = false := by
  have ascii : c.toNat = 95 ∨ (65 ≤ c.toNat ∧ c.toNat ≤ 90 ∨ 97 ≤ c.toNat ∧ c.toNat ≤ 122) ∨
      (48 ≤ c.toNat ∧ c.toNat ≤ 57) := by
    simp only [Token.isNameRest, Char.isAlphanum, Bool.or_eq_true, Token.isAlpha_iff,
      Token.isDigit_iff, beq_iff_eq] at named
    rcases named with named | rfl
    · exact .inr named
    · exact .inl rfl
  rw [Bool.eq_false_iff]
  intro blank
  simp only [Text.isBlank, Bool.or_eq_true, Bool.and_eq_true, decide_eq_true_eq, beq_iff_eq]
    at blank
  omega

theorem DigitsOf.unblank {base n : Nat} {text : List Char} (h : DigitsOf base text n) :
    ∀ c ∈ text, Text.isBlank c = false :=
  fun c member => Text.isBlank_of_isNameRest (Token.isNameRest_of_digit (h.digit c member))

theorem Numeral.unblank {text : List Char} {n : Nat} (h : Numeral text n) :
    ∀ c ∈ text, Text.isBlank c = false := by
  cases h with
  | decimal denotes => exact denotes.unblank
  | hexadecimal marks denotes | binary marks denotes =>
    rcases marks with rfl | rfl
    all_goals exact List.forall_mem_cons.mpr ⟨by decide, List.forall_mem_cons.mpr
      ⟨by decide, denotes.unblank⟩⟩

theorem IsName.unblank {name : String} (h : IsName name) :
    ∀ c ∈ name.toList, Text.isBlank c = false := by
  obtain ⟨c, cs, spelled, starts, rest⟩ := h
  rw [spelled]
  exact List.forall_mem_cons.mpr
    ⟨Text.isBlank_of_isNameRest (Token.isNameRest_of_isNameStart starts),
      fun d member => Text.isBlank_of_isNameRest (rest d member)⟩

theorem Token.Spells.unblank {t : Token} {spelling : List Char} (h : t.Spells spelling) :
    ∀ c ∈ spelling, Text.isBlank c = false := by
  cases h with
  | number numeral => exact numeral.unblank
  | @path first rest names =>
    rw [toList_pathText]
    intro c member
    rcases List.mem_append.mp member with member | member
    · exact (names first List.mem_cons_self).unblank c member
    · obtain ⟨name, among, member⟩ := List.mem_flatMap.mp member
      rcases List.mem_cons.mp member with rfl | member
      · decide
      · exact (names name (List.mem_cons_of_mem _ among)).unblank c member
  | @operator op => cases op <;> simp [BinaryOp.symbol, Text.isBlank]
  | not | complement | openParen | closeParen => simp [Text.isBlank]

/-- Between its tokens a text has the blanks of the grammar, and within them none at all. -/
theorem Written.plainBlanks {ts : List Token} {cs : List Char} (h : Written ts cs) :
    PlainBlanks cs := by
  induction h with
  | nil blank => exact fun c member _ => blank c member
  | cons blank spells _ inductionHypothesis =>
    intro c member isBlank
    rcases List.mem_append.mp member with member | member
    · rcases List.mem_append.mp member with member | member
      · exact blank c member
      · cases (spells.unblank c member).symm.trans isBlank
    · exact inductionHypothesis c member isBlank

/-- Blanks of the grammar may be added at both ends. -/
theorem Written.surrounded {ts : List Token} {cs front back : List Char} (h : Written ts cs)
    (before : ∀ c ∈ front, Token.isBlank c = true) (behind : ∀ c ∈ back, Token.isBlank c = true) :
    Written ts (front ++ (cs ++ back)) := by
  induction h generalizing front with
  | nil blank =>
    refine .nil fun c member => ?_
    simp only [List.mem_append] at member
    rcases member with member | member | member
    · exact before c member
    · exact blank c member
    · exact behind c member
  | @cons t ts blanks spelling rest blank spells _ inductionHypothesis =>
    have blanks' : ∀ c ∈ front ++ blanks, Token.isBlank c = true :=
      List.forall_mem_append.mpr ⟨before, blank⟩
    have following : Written ts ([] ++ (_ ++ back)) := inductionHypothesis nofun
    have further := Written.cons blanks' spells following
    rwa [List.nil_append, List.append_assoc, List.append_assoc, ← List.append_assoc spelling,
      ← List.append_assoc blanks, ← List.append_assoc blanks] at further

theorem Written.lone {t : Token} {cs : List Char} (spells : t.Spells cs) : Written [t] cs :=
  List.append_nil cs ▸ Written.unspaced spells (.nil nofun)

/-! ## The grammar -/

open Expression (Renders Fits)

/-- A minus sign in front of a magnitude gives every integer but the least, since the magnitude of
that is no integer. -/
theorem evaluate_negated {digits : List Char} {m : Nat} {value : Int64}
    (read : Literal.parse? digits = Integer.narrow? m) (same : value.toInt = -m)
    (path : String → List String → Except ExpressionError Int64) :
    (Expression.unary .neg (.number digits)).evaluate path =
      if value = Int64.minValue then .error (.overflow (String.ofList digits)) else .ok value := by
  have leastValue : Int64.minValue.toInt = -2 ^ 63 := by decide
  -- The magnitude of the least integer is one more than the greatest; all others are in range.
  by_cases least : value = Int64.minValue
  · have beyond : Integer.narrow? m = none := by
      subst least
      simp only [Integer.narrow?, Integer.least, Integer.greatest, ite_eq_right_iff]
      omega
    rw [Expression.evaluate, Expression.evaluate, read, beyond, if_pos least]
    rfl
  · have lower := Int64.le_toInt value
    have notLeast : value.toInt ≠ -2 ^ 63 := fun h =>
      least (Int64.toInt_inj.mp (h.trans leastValue.symm))
    obtain ⟨a, fits⟩ : ∃ a, Integer.narrow? m = some a := by
      refine ⟨Int64.ofInt m, if_pos ?_⟩
      simp only [Integer.least, Integer.greatest]
      omega
    have negated : -a.toInt = value.toInt := by rw [Integer.toInt_narrow? fits, same]
    rw [Expression.evaluate, Expression.evaluate, read, fits, if_neg least]
    change UnaryOp.neg.apply a = _
    rw [UnaryOp.apply, negated, Integer.narrow?_toInt]

/-- A number with or without a minus sign in front is a tree of the grammar. It has the value of
the number, unless that is the least integer: then its magnitude is too great. -/
theorem Signed.rendered {cs : List Char} {value : Int64} (h : Signed Numeral cs value.toInt) :
    ∃ e ts, Renders BinaryOp.loosest e ts ∧ Written ts cs ∧ ∀ path, e.evaluate path =
      if value = Int64.minValue then .error (.overflow (String.ofList cs.tail)) else .ok value := by
  generalize same : value.toInt = n at h
  cases h with
  | @plain _ m numeral =>
    -- Without a sign the integer is not negative, so it is not the least one.
    have notLeast : value ≠ Int64.minValue := by
      rintro rfl
      have least : Int64.minValue.toInt = -2 ^ 63 := by decide
      omega
    refine ⟨.number cs, _, .lift (Nat.zero_le _) .number, .lone (.number numeral), fun path => ?_⟩
    rw [Expression.evaluate, numeral.literal?, ← same, Integer.narrow?_toInt, if_neg notLeast]
  | @negative digits m numeral =>
    refine ⟨.unary .neg (.number digits), _, .lift (Nat.zero_le _) (.unary .number),
      .unspaced .operator (.lone (.number numeral)), fun path => ?_⟩
    exact evaluate_negated numeral.literal? same path

/-- With a plus sign behind the base mark a number falls apart: the mark is a name behind a zero. -/
theorem tokens?_of_plus {mark : Char} (marks : mark ∈ ['x', 'X', 'b', 'B']) (rest : List Char) :
    tokens? ('0' :: mark :: '+' :: rest) = (tokens? ('+' :: rest)).map
      fun ts => .number ['0'] :: .path (String.ofList [mark]) [] :: ts := by
  have number : Token.from? '0' (mark :: '+' :: rest) =
      some (.number ['0'], mark :: '+' :: rest) := by
    simp only [List.mem_cons, List.not_mem_nil, or_false] at marks
    rcases marks with rfl | rfl | rfl | rfl <;> rfl
  have name : Token.isBlank mark = false ∧ Token.from? mark ('+' :: rest) =
      some (.path (String.ofList [mark]) [], '+' :: rest) := by
    simp only [List.mem_cons, List.not_mem_nil, or_false] at marks
    have ends : Token.furtherNames ('+' :: rest) = ([], '+' :: rest) := by
      unfold Token.furtherNames
      rfl
    rcases marks with rfl | rfl | rfl | rfl <;>
      exact ⟨rfl, congrArg (fun found : List String × List Char =>
        some (Token.path (String.ofList [_]) found.1, found.2)) ends⟩
  rw [tokens?_of_from? rfl number, tokens?_of_from? name.1 name.2, Option.map_map]
  rfl

theorem PlusNumeral.unread {cs back : List Char} {n : Nat} (h : PlusNumeral cs n) {ts : List Token}
    (read : tokens? (cs ++ back) = some ts) : ¬ ts.IsChain Token.Precedes := by
  obtain ⟨mark, digits, marks, rfl⟩ : ∃ mark digits, mark ∈ ['x', 'X', 'b', 'B'] ∧
      cs = '0' :: mark :: '+' :: digits := by
    cases h with
    | hexadecimal marks | binary marks => rcases marks with rfl | rfl <;> exact ⟨_, _, by simp, rfl⟩
  rw [List.cons_append, List.cons_append, List.cons_append, tokens?_of_plus marks] at read
  obtain ⟨others, -, rfl⟩ := Option.map_eq_some_iff.mp read
  intro chain
  -- No name may stand behind a number.
  have precedes : (Token.number ['0']).Precedes (.path (String.ofList [mark]) []) :=
    (List.isChain_cons.mp chain).1 _ rfl
  rcases precedes with ⟨-, closes | ⟨op, operates⟩⟩ | ⟨calls, -⟩
  · cases closes
  · cases operates
  · exact calls trivial

theorem Signed.unread {cs back : List Char} {n : Int} (h : Signed PlusNumeral cs n)
    {ts : List Token} (read : tokens? (cs ++ back) = some ts) : ¬ ts.IsChain Token.Precedes := by
  cases h with
  | plain number => exact number.unread read
  | negative number =>
    rw [List.cons_append, tokens?_of_from? rfl (Token.from?_of_symbolFrom? rfl)] at read
    obtain ⟨others, behind, rfl⟩ := Option.map_eq_some_iff.mp read
    exact fun chain => number.unread behind (List.isChain_cons.mp chain).2

namespace Evaluator

/-- What the expression grammar alone makes of a text. -/
def evaluateTree (c : Context) (text : String) : Except ExpressionError Int64 :=
  match Expression.parse? text with
  | some e => e.evaluate c.integer
  | none => .error (.parse text)

variable {c : Context} {text : String}

theorem evaluateTree_of_rendering {e : Expression} (rendering : e.Rendering text) :
    evaluateTree c text = e.evaluate c.integer := by
  rw [evaluateTree, Expression.parse?_eq_some_iff.mpr rendering]

theorem evaluateTree_of_unread (none : ∀ ts, Written ts text.toList → ¬ ts.IsChain Token.Precedes) :
    evaluateTree c text = .error (.parse text) := by
  rw [evaluateTree]
  cases parsed : Expression.parse? text with
  | none => rfl
  | some e =>
    obtain ⟨ts, renders, written⟩ := Expression.parse?_eq_some_iff.mp parsed
    exact absurd renders.fits.chain (none ts written)

/-- A text that is a number once it is trimmed is a tree of the grammar, unless the grammar does not
know the blanks around it. -/
theorem evaluateTree_of_numeral {n : Int64} (number : Signed Numeral (trim text.toList) n.toInt)
    (blanks : PlainBlanks text.toList) :
    evaluateTree c text = if n = Int64.minValue then
      .error (.overflow (String.ofList (trim text.toList).tail)) else .ok n := by
  obtain ⟨e, ts, renders, written, value⟩ := number.rendered
  obtain ⟨front, back, split, before, behind⟩ := Text.trim_split text.toList
  rw [← value c.integer]
  refine evaluateTree_of_rendering ⟨ts, renders, ?_⟩
  rw [split] at blanks ⊢
  refine written.surrounded (fun d member => ?_) fun d member => ?_
  · exact blanks d (by simp [member]) (before d member)
  · exact blanks d (by simp [member]) (behind d member)

theorem evaluateTree_of_plus {n : Int} (number : Signed PlusNumeral (trim text.toList) n) :
    evaluateTree c text = .error (.parse text) := by
  refine evaluateTree_of_unread fun ts written chain => ?_
  obtain ⟨front, back, split, before, -⟩ := Text.trim_split text.toList
  -- A rendering would have the number behind the grammar's own blanks, where no tokens are read.
  have blanks := written.plainBlanks
  have read := tokens?_of_written written chain
  rw [split] at blanks read
  have plain : ∀ d ∈ front, Token.isBlank d = true := fun d member =>
    blanks d (by simp [member]) (before d member)
  rw [tokens?_blanks plain] at read
  exact number.unread read chain

theorem evaluateTree_of_foreign_blank (foreign : ¬ PlainBlanks text.toList) :
    evaluateTree c text = .error (.parse text) :=
  evaluateTree_of_unread fun _ written => absurd written.plainBlanks foreign

theorem parse_eq_literal_iff {n : Int64} :
    Reference.parse text = some (.literal n) ↔ Literal.parse? (trim text.toList) = some n := by
  unfold Reference.parse
  split
  · next blank =>
    -- A blank text is no literal either.
    rw [blank]
    exact ⟨nofun, nofun⟩
  · cases Literal.parse? (trim text.toList) <;> simp

/-- Which texts are integers, and what the grammar makes of them. A trimmed text is read as an
integer exactly if it is a number with at most one minus sign in front, or such a number with a plus
sign behind its base mark; references and the evaluator go by that. The grammar gives the text the
same value, except that it overflows at the least integer, and that it refuses the plus sign and all
blanks but its own. -/
theorem literal_text_meaning (text : String) (n : Int64) :
    (Literal.parse? (trim text.toList) = some n ↔
      Signed Numeral (trim text.toList) n.toInt ∨ Signed PlusNumeral (trim text.toList) n.toInt) ∧
    (Reference.parse text = some (.literal n) ↔ Literal.parse? (trim text.toList) = some n) ∧
    (Literal.parse? (trim text.toList) = some n → ∀ c,
      evaluateStandard c text = .ok (.integer n) ∧
      (Signed Numeral (trim text.toList) n.toInt → PlainBlanks text.toList →
        evaluateTree c text = if n = Int64.minValue then
          .error (.overflow (String.ofList (trim text.toList).tail)) else .ok n) ∧
      (¬ (Signed Numeral (trim text.toList) n.toInt ∧ PlainBlanks text.toList) →
        evaluateTree c text = .error (.parse text))) := by
  refine ⟨Literal.parse?_eq_some_iff, parse_eq_literal_iff, fun whole c =>
    ⟨evaluateStandard_literal whole, evaluateTree_of_numeral, fun different => ?_⟩⟩
  by_cases blanks : PlainBlanks text.toList
  · rcases Literal.parse?_eq_some_iff.mp whole with number | number
    · exact absurd ⟨number, blanks⟩ different
    · exact evaluateTree_of_plus number
  · exact evaluateTree_of_foreign_blank blanks

theorem literal_text_meaning_negative :
    (Signed Numeral (trim " -5".toList) (-5 : Int64).toInt ∧ PlainBlanks " -5".toList) ∧
      ∀ c, evaluateStandard c " -5" = .ok (.integer (-5)) ∧ evaluateTree c " -5" = .ok (-5) := by
  obtain ⟨reads, -, means⟩ := literal_text_meaning " -5" (-5)
  have five : DigitsOf 10 ['5'] 5 := ⟨[5], by simp, .cons (by decide) .nil, by simp⟩
  have signed : Signed Numeral ['-', '5'] (-(5 : Nat)) := .negative (.decimal five)
  have number : Signed Numeral (trim " -5".toList) (-5 : Int64).toInt := signed
  have blanks : PlainBlanks " -5".toList := by simp [PlainBlanks, Text.isBlank, Token.isBlank]
  refine ⟨⟨number, blanks⟩, fun c => ?_⟩
  obtain ⟨value, tree, -⟩ := means (reads.mpr (.inl number)) c
  exact ⟨value, (tree number blanks).trans (if_neg (by decide))⟩

/-- With a plus sign behind the base mark a text is no number of the grammar, and no way to write a
tree, and is read as an integer all the same. -/
theorem plus_behind_mark_is_read :
    Literal.parse? (trim "0x+5".toList) = some 5 ∧
      (∀ n, ¬ Signed Numeral (trim "0x+5".toList) n) ∧
      ∀ c, evaluateStandard c "0x+5" = .ok (.integer 5) ∧
        evaluateTree c "0x+5" = .error (.parse "0x+5") := by
  have read : Literal.parse? (trim "0x+5".toList) = some 5 := by decide
  have five : DigitsOf 16 ['5'] 5 := ⟨[5], by simp, .cons (by decide) .nil, by simp⟩
  have plus : Signed PlusNumeral (trim "0x+5".toList) 5 := .plain (.hexadecimal (.inl rfl) five)
  have unsigned (n : Int) : ¬ Signed Numeral ['0', 'x', '+', '5'] n := by
    rintro (number | _)
    cases number with
    | decimal denotes => cases denotes.digit 'x' (by simp)
    | hexadecimal _ denotes | binary _ denotes => cases denotes.digit '+' (by simp)
  exact ⟨read, unsigned, fun c => ⟨evaluateStandard_literal read, evaluateTree_of_plus plus⟩⟩

end Evaluator

end BinaryTemplate
