import BinaryTemplate.Proofs.ExpressionPeg

/-!
# What renders a tree is matched as it

The grammar looks for one token at a time, and for an operator only where one of its level could
be. Wherever it looks, the texts of the tokens that may stand there differ soon enough: it finds the
one that is there and no other. So a text that renders a tree is matched as this tree.
-/

namespace BinaryTemplate.Expression

open BinaryOp (comparisonLevel loosest)
open ExpressionRule Peg

/-! ## Texts of tokens -/

/-- The text is a way to write the tokens, each of which may stand behind the one before it. -/
structure Writes (us : List Token) (cs : List Char) : Prop where
  written : Written us cs
  chain : us.IsChain Token.Precedes

/-- The text from its first character on that is not blank. -/
abbrev unspaced (cs : List Char) : List Char := cs.dropWhile Token.isBlank

variable {us : List Token} {t : Token} {cs mid rest : List Char}

theorem unspaced_spelling {blank spelling : List Char}
    (all : ∀ c ∈ blank, Token.isBlank c = true) (spells : t.Spells spelling)
    (stops : t.StopsAt rest) : unspaced (blank ++ spelling ++ rest) = spelling ++ rest := by
  obtain ⟨c, cs, rfl, isBlank, -⟩ := Token.from?_append spells stops
  rw [List.append_assoc, unspaced, List.dropWhile_append_of_pos all, List.cons_append,
    List.dropWhile_cons_of_neg (Bool.eq_false_iff.mp isBlank)]

theorem Writes.unspaced_nil (h : Writes [] cs) : unspaced cs = [] := by
  cases h.written with
  | nil blank => exact List.dropWhile_eq_nil_iff.mpr blank

/-- The first token is at the first character that is not blank. -/
theorem Writes.first (h : Writes (t :: us) cs) :
    ∃ spelling rest, unspaced cs = spelling ++ rest ∧ t.Spells spelling ∧ t.StopsAt rest ∧
      Writes us rest := by
  obtain ⟨precedes, chain⟩ := List.isChain_cons.mp h.chain
  cases h.written with
  | cons blank spells others =>
    have stops := others.stopsAt precedes
    exact ⟨_, _, unspaced_spelling blank spells stops, spells, stops, others, chain⟩

theorem Writes.skipBlanks (h : Writes us cs) : Writes us (unspaced cs) := by
  refine ⟨?_, h.chain⟩
  cases us with
  | nil =>
    rw [h.unspaced_nil]
    exact .nil (List.forall_mem_nil _)
  | cons t us =>
    obtain ⟨spelling, rest, split, spells, -, others⟩ := h.first
    rw [split]
    exact others.written.unspaced spells

theorem Writes.character {c : Char} (spelled : ∀ {cs}, t.Spells cs → cs = [c])
    (h : Writes (t :: us) cs) : ∃ rest, unspaced cs = c :: rest ∧ Writes us rest := by
  obtain ⟨_, rest, split, spells, -, others⟩ := h.first
  rw [spelled spells] at split
  exact ⟨rest, split, others⟩

/-! ## Blanks -/

variable {a b : Peg ExpressionRule} {ms ms' : List (Match ExpressionRule)}

theorem matches_blanks (cs : List Char) : Matches body blanks cs (some ([], unspaced cs)) :=
  matches_star_char _ cs

theorem matches_spaced (h : Matches body a (unspaced cs) (some (ms, rest))) :
    Matches body (.seq blanks a) cs (some (ms, rest)) :=
  .seq (matches_blanks cs) h

theorem matches_followed (first : Matches body a cs (some (ms, mid)))
    (second : Matches body b (unspaced mid) (some (ms', rest))) :
    Matches body (followed a b) cs (some (ms ++ ms', rest)) :=
  .seq first (matches_spaced second)

/-- Any number of them, each behind blanks, are any number of them with blanks between, once the
first blanks are passed. Behind none of them these blanks are passed all the same. -/
theorem matches_many (h : Matches body (.star (.seq blanks a)) cs (some (ms, rest))) :
    ∃ rest', Matches body (many a) (unspaced cs) (some (ms, rest')) ∧
      (rest' = rest ∨ rest' = unspaced rest) := by
  cases h with
  | star item again =>
    cases item with
    | seq spaces item =>
      cases spaces.unique (matches_blanks cs)
      exact ⟨_, .choice (.seq item again), .inl rfl⟩
  | starEnds item =>
    refine ⟨unspaced cs, .choiceElse (.seqFails ?_) (.literal rfl), .inr rfl⟩
    cases item with
    | seqFails spaces => cases spaces.unique (matches_blanks cs)
    | seqBreaks spaces item =>
      cases spaces.unique (matches_blanks cs)
      exact item

/-! ## Operators -/

section Symbols

/-- What is behind a character that is not doubled. -/
def behindSingle (c : Char) : List Char → Option (List Char)
  | d :: rest => if d = c ∧ rest.head? ≠ some c then some rest else none
  | [] => none

theorem matches_single (c : Char) (input : List Char) :
    Matches body (single c) input ((behindSingle c input).map ([], ·)) := by
  cases input with
  | nil => exact .seqFails (.literalFails (by simp))
  | cons d rest =>
    rw [behindSingle]
    by_cases same : d = c
    · subst same
      have first : Matches body (.literal [d]) (d :: rest) (some ([], rest)) := .literal rfl
      -- The character behind is looked at, and left where it is.
      by_cases doubled : rest.head? = some d
      · rw [if_neg fun alone => alone.2 doubled]
        obtain ⟨more, rfl⟩ := List.head?_eq_some_iff.mp doubled
        exact .seqBreaks first (.notFails (.literal rfl))
      · rw [if_pos ⟨rfl, doubled⟩]
        refine .seq first (.not (.literalFails ?_))
        rintro ⟨more, rfl⟩
        exact doubled rfl
    · rw [if_neg fun alone => same alone.1]
      refine .seqFails (.literalFails ?_)
      rintro ⟨more, split⟩
      cases split
      exact same rfl

variable (stops : ∀ c ∈ rest.head?, c ∉ Token.seconds)

include stops

/-- Behind a symbol of one character no operator of two goes on. -/
theorem isPrefixOf_second {a b c : Char} (second : b ∈ Token.seconds) :
    [a, b].isPrefixOf (c :: rest) = false := by
  cases rest with
  | nil => simp [List.isPrefixOf]
  | cons d rest =>
    have differs : b ≠ d := fun same => stops d rfl (same ▸ second)
    simp [List.isPrefixOf, differs]

theorem behindSingle_alone {c : Char} (second : c ∈ Token.seconds) :
    behindSingle c (c :: rest) = some rest :=
  if_pos ⟨rfl, fun doubled => stops c doubled second⟩

/-- At its own level an operator is found. Only those whose symbol is where another one begins
depend on what is behind them. -/
theorem operatorBody_finds (op : BinaryOp) :
    Matches body (operatorBody op.level) (op.symbol.toList ++ rest) (some ([], rest)) := by
  have compared (c : Char)
      (found : behindFirst ["==", "!=", "<=", ">=", "<", ">"] (c :: rest) = some rest) :
      Matches body (operatorBody comparisonLevel) (c :: rest) (some ([], rest)) := by
    have matched := matches_oneOf (g := body) ["==", "!=", "<=", ">=", "<", ">"] (c :: rest)
    rwa [found] at matched
  have undoubled (c : Char) := isPrefixOf_second stops (a := c) (b := '=') (c := c) (by decide)
  cases op with
  | lt => exact compared '<' (by simp [behindFirst, undoubled '<'])
  | gt => exact compared '>' (by simp [behindFirst, undoubled '>'])
  | bitOr =>
    have found := matches_single '|' ('|' :: rest)
    rwa [behindSingle_alone stops (by decide)] at found
  | bitAnd =>
    have found := matches_single '&' ('&' :: rest)
    rwa [behindSingle_alone stops (by decide)] at found
  | _ => exact matches_oneOf _ _

/-- At a tighter level it is not found. -/
theorem operatorBody_misses {n : Nat} {op : BinaryOp} (looser : n < op.level) :
    Matches body (operatorBody n) (op.symbol.toList ++ rest) none := by
  have shifted (c : Char) (missed : behindFirst ["<<", ">>"] (c :: rest) = none) :
      Matches body (operatorBody 3) (c :: rest) none := by
    have matched := matches_oneOf (g := body) ["<<", ">>"] (c :: rest)
    rwa [missed] at matched
  have undoubled (c : Char) (second : c ∈ Token.seconds) :=
    isPrefixOf_second stops (a := c) (c := c) second
  have below : n < 9 := Nat.lt_of_lt_of_le looser (by cases op <;> decide)
  -- Only a shift that the comparison could begin depends on what is behind the symbol.
  interval_cases n <;> cases op
  case «3».lt => exact shifted '<' (by simp [behindFirst, undoubled '<' (by decide)])
  case «3».gt => exact shifted '>' (by simp [behindFirst, undoubled '>' (by decide)])
  all_goals
    first
    | exact absurd looser (by decide)
    | exact matches_oneOf _ _
    | exact matches_single _ _

end Symbols

/-- What may stand behind an operand of a level: nothing, the end of parentheses, or an operator of
a looser level. -/
def Behind (n : Nat) (us : List Token) : Prop :=
  ∀ t ∈ us.head?, t = .closeParen ∨ ∃ op, t = .operator op ∧ n < op.level

theorem Behind.tighter {n : Nat} (behind : Behind (n + 1) us) : Behind n us := by
  intro t first
  obtain closes | ⟨op, isOperator, looser⟩ := behind t first
  · exact .inl closes
  · exact .inr ⟨op, isOperator, Nat.lt_of_succ_lt looser⟩

theorem matches_operator {op : BinaryOp} (writes : Writes (.operator op :: us) cs) :
    ∃ rest, Matches body (.rule (.operator op.level)) (unspaced cs)
      (some ([operatorMatch op], rest)) ∧ Writes us rest := by
  obtain ⟨_, rest, spelled, spells, stops, others⟩ := writes.first
  cases spells
  have found := operatorBody_finds (fun c first => (stops c first).2 id) op
  rw [spelled]
  exact ⟨rest, .rule found rfl, others⟩

theorem operator_misses {n : Nat} (behind : Behind n us) (writes : Writes us cs) :
    Matches body (.rule (.operator n)) (unspaced cs) none := by
  refine .ruleFails ?_
  cases us with
  | nil =>
    rw [writes.unspaced_nil]
    show Matches body (operatorBody n) [] none
    unfold operatorBody
    split <;> first | exact matches_oneOf _ _ | exact matches_single _ _
  | cons t us =>
    obtain ⟨_, rest, spelled, spells, stops, -⟩ := writes.first
    rw [spelled]
    obtain rfl | ⟨op, rfl, looser⟩ := behind t rfl
    · cases spells
      show Matches body (operatorBody n) (')' :: rest) none
      unfold operatorBody
      split <;> first | exact matches_oneOf _ _ | exact matches_single _ _
    · cases spells
      exact operatorBody_misses (fun c first => (stops c first).2 id) looser

theorem matches_unaryOperator {op : UnaryOp} (writes : Writes (op.token :: us) cs) :
    ∃ rest, Matches body (.rule .unaryOperator) (unspaced cs) (some ([unaryMatch op], rest)) ∧
      Writes us rest := by
  obtain ⟨_, rest, spelled, spells, -, others⟩ := writes.first
  rw [spelled]
  refine ⟨rest, ?_, others⟩
  cases op <;> cases spells <;> exact .rule (matches_oneOf _ _) rfl

/-! ## Numbers and paths -/

theorem matches_plus_char {accepts : Char → Bool} {input : List Char} (nonempty : cs ≠ [])
    (all : ∀ c ∈ cs, accepts c = true) (split : input = cs ++ rest)
    (stops : ∀ c ∈ rest.head?, accepts c = false) :
    Matches body (plus (.char accepts)) input (some ([], rest)) := by
  obtain ⟨c, cs, rfl⟩ := List.exists_cons_of_ne_nil nonempty
  obtain ⟨accepted, all⟩ := List.forall_mem_cons.mp all
  have others := matches_star_char (g := body) accepts (cs ++ rest)
  rw [Token.dropWhile_append_stop all stops] at others
  rw [split]
  exact .tokens (.char accepted) others

/-- Digits do not start with a base mark: neither a further digit nor what is behind them is one. -/
theorem unmarked {mark : Char} (plain : mark.isDigit = false) (named : Token.isNameRest mark = true)
    (all : ∀ c ∈ cs, c.isDigit = true) (stops : ∀ c ∈ rest.head?, Token.isNameRest c = false) :
    ¬ ['0', mark] <+: cs ++ rest := by
  rintro ⟨more, split⟩
  cases cs with
  | nil =>
    have first : rest.head? = some '0' := by
      rw [← List.nil_append rest, ← split]
      rfl
    cases stops '0' first
  | cons c cs =>
    cases cs with
    | nil =>
      have first : rest.head? = some mark := by
        have second : mark :: more = rest := (List.cons.inj split).2
        rw [← second, List.head?_cons]
      cases named.symm.trans (stops mark first)
    | cons d cs =>
      obtain ⟨rfl, -⟩ := List.cons.inj (List.cons.inj split).2
      cases plain.symm.trans (all mark (by simp))

theorem matches_number {text : List Char} {n : Nat} (numeral : Numeral text n)
    (stops : ∀ c ∈ rest.head?, Token.isNameRest c = false) :
    Matches body (.rule .number) (text ++ rest) (some ([⟨.number, text, []⟩], rest)) := by
  refine .rule ?_ rfl
  have ended : ∀ {p : Char → Bool} {base : Nat},
      (∀ c, p c = (Text.Numeral.digitOf? base c).isSome) → ∀ c ∈ rest.head?, p c = false := by
    intro p base same c first
    rw [Bool.eq_false_iff, same]
    intro digit
    cases (Token.isNameRest_of_digit digit).symm.trans (stops c first)
  cases numeral with
  | decimal denotes =>
    obtain ⟨nonempty, all⟩ := denotes.all
    have digits : ∀ c ∈ text, c.isDigit = true := fun c member =>
      (Token.isDigit_eq c).trans (all c member)
    -- The alternatives with a base mark are tried first.
    refine .choiceElse (.seqFails (oneOf_fails ?_)) (.choiceElse (.seqFails (oneOf_fails ?_))
      (matches_plus_char nonempty digits rfl (ended Token.isDigit_eq)))
    all_goals
      refine List.forall_mem_cons.mpr ⟨?_, List.forall_mem_cons.mpr ⟨?_, List.forall_mem_nil _⟩⟩
      all_goals exact unmarked (by decide) (by decide) digits stops
  | hexadecimal marks denotes =>
    obtain ⟨nonempty, all⟩ := denotes.all
    have digits : Matches body (plus (.char Token.isHexDigit)) _ _ :=
      matches_plus_char nonempty all rfl (ended fun _ => rfl)
    rcases marks with rfl | rfl
    · exact .choice (.tokens (matches_oneOf _ _) digits)
    · exact .choice (.tokens (matches_oneOf _ _) digits)
  | binary marks denotes =>
    obtain ⟨nonempty, all⟩ := denotes.all
    have digits := matches_plus_char nonempty (fun c member =>
      (Token.isBinaryDigit_eq c).trans (all c member)) rfl (ended Token.isBinaryDigit_eq)
    rcases marks with rfl | rfl
    all_goals
      exact .choiceElse (.seqFails (matches_oneOf _ _))
        (.choice (.tokens (matches_oneOf _ _) digits))

theorem matches_name {name : String} (isName : IsName name)
    (stops : ∀ c ∈ rest.head?, Token.isNameRest c = false) :
    Matches body (.rule .name) (name.toList ++ rest) (some ([nameMatch name], rest)) := by
  obtain ⟨c, cs, spelled, starts, all⟩ := isName
  have others := matches_star_char (g := body) Token.isNameRest (cs ++ rest)
  rw [Token.dropWhile_append_stop all stops] at others
  have named : Matches body (body .name) (name.toList ++ rest) (some ([], rest)) := by
    rw [spelled]
    exact .tokens (.char starts) others
  exact .rule named rfl

theorem matches_furtherNames {names : List String} (all : ∀ name ∈ names, IsName name)
    (stops : ∀ c ∈ rest.head?, Token.isNameRest c = false ∧ c ≠ '.') :
    Matches body (.star (.seq (.literal ['.']) (.rule .name)))
      ((names.flatMap fun name => '.' :: name.toList) ++ rest)
      (some (names.map nameMatch, rest)) := by
  induction names with
  | nil =>
    refine .starEnds (.seqFails (.literalFails ?_))
    rintro ⟨more, rfl⟩
    exact (stops '.' rfl).2 rfl
  | cons name names inductionHypothesis =>
    obtain ⟨isName, others⟩ := List.forall_mem_cons.mp all
    have first := matches_name isName
      (Token.stops_further names fun c first => (stops c first).1)
    rw [List.flatMap_cons, List.append_assoc]
    exact .star (.seq (.literal rfl) first) (inductionHypothesis others)

theorem matches_path {first : String} {names : List String}
    (all : ∀ name ∈ first :: names, IsName name)
    (stops : ∀ c ∈ rest.head?, Token.isNameRest c = false ∧ c ≠ '.') :
    Matches body (.rule .path) ((pathText first names).toList ++ rest)
      (some ([pathMatch first names], rest)) := by
  obtain ⟨isName, others⟩ := List.forall_mem_cons.mp all
  have name := matches_name isName (Token.stops_further names fun c first => (stops c first).1)
  have path : Matches body (body .path) ((pathText first names).toList ++ rest)
      (some ((first :: names).map nameMatch, rest)) := by
    rw [toList_pathText, List.append_assoc]
    exact .seq name (matches_furtherNames others stops)
  exact .rule path rfl

/-- None of the texts is found where none of them starts. -/
theorem oneOf_misses {texts : List String} {starts : List Char} {c : Char}
    (each : ∀ text ∈ texts, text.toList.head? ∈ starts.map some) (differs : c ∉ starts) :
    Matches body (oneOf texts) (c :: cs) none := by
  refine oneOf_fails fun text member begins => differs ?_
  obtain ⟨d, start, first⟩ := List.mem_map.mp (each text member)
  obtain ⟨others, spelled⟩ := List.head?_eq_some_iff.mp first.symm
  rw [spelled, List.cons_prefix_cons] at begins
  rwa [← begins.1]

theorem number_misses {c : Char} (noDigit : c.isDigit = false) :
    Matches body (.rule .number) (c :: cs) none := by
  have noZero : c ∉ ['0'] := by
    rintro (_ | ⟨_, ⟨⟩⟩)
    cases noDigit
  have plain : Matches body (plus (.char Char.isDigit)) (c :: cs) none := by
    refine .seqFails (.charFails ?_)
    rintro _ ⟨⟩
    exact noDigit
  exact .ruleFails (.choiceElse (.seqFails (oneOf_misses (by decide) noZero))
    (.choiceElse (.seqFails (oneOf_misses (by decide) noZero)) plain))

theorem path_misses {c : Char} (noStart : Token.isNameStart c = false) :
    Matches body (.rule .path) (c :: cs) none := by
  refine .ruleFails (.seqFails (.ruleFails (.seqFails (.charFails ?_))))
  rintro _ ⟨⟩
  exact noStart

theorem unaryOperator_misses {c : Char} (noOperator : c ∉ ['-', '!', '~']) :
    Matches body (.rule .unaryOperator) (c :: cs) none :=
  .ruleFails (oneOf_misses (by decide) noOperator)

theorem noOperator_of_isNameRest {c : Char} (named : Token.isNameRest c = true) :
    c ∉ ['-', '!', '~'] := by
  intro member
  have none : ['-', '!', '~'].all (!Token.isNameRest ·) = true := by decide
  simpa [named] using List.all_eq_true.mp none c member

/-! ## Operands with the operators in front of them -/

/-- The text of a number is matched, and no operator is found in front of it. -/
theorem matches_numberToken {text : List Char} (writes : Writes (.number text :: us) cs) :
    Matches body (.rule .unaryOperator) (unspaced cs) none ∧
      ∃ rest, Matches body primary (unspaced cs) (some ([⟨.number, text, []⟩], rest)) ∧
        Writes us rest := by
  obtain ⟨_, rest, spelled, spells, stops, others⟩ := writes.first
  cases spells with
  | number numeral =>
    have ended : ∀ c ∈ rest.head?, Token.isNameRest c = false := fun c first =>
      ((stops c first).1 trivial).1
    obtain ⟨c, digits, rfl, digit, -⟩ := Token.numberFrom_append numeral ended
    rw [spelled]
    exact ⟨unaryOperator_misses (noOperator_of_isNameRest (Token.isNameRest_of_isDigit digit)),
      rest, .choice (matches_number numeral ended), others⟩

theorem matches_pathToken {first : String} {names : List String}
    (writes : Writes (.path first names :: us) cs) :
    Matches body (.rule .unaryOperator) (unspaced cs) none ∧
      ∃ rest, Matches body primary (unspaced cs) (some ([pathMatch first names], rest)) ∧
        Writes us rest := by
  obtain ⟨_, rest, spelled, spells, stops, others⟩ := writes.first
  cases spells with
  | path all =>
    have ended : ∀ c ∈ rest.head?, Token.isNameRest c = false ∧ c ≠ '.' := fun c first =>
      (stops c first).1 trivial
    have path := matches_path all ended
    obtain ⟨c, others', spelled', starts, -⟩ := Token.pathFrom_append all ended
    rw [spelled]
    rw [spelled', List.cons_append] at path ⊢
    exact ⟨unaryOperator_misses (noOperator_of_isNameRest (Token.isNameRest_of_isNameStart starts)),
      rest, .choiceElse (number_misses (Token.isDigit_of_isNameStart starts)) (.choice path),
      others⟩

/-! ## What renders a tree is matched -/

/-- The operators in front of an operand are matched one by one, and then the operand. -/
def Signed (e : Expression) (ts : List Token) : Prop :=
  ∀ ⦃us cs⦄, Writes (ts ++ us) cs → ∃ (ops : List UnaryOp) (m : Match ExpressionRule)
      (operand : Expression) (mid rest : List Char),
    Matches body (.star (.seq blanks (.rule .unaryOperator))) cs
      (some (ops.map unaryMatch, mid)) ∧
    Matches body primary (unspaced mid) (some ([m], rest)) ∧ Denotes m operand ∧
    e = ops.foldr .unary operand ∧ Writes us rest

/-- The level is matched as the tree, up to the end of the tokens. -/
def Completes (n : Nat) (e : Expression) (ts : List Token) : Prop :=
  ∀ ⦃us cs⦄, Behind n us → Writes (ts ++ us) cs → ∃ m rest,
    Matches body (.rule (.level n)) (unspaced cs) (some ([m], rest)) ∧ Denotes m e ∧
    Writes us rest

/-- Any number of operators of a level with their right operands, each behind blanks. -/
abbrev Further (n : Nat) (cs : List Char) (ms : List (Match ExpressionRule)) (rest : List Char) :=
  Matches body (.star (.seq blanks (further n))) cs (some (ms, rest))

/-- What is matched at the level makes a left operand that grows to the tree, up to the end of the
tokens, and can go on from there. -/
def GoesOn (n : Nat) (e : Expression) (ts : List Token) : Prop :=
  ∀ ⦃us cs⦄, Behind n us → Writes (ts ++ us) cs → ∃ m mid left here,
    Matches body (.rule (.level n)) (unspaced cs) (some ([m], mid)) ∧ Denotes m left ∧
    Writes us here ∧ ∀ ms e' rest, Further n here ms rest → Grows e ms e' →
      ∃ ms', Further n mid ms' rest ∧ Grows left ms' e'

variable {n : Nat} {e : Expression} {ts : List Token} {m : Match ExpressionRule}

theorem matches_level (matched : Matches body (body (.level n)) cs (some (ms, rest)))
    (denotes : ∀ text, Denotes ⟨.level n, text, ms⟩ e) :
    ∃ m, Matches body (.rule (.level n)) cs (some ([m], rest)) ∧ Denotes m e := by
  obtain ⟨text, split⟩ := matched.split
  exact ⟨_, .rule matched split, denotes text⟩

theorem Signed.completes (signed : Signed e ts) : Completes 0 e ts := by
  intro us cs _ writes
  obtain ⟨ops, m, operand, mid, rest, signs, primary, denotes, rfl, others⟩ := signed writes
  obtain ⟨rest', many, passed⟩ := matches_many signs
  -- If there are no operators, the blanks in front of the operand are already passed.
  have same : unspaced rest' = unspaced mid := by
    rcases passed with rfl | rfl
    · rfl
    · exact List.dropWhile_idempotent _ _
  have level : Matches body (body (.level 0)) (unspaced cs) _ :=
    matches_followed many (same ▸ primary)
  obtain ⟨m', matched, denotes⟩ := matches_level level fun _ => .signed denotes
  exact ⟨m', rest, matched, denotes, others⟩

theorem matches_further {op : BinaryOp} {right : Expression} {rs : List Token}
    (level : op.level = n + 1) (completes : Completes n right rs) (behind : Behind n us)
    (writes : Writes (.operator op :: (rs ++ us)) cs) :
    ∃ m rest, Matches body (further n) (unspaced cs) (some ([operatorMatch op, m], rest)) ∧
      Denotes m right ∧ Writes us rest := by
  obtain ⟨mid, operator, others⟩ := matches_operator writes
  obtain ⟨m, rest, operand, denotes, others⟩ := completes behind others
  rw [level] at operator
  exact ⟨m, rest, matches_followed operator operand, denotes, others⟩

theorem further_misses (behind : Behind (n + 1) us) (writes : Writes us cs) :
    Matches body (further n) (unspaced cs) none :=
  .seqFails (operator_misses behind writes)

theorem Completes.goesOn (completes : Completes n e ts) : GoesOn n e ts := by
  intro us cs behind writes
  obtain ⟨m, rest, matched, denotes, others⟩ := completes behind writes
  exact ⟨m, rest, e, rest, matched, denotes, others, fun ms _ _ further grows =>
    ⟨ms, further, grows⟩⟩

theorem GoesOn.completes (goesOn : GoesOn n e ts) (chains : n + 1 ≠ comparisonLevel) :
    Completes (n + 1) e ts := by
  intro us cs behind writes
  obtain ⟨m, mid, left, here, first, denotes, others, onward⟩ := goesOn behind.tighter writes
  -- The repetition fails behind the last operator, from where on the blanks are still unmatched.
  have ended : Further n here [] here :=
    .starEnds (.seqBreaks (matches_blanks here) (further_misses behind others))
  obtain ⟨ms, further, grows⟩ := onward [] e here ended .nil
  obtain ⟨rest, many, passed⟩ := matches_many further
  have level : Matches body (body (.level (n + 1))) (unspaced cs) (some ([m] ++ ms, rest)) := by
    rw [body, if_neg chains]
    exact matches_followed first many
  obtain ⟨m', matched, denotes⟩ := matches_level level fun _ => .chain denotes grows
  refine ⟨m', rest, matched, denotes, ?_⟩
  rcases passed with rfl | rfl
  · exact others
  · exact others.skipBlanks

/-- A comparison goes on with one operator or none. -/
theorem Completes.looser (completes : Completes n e ts) (compares : n + 1 = comparisonLevel) :
    Completes (n + 1) e ts := by
  intro us cs behind writes
  obtain ⟨m, mid, first, denotes, others⟩ := completes behind.tighter writes
  have level : Matches body (body (.level (n + 1))) (unspaced cs)
      (some ([m] ++ [], unspaced mid)) := by
    rw [body, if_pos compares]
    exact matches_followed first (.choiceElse (further_misses behind others) (.literal rfl))
  obtain ⟨m', matched, denotes⟩ := matches_level level fun _ => .chain denotes .nil
  exact ⟨m', _, matched, denotes, others.skipBlanks⟩

theorem behind_operator {op : BinaryOp} (looser : n < op.level) :
    Behind n (.operator op :: us) := by
  rintro _ ⟨⟩
  exact .inr ⟨op, rfl, looser⟩

theorem unsigned_of_misses (misses : Matches body (.rule .unaryOperator) (unspaced cs) none) :
    Matches body (.star (.seq blanks (.rule .unaryOperator))) cs
      (some (([] : List UnaryOp).map unaryMatch, cs)) :=
  .starEnds (.seqBreaks (matches_blanks cs) misses)

theorem Signed.number {text : List Char} : Signed (.number text) [.number text] := by
  intro us cs writes
  obtain ⟨unsigned, rest, primary, others⟩ := matches_numberToken writes
  exact ⟨[], _, _, cs, rest, unsigned_of_misses unsigned, primary, .number, rfl, others⟩

theorem Signed.path {first : String} {names : List String} :
    Signed (.path first names) [.path first names] := by
  intro us cs writes
  obtain ⟨unsigned, rest, primary, others⟩ := matches_pathToken writes
  exact ⟨[], _, _, cs, rest, unsigned_of_misses unsigned, primary, .path, rfl, others⟩

theorem Signed.parens (inside : Completes loosest e ts) :
    Signed e (.openParen :: (ts ++ [.closeParen])) := by
  intro us cs writes
  rw [List.cons_append, List.append_assoc] at writes
  obtain ⟨inner, opens, others⟩ := writes.character fun spells => by cases spells; rfl
  have closing : Behind loosest (.closeParen :: us) := by
    rintro _ ⟨⟩
    exact .inl rfl
  obtain ⟨m, mid, matched, denotes, others⟩ := inside closing others
  obtain ⟨rest, closes, others⟩ := others.character fun spells => by cases spells; rfl
  have unsigned : Matches body (.rule .unaryOperator) (unspaced cs) none := by
    rw [opens]
    exact unaryOperator_misses (by decide)
  have closed : Matches body (.literal [')']) (unspaced mid) (some ([], rest)) := .literal closes
  refine ⟨[], m, e, cs, rest, unsigned_of_misses unsigned, ?_, denotes, rfl, others⟩
  rw [opens]
  -- Neither a number nor a path starts with a parenthesis.
  exact .choiceElse (number_misses rfl) (.choiceElse (path_misses rfl)
    (matches_followed (.literal rfl) (matches_followed matched closed)))

theorem Signed.unary {op : UnaryOp} (operand : Signed e ts) :
    Signed (.unary op e) (op.token :: ts) := by
  intro us cs writes
  obtain ⟨here, sign, others⟩ := matches_unaryOperator writes
  obtain ⟨ops, m, inner, mid, rest, signs, primary, denotes, rfl, others⟩ := operand others
  exact ⟨op :: ops, m, inner, mid, rest, .star (matches_spaced sign) signs, primary, denotes, rfl,
    others⟩

section Operators

variable {op : BinaryOp} {left right : Expression} {ls rs : List Token}

/-- The left operand does not end the level: it goes on with this operator. -/
theorem GoesOn.chained (level : op.level = n + 1) (before : GoesOn n left ls)
    (behind : Completes n right rs) :
    GoesOn n (.binary op left right) (ls ++ .operator op :: rs) := by
  intro us cs stops writes
  rw [List.append_assoc, List.cons_append] at writes
  obtain ⟨m, mid, first, here, matched, denotes, others, onward⟩ :=
    before (behind_operator (by omega)) writes
  obtain ⟨m', rest, further, denotes', others⟩ := matches_further level behind stops others
  refine ⟨m, mid, first, rest, matched, denotes, others, fun ms e' rest' again grows => ?_⟩
  exact onward _ e' rest' (.star (matches_spaced further) again) (.cons denotes' grows)

theorem Completes.compared (level : op.level = n + 1) (compares : n + 1 = comparisonLevel)
    (before : Completes n left ls) (behind : Completes n right rs) :
    Completes (n + 1) (.binary op left right) (ls ++ .operator op :: rs) := by
  intro us cs stops writes
  rw [List.append_assoc, List.cons_append] at writes
  obtain ⟨m, mid, first, denotes, others⟩ := before (behind_operator (by omega)) writes
  obtain ⟨m', rest, further, denotes', others⟩ :=
    matches_further level behind stops.tighter others
  have matched : Matches body (body (.level (n + 1))) (unspaced cs)
      (some ([m] ++ [operatorMatch op, m'], rest)) := by
    rw [body, if_pos compares]
    exact matches_followed first (.choice further)
  obtain ⟨whole, matched, denotes⟩ :=
    matches_level matched fun _ => .chain denotes (.cons denotes' .nil)
  exact ⟨whole, rest, matched, denotes, others⟩

end Operators

/-- The grammar matches the tokens as the tree. Where operators chain it can go on at the same
level, and in front of an operand there can be further operators. -/
structure MatchedAs (n : Nat) (e : Expression) (ts : List Token) : Prop where
  completes : Completes n e ts
  signed : n = 0 → Signed e ts
  goesOn : ∀ m, n = m + 1 → n ≠ comparisonLevel → GoesOn m e ts

theorem Signed.matchedAs (signed : Signed e ts) : MatchedAs 0 e ts where
  completes := signed.completes
  signed _ := signed
  goesOn := nofun

theorem GoesOn.matchedAs (goesOn : GoesOn n e ts) (completes : Completes (n + 1) e ts) :
    MatchedAs (n + 1) e ts where
  completes := completes
  signed := nofun
  goesOn := by
    rintro m ⟨⟩ -
    exact goesOn

/-- What renders a tree is matched as it. -/
theorem matchedAs_of_renders (h : Renders n e ts) : MatchedAs n e ts := by
  induction h with
  | number => exact Signed.number.matchedAs
  | path => exact Signed.path.matchedAs
  | parens _ inside => exact (Signed.parens inside.completes).matchedAs
  | unary _ operand => exact (operand.signed rfl).unary.matchedAs
  | @looser n e ts _ tighter =>
    have goesOn := tighter.completes.goesOn
    by_cases compares : n + 1 = comparisonLevel
    · exact goesOn.matchedAs (tighter.completes.looser compares)
    · exact goesOn.matchedAs (goesOn.completes compares)
  | @chained n _ _ _ _ _ level chains _ _ before behind =>
    have goesOn := (before.goesOn n rfl chains).chained level behind.completes
    exact goesOn.matchedAs (goesOn.completes chains)
  | compared level compares _ _ before behind =>
    exact ⟨.compared level compares before.completes behind.completes, nofun,
      fun _ _ chains => absurd compares chains⟩

end BinaryTemplate.Expression
