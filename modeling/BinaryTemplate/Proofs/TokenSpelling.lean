import BinaryTemplate.Proofs.ExpressionGrammar

/-!
# Reading tokens

The tokens read from a text are a way to write it, and tokens that may stand next to each other are
read back from every way to write them: where a token could go on, the next one cannot start, so
taking the longest one is right with and without blanks between them.
-/

namespace BinaryTemplate

open Text.Numeral (digit? digitOf?)

/-! ## Digits -/

namespace Token

theorem isDigit_iff (c : Char) : c.isDigit = true ↔ 48 ≤ c.toNat ∧ c.toNat ≤ 57 := by
  simp only [Char.isDigit, Bool.and_eq_true, decide_eq_true_eq, ge_iff_le, UInt32.le_iff_toNat_le]
  rfl

theorem isDigit_eq (c : Char) : c.isDigit = (digitOf? 10 c).isSome := by
  rw [Bool.eq_iff_iff, isDigit_iff, digitOf?, digit?]
  grind

theorem isBinaryDigit_eq (c : Char) : isBinaryDigit c = (digitOf? 2 c).isSome := by
  have zero : c = '0' ↔ c.toNat = 48 := ⟨fun h => h ▸ rfl, fun h => Char.toNat_inj.mp h⟩
  have one : c = '1' ↔ c.toNat = 49 := ⟨fun h => h ▸ rfl, fun h => Char.toNat_inj.mp h⟩
  rw [Bool.eq_iff_iff, isBinaryDigit, digitOf?, digit?]
  grind

end Token

theorem digitsOf_of_all (base : Nat) {text : List Char} (nonempty : text ≠ [])
    (all : ∀ c ∈ text, (digitOf? base c).isSome = true) : ∃ n, DigitsOf base text n := by
  refine ⟨_, text.map fun c => (digitOf? base c).getD 0, by simpa using nonempty, ?_, rfl⟩
  rw [List.forall₂_map_right_iff, List.forall₂_same]
  intro c member
  obtain ⟨value, known⟩ := Option.isSome_iff_exists.mp (all c member)
  rw [known, Option.getD_some]

theorem DigitsOf.all {base : Nat} {text : List Char} {n : Nat} (h : DigitsOf base text n) :
    text ≠ [] ∧ ∀ c ∈ text, (digitOf? base c).isSome = true := by
  obtain ⟨values, nonempty, each, -⟩ := h
  constructor
  · rintro rfl
    cases each
    exact nonempty rfl
  · clear nonempty
    induction each with
    | nil => exact nofun
    | cons digit _ inductionHypothesis =>
      rintro c (_ | ⟨_, member⟩)
      · exact Option.isSome_of_eq_some digit
      · exact inductionHypothesis c member

theorem toList_pathText (first : String) (rest : List String) :
    (pathText first rest).toList = first.toList ++ rest.flatMap fun name => '.' :: name.toList := by
  induction rest generalizing first with
  | nil => simp [pathText]
  | cons next rest inductionHypothesis =>
    have further := inductionHypothesis next
    unfold pathText at further ⊢
    rw [String.intercalate_cons_cons]
    simp only [String.toList_append, further, List.flatMap_cons]
    simp

/-! ## What is read is written -/

namespace Token

/-- A text starts with the spelling of a token, and the rest is left. -/
def Begins (found : Token × List Char) (text : List Char) : Prop :=
  ∃ spelling, text = spelling ++ found.2 ∧ found.1.Spells spelling

theorem begins_marked {isDigit : Char → Bool} {base : Nat}
    (same : ∀ c, isDigit c = (digitOf? base c).isSome) {mark rest text : List Char}
    (split : text = mark ++ rest)
    (numeral : ∀ {digits n}, DigitsOf base digits n → Numeral (mark ++ digits) n)
    {plain : Token × List Char} (fallback : Begins plain text) :
    Begins ((afterMark? isDigit mark rest).getD plain) text := by
  unfold afterMark?
  by_cases empty : (rest.takeWhile isDigit).isEmpty = true
  · rw [if_pos empty]
    exact fallback
  · rw [if_neg empty]
    obtain ⟨n, denotes⟩ := digitsOf_of_all base (by simpa using empty) fun c member =>
      (same c).symm.trans (List.mem_takeWhile_imp member)
    refine ⟨mark ++ rest.takeWhile isDigit, ?_, .number (numeral denotes)⟩
    rw [split, Option.getD_some, List.append_assoc, List.takeWhile_append_dropWhile]

theorem begins_numberFrom {c : Char} (digit : c.isDigit = true) (cs : List Char) :
    Begins (numberFrom c cs) (c :: cs) := by
  have plain : Begins (.number (c :: cs.takeWhile Char.isDigit), cs.dropWhile Char.isDigit)
      (c :: cs) := by
    have all : ∀ d ∈ c :: cs.takeWhile Char.isDigit, (digitOf? 10 d).isSome = true := by
      rintro d (_ | ⟨_, member⟩)
      · exact (isDigit_eq c).symm.trans digit
      · exact (isDigit_eq d).symm.trans (List.mem_takeWhile_imp member)
    obtain ⟨n, denotes⟩ := digitsOf_of_all 10 (List.cons_ne_nil _ _) all
    refine ⟨_, ?_, .number (.decimal denotes)⟩
    rw [List.cons_append, List.takeWhile_append_dropWhile]
  unfold numberFrom
  split
  · exact begins_marked (fun _ => rfl) rfl (.hexadecimal (.inl rfl)) plain
  · exact begins_marked (fun _ => rfl) rfl (.hexadecimal (.inr rfl)) plain
  · exact begins_marked isBinaryDigit_eq rfl (.binary (.inl rfl)) plain
  · exact begins_marked isBinaryDigit_eq rfl (.binary (.inr rfl)) plain
  · exact plain

theorem isName_ofList {c : Char} {cs : List Char} (starts : isNameStart c = true)
    (rest : ∀ other ∈ cs, isNameRest other = true) : IsName (String.ofList (c :: cs)) :=
  ⟨c, cs, String.toList_ofList, starts, rest⟩

theorem furtherNames_names (cs : List Char) :
    cs = ((furtherNames cs).1.flatMap fun name => '.' :: name.toList) ++ (furtherNames cs).2 ∧
      ∀ name ∈ (furtherNames cs).1, IsName name := by
  fun_induction furtherNames cs with
  | case1 c rest starts further inductionHypothesis =>
    obtain ⟨split, names⟩ := inductionHypothesis
    constructor
    · rw [List.flatMap_cons, String.toList_ofList, List.append_assoc, ← split, List.cons_append,
        List.cons_append, List.takeWhile_append_dropWhile]
    · rintro name (_ | ⟨_, member⟩)
      · exact isName_ofList starts fun _ => List.mem_takeWhile_imp
      · exact names name member
  | case2 => exact ⟨rfl, List.forall_mem_nil _⟩
  | case3 => exact ⟨rfl, List.forall_mem_nil _⟩

theorem begins_pathFrom {c : Char} (starts : isNameStart c = true) (cs : List Char) :
    Begins (pathFrom c cs) (c :: cs) := by
  obtain ⟨split, names⟩ := furtherNames_names (cs.dropWhile isNameRest)
  unfold pathFrom
  refine ⟨_, ?_, .path ?_⟩
  · rw [toList_pathText, String.toList_ofList, List.append_assoc]
    dsimp only
    rw [← split, List.cons_append, List.takeWhile_append_dropWhile]
  · rintro name (_ | ⟨_, member⟩)
    · exact isName_ofList starts fun _ => List.mem_takeWhile_imp
    · exact names name member

theorem begins_symbolFrom? {c : Char} {cs : List Char} {found : Token × List Char}
    (h : symbolFrom? c cs = some found) : Begins found (c :: cs) := by
  unfold symbolFrom? at h
  split at h <;> cases h <;>
    first | exact ⟨_, rfl, .operator⟩ | exact ⟨_, rfl, .not⟩ | exact ⟨_, rfl, .complement⟩ |
      exact ⟨_, rfl, .openParen⟩ | exact ⟨_, rfl, .closeParen⟩

theorem begins_from? {c : Char} {cs : List Char} {found : Token × List Char}
    (h : from? c cs = some found) : Begins found (c :: cs) := by
  unfold from? at h
  split at h
  · next digit =>
    cases h
    exact begins_numberFrom digit cs
  · split at h
    · next starts =>
      cases h
      exact begins_pathFrom starts cs
    · exact begins_symbolFrom? h

end Token

theorem Written.blank {ts : List Token} {c : Char} {cs : List Char}
    (isBlank : Token.isBlank c = true) (h : Written ts cs) : Written ts (c :: cs) := by
  cases h with
  | nil blank => exact .nil (List.forall_mem_cons.mpr ⟨isBlank, blank⟩)
  | cons blank spells others =>
    rw [← List.cons_append, ← List.cons_append]
    exact .cons (List.forall_mem_cons.mpr ⟨isBlank, blank⟩) spells others

theorem Written.unspaced {t : Token} {ts : List Token} {spelling rest : List Char}
    (spells : t.Spells spelling) (others : Written ts rest) :
    Written (t :: ts) (spelling ++ rest) :=
  @Written.cons t ts [] spelling rest nofun spells others

theorem Written.alone {t : Token} {spelling : List Char} (spells : t.Spells spelling) :
    Written [t] spelling := by
  have others : Written [] [] := .nil (List.forall_mem_nil _)
  simpa using others.unspaced spells

theorem Written.blanks {ts : List Token} {blanks cs : List Char} (h : Written ts cs)
    (blank : ∀ c ∈ blanks, Token.isBlank c = true) : Written ts (blanks ++ cs) := by
  induction blanks with
  | nil => exact h
  | cons c blanks inductionHypothesis =>
    obtain ⟨isBlank, others⟩ := List.forall_mem_cons.mp blank
    exact (inductionHypothesis others).blank isBlank

theorem Written.append {ts us : List Token} {cs ds : List Char} (h : Written ts cs)
    (h' : Written us ds) : Written (ts ++ us) (cs ++ ds) := by
  induction h with
  | nil blank => exact h'.blanks blank
  | cons blank spells _ inductionHypothesis =>
    rw [List.append_assoc]
    exact .cons blank spells inductionHypothesis

/-- The tokens read from a text are a way to write it. -/
theorem written_of_tokens? {cs : List Char} {ts : List Token} (h : tokens? cs = some ts) :
    Written ts cs := by
  fun_induction tokens? cs generalizing ts with
  | case1 =>
    cases h
    exact .nil nofun
  | case2 c rest isBlank inductionHypothesis => exact (inductionHypothesis h).blank isBlank
  | case3 => cases h
  | case4 c rest _ t after found inductionHypothesis =>
    obtain ⟨ts, further, rfl⟩ := Option.map_eq_some_iff.mp h
    obtain ⟨spelling, split, spells⟩ := Token.begins_from? found
    rw [split]
    exact .unspaced spells (inductionHypothesis further)

/-! ## What is written is read -/

namespace Token

/-- The characters with which an operator of two characters goes on. -/
def seconds : List Char := ['|', '&', '=', '<', '>']

/-- A token does not go on with the character: what ends an operand not as a name does, and all
other tokens not as an operator of two characters does. -/
def StopsBefore (t : Token) (c : Char) : Prop :=
  (t.EndsOperand → isNameRest c = false ∧ c ≠ '.') ∧ (¬ t.EndsOperand → c ∉ seconds)

/-- The token does not go on into the text behind it. -/
def StopsAt (t : Token) (rest : List Char) : Prop := ∀ c ∈ rest.head?, t.StopsBefore c

theorem takeWhile_append_stop {p : Char → Bool} {cs rest : List Char} (all : ∀ c ∈ cs, p c = true)
    (stops : ∀ c ∈ rest.head?, p c = false) : (cs ++ rest).takeWhile p = cs := by
  rw [List.takeWhile_append_of_pos all]
  cases rest with
  | nil => simp
  | cons c rest => simp [stops c rfl]

theorem dropWhile_append_stop {p : Char → Bool} {cs rest : List Char} (all : ∀ c ∈ cs, p c = true)
    (stops : ∀ c ∈ rest.head?, p c = false) : (cs ++ rest).dropWhile p = rest := by
  rw [List.dropWhile_append_of_pos all]
  cases rest with
  | nil => simp
  | cons c rest => simp [stops c rfl]

theorem isAlpha_iff (c : Char) :
    c.isAlpha = true ↔ 65 ≤ c.toNat ∧ c.toNat ≤ 90 ∨ 97 ≤ c.toNat ∧ c.toNat ≤ 122 := by
  simp only [Char.isAlpha, Char.isUpper, Char.isLower, Bool.or_eq_true, Bool.and_eq_true,
    decide_eq_true_eq, ge_iff_le, UInt32.le_iff_toNat_le]
  rfl

theorem isNameRest_of_digit {base : Nat} {c : Char} (h : (digitOf? base c).isSome = true) :
    isNameRest c = true := by
  rw [isNameRest, Char.isAlphanum, Bool.or_eq_true, Bool.or_eq_true, isAlpha_iff, isDigit_iff]
  rw [digitOf?, digit?] at h
  grind

theorem afterMark?_append {isDigit : Char → Bool} {mark digits rest : List Char}
    (nonempty : digits ≠ []) (all : ∀ c ∈ digits, isDigit c = true)
    (stops : ∀ c ∈ rest.head?, isDigit c = false) :
    afterMark? isDigit mark (digits ++ rest) = some (.number (mark ++ digits), rest) := by
  unfold afterMark?
  rw [takeWhile_append_stop all stops, dropWhile_append_stop all stops,
    if_neg (by simpa using nonempty)]

/-- Without a base mark behind it, a digit starts a decimal number. -/
theorem numberFrom_eq {c : Char} {cs : List Char}
    (unmarked : ∀ mark ∈ cs.head?, mark ∉ ['x', 'X', 'b', 'B']) :
    numberFrom c cs = (.number (c :: cs.takeWhile Char.isDigit), cs.dropWhile Char.isDigit) := by
  unfold numberFrom
  split <;> first | rfl | exact absurd (by decide) (unmarked _ rfl)

/-- What may not go on behind a number is what no name goes on with: every digit of every base is
such a character. -/
theorem numberFrom_append {text rest : List Char} {n : Nat} (numeral : Numeral text n)
    (stops : ∀ c ∈ rest.head?, isNameRest c = false) :
    ∃ c cs, text = c :: cs ∧ c.isDigit = true ∧
      numberFrom c (cs ++ rest) = (.number text, rest) := by
  have ended : ∀ {p : Char → Bool} {base : Nat}, (∀ c, p c = (digitOf? base c).isSome) →
      ∀ c ∈ rest.head?, p c = false := by
    intro p base same c first
    rw [Bool.eq_false_iff, same]
    intro digit
    exact absurd (isNameRest_of_digit digit) (by rw [stops c first]; exact nofun)
  cases numeral with
  | decimal denotes =>
    obtain ⟨nonempty, all⟩ := denotes.all
    obtain ⟨c, cs, rfl⟩ := List.exists_cons_of_ne_nil nonempty
    have digits : ∀ d ∈ c :: cs, d.isDigit = true := fun d member =>
      (isDigit_eq d).trans (all d member)
    obtain ⟨digit, digits⟩ := List.forall_mem_cons.mp digits
    refine ⟨c, cs, rfl, digit, ?_⟩
    rw [numberFrom_eq, takeWhile_append_stop digits (ended isDigit_eq),
      dropWhile_append_stop digits (ended isDigit_eq)]
    -- Neither a digit nor the character behind the number is a base mark.
    intro mark first marks
    cases cs with
    | nil =>
      have named : ['x', 'X', 'b', 'B'].all isNameRest = true := by decide
      exact absurd ((stops mark first).symm.trans (List.all_eq_true.mp named mark marks)) nofun
    | cons d cs =>
      have plain : ['x', 'X', 'b', 'B'].all (!·.isDigit) = true := by decide
      cases first
      simpa [digits mark List.mem_cons_self] using List.all_eq_true.mp plain mark marks
  | @hexadecimal mark _ _ marks denotes =>
    obtain ⟨nonempty, all⟩ := denotes.all
    refine ⟨'0', _, rfl, rfl, ?_⟩
    rcases marks with rfl | rfl
    · exact congrArg (Option.getD · _) (afterMark?_append nonempty all (ended fun _ => rfl))
    · exact congrArg (Option.getD · _) (afterMark?_append nonempty all (ended fun _ => rfl))
  | @binary mark _ _ marks denotes =>
    obtain ⟨nonempty, all⟩ := denotes.all
    have digits : ∀ c ∈ _, isBinaryDigit c = true := fun c member =>
      (isBinaryDigit_eq c).trans (all c member)
    refine ⟨'0', _, rfl, rfl, ?_⟩
    rcases marks with rfl | rfl
    · exact congrArg (Option.getD · _) (afterMark?_append nonempty digits (ended isBinaryDigit_eq))
    · exact congrArg (Option.getD · _) (afterMark?_append nonempty digits (ended isBinaryDigit_eq))

/-- Where neither a character of a name nor a dot follows, a name ends and with it its path. -/
theorem takeWhile_name {name : String} (isName : IsName name) {rest : List Char}
    (stops : ∀ c ∈ rest.head?, isNameRest c = false) :
    ∃ c cs, name.toList = c :: cs ∧ isNameStart c = true ∧
      String.ofList (c :: (cs ++ rest).takeWhile isNameRest) = name ∧
      (cs ++ rest).dropWhile isNameRest = rest := by
  obtain ⟨c, cs, spelled, starts, all⟩ := isName
  refine ⟨c, cs, spelled, starts, ?_, dropWhile_append_stop all stops⟩
  rw [takeWhile_append_stop all stops, ← spelled, String.ofList_toList]

theorem isNameRest_dot : isNameRest '.' = false := by decide

/-- Behind a name of a path, neither the next dot nor what is behind the path goes on with it. -/
theorem stops_further (names : List String) {rest : List Char}
    (stops : ∀ c ∈ rest.head?, isNameRest c = false) :
    ∀ c ∈ ((names.flatMap fun name => '.' :: name.toList) ++ rest).head?, isNameRest c = false := by
  cases names with
  | nil => exact stops
  | cons name names =>
    rintro _ ⟨⟩
    exact isNameRest_dot

theorem furtherNames_append {names : List String} {rest : List Char}
    (all : ∀ name ∈ names, IsName name)
    (stops : ∀ c ∈ rest.head?, isNameRest c = false ∧ c ≠ '.') :
    furtherNames ((names.flatMap fun name => '.' :: name.toList) ++ rest) = (names, rest) := by
  induction names with
  | nil =>
    rw [List.flatMap_nil, List.nil_append]
    unfold furtherNames
    split
    · exact absurd rfl (stops _ rfl).2
    · rfl
  | cons name names inductionHypothesis =>
    obtain ⟨isName, others⟩ := List.forall_mem_cons.mp all
    obtain ⟨c, cs, spelled, starts, taken, left⟩ :=
      takeWhile_name isName (stops_further names fun c first => (stops c first).1)
    rw [List.flatMap_cons, List.append_assoc, List.cons_append, spelled, List.cons_append,
      furtherNames, if_pos starts, left, taken, inductionHypothesis others]

theorem pathFrom_append {first : String} {names : List String} {rest : List Char}
    (all : ∀ name ∈ first :: names, IsName name)
    (stops : ∀ c ∈ rest.head?, isNameRest c = false ∧ c ≠ '.') :
    ∃ c cs, (pathText first names).toList = c :: cs ∧ isNameStart c = true ∧
      pathFrom c (cs ++ rest) = (.path first names, rest) := by
  obtain ⟨isName, others⟩ := List.forall_mem_cons.mp all
  obtain ⟨c, cs, spelled, starts, taken, left⟩ :=
    takeWhile_name isName (stops_further names fun c first => (stops c first).1)
  refine ⟨c, cs ++ names.flatMap fun name => '.' :: name.toList, ?_, starts, ?_⟩
  · rw [toList_pathText, spelled, List.cons_append]
  · rw [pathFrom, List.append_assoc, left, taken, furtherNames_append others stops]

/-- A symbol of one character is read wherever no operator of two characters goes on. -/
theorem symbolFrom?_alone {c : Char} {t : Token} {rest : List Char}
    (alone : symbolFrom? c [] = some (t, [])) (stops : ∀ d ∈ rest.head?, d ∉ seconds) :
    symbolFrom? c rest = some (t, rest) := by
  cases rest with
  | nil => exact alone
  | cons d rest =>
    have stops : d ∉ seconds := stops d rfl
    unfold symbolFrom? at alone ⊢
    split <;> simp_all [seconds]

theorem symbolFrom?_append (op : BinaryOp) {rest : List Char}
    (stops : ∀ c ∈ rest.head?, c ∉ seconds) :
    ∃ c cs, op.symbol.toList = c :: cs ∧
      symbolFrom? c (cs ++ rest) = some (.operator op, rest) := by
  cases op
  case or | and | eq | ne | le | ge | shiftLeft | shiftRight => exact ⟨_, _, rfl, rfl⟩
  all_goals exact ⟨_, [], rfl, symbolFrom?_alone rfl stops⟩

/-- No character of a number or a path starts a symbol. -/
theorem unnamed_of_symbolFrom? {c : Char} {cs : List Char} {found : Token × List Char}
    (h : symbolFrom? c cs = some found) :
    isBlank c = false ∧ isNameRest c = false ∧ c ≠ '.' := by
  unfold symbolFrom? at h
  split at h
  case h_23 => cases h
  all_goals decide

theorem isNameRest_of_isDigit {c : Char} (digit : c.isDigit = true) : isNameRest c = true := by
  simp [isNameRest, Char.isAlphanum, digit]

theorem isNameRest_of_isNameStart {c : Char} (starts : isNameStart c = true) :
    isNameRest c = true := by
  rw [isNameStart, Bool.or_eq_true] at starts
  rcases starts with letter | underscore <;> simp [isNameRest, Char.isAlphanum, *]

theorem isDigit_of_isNameStart {c : Char} (starts : isNameStart c = true) : c.isDigit = false := by
  rw [isNameStart, Bool.or_eq_true, isAlpha_iff, beq_iff_eq] at starts
  rw [Bool.eq_false_iff, Ne, isDigit_iff]
  rcases starts with letter | rfl
  · omega
  · decide

theorem separate_of_isBlank {c : Char} (blank : isBlank c = true) :
    isNameRest c = false ∧ c ≠ '.' ∧ c ∉ seconds := by
  simp only [isBlank, Bool.or_eq_true, beq_iff_eq] at blank
  rcases blank with ((rfl | rfl) | rfl) | rfl <;> decide

theorem stopsBefore_of_isBlank {t : Token} {c : Char} (blank : isBlank c = true) :
    t.StopsBefore c := by
  obtain ⟨unnamed, noDot, noSecond⟩ := separate_of_isBlank blank
  exact ⟨fun _ => ⟨unnamed, noDot⟩, fun _ => noSecond⟩

theorem isBlank_of_isNameRest {c : Char} (named : isNameRest c = true) : isBlank c = false := by
  rw [Bool.eq_false_iff]
  intro blank
  rw [(separate_of_isBlank blank).1] at named
  cases named

theorem from?_of_symbolFrom? {c : Char} {cs : List Char} {found : Token × List Char}
    (h : symbolFrom? c cs = some found) : from? c cs = some found := by
  obtain ⟨-, unnamed, -⟩ := unnamed_of_symbolFrom? h
  rw [Bool.eq_false_iff] at unnamed
  rw [from?, if_neg (mt isNameRest_of_isDigit unnamed),
    if_neg (mt isNameRest_of_isNameStart unnamed), h]

/-- A token is read back from its spelling, whatever it does not go on into behind it. -/
theorem from?_append {t : Token} {spelling rest : List Char} (spells : t.Spells spelling)
    (stops : t.StopsAt rest) :
    ∃ c cs, spelling = c :: cs ∧ isBlank c = false ∧ from? c (cs ++ rest) = some (t, rest) := by
  cases spells with
  | number numeral =>
    obtain ⟨c, cs, rfl, digit, found⟩ :=
      numberFrom_append numeral fun c first => ((stops c first).1 trivial).1
    refine ⟨c, cs, rfl, isBlank_of_isNameRest (isNameRest_of_isDigit digit), ?_⟩
    rw [from?, if_pos digit, found]
  | path names =>
    obtain ⟨c, cs, spelled, starts, found⟩ :=
      pathFrom_append names fun c first => (stops c first).1 trivial
    refine ⟨c, cs, spelled, isBlank_of_isNameRest (isNameRest_of_isNameStart starts), ?_⟩
    rw [from?, if_neg (Bool.eq_false_iff.mp (isDigit_of_isNameStart starts)), if_pos starts, found]
  | @operator op =>
    obtain ⟨c, cs, spelled, found⟩ :=
      symbolFrom?_append op fun c first => (stops c first).2 id
    exact ⟨c, cs, spelled, (unnamed_of_symbolFrom? found).1, from?_of_symbolFrom? found⟩
  | not => exact ⟨'!', [], rfl, rfl, symbolFrom?_alone rfl fun c first => (stops c first).2 id⟩
  | complement | openParen | closeParen => exact ⟨_, [], rfl, rfl, rfl⟩

theorem notMem_seconds_of_isNameRest {c : Char} (named : isNameRest c = true) : c ∉ seconds := by
  intro member
  have none : seconds.all (!isNameRest ·) = true := by decide
  simpa [named] using List.all_eq_true.mp none c member

/-- A token does not go on with the first character of one that it may precede. -/
theorem stopsBefore_of_spells {t next : Token} {spelling : List Char}
    (precedes : t.Precedes next) (spells : next.Spells spelling) :
    ∃ c cs, spelling = c :: cs ∧ t.StopsBefore c := by
  rcases precedes with ⟨ends, rfl | ⟨op, rfl⟩⟩ | ⟨calls, starts⟩
  · cases spells
    exact ⟨_, [], rfl, fun _ => by decide, absurd ends⟩
  · cases spells
    obtain ⟨c, cs, spelled, found⟩ := @symbolFrom?_append op [] nofun
    exact ⟨c, cs, spelled, fun _ => (unnamed_of_symbolFrom? found).2, absurd ends⟩
  · cases spells with
    | number numeral =>
      obtain ⟨c, cs, rfl, digit, -⟩ := @numberFrom_append _ [] _ numeral nofun
      exact ⟨c, cs, rfl, fun ends => absurd ends calls, fun _ =>
        notMem_seconds_of_isNameRest (isNameRest_of_isDigit digit)⟩
    | path names =>
      obtain ⟨c, cs, spelled, letter, -⟩ := @pathFrom_append _ _ [] names nofun
      exact ⟨c, cs, spelled, fun ends => absurd ends calls, fun _ =>
        notMem_seconds_of_isNameRest (isNameRest_of_isNameStart letter)⟩
    | operator =>
      cases starts
      exact ⟨'-', [], rfl, fun ends => absurd ends calls, fun _ => by decide⟩
    | not | complement | openParen =>
      exact ⟨_, [], rfl, fun ends => absurd ends calls, fun _ => by decide⟩
    | closeParen => cases starts

end Token

/-- Behind a token there is no character with which it would go on. -/
theorem Written.stopsAt {t : Token} {ts : List Token} {cs : List Char} (h : Written ts cs)
    (precedes : ∀ next ∈ ts.head?, t.Precedes next) : t.StopsAt cs := by
  intro c first
  cases h with
  | nil blanks => exact Token.stopsBefore_of_isBlank (blanks c (List.mem_of_mem_head? first))
  | @cons next _ blanks _ _ blank spells =>
    cases blanks with
    | nil =>
      obtain ⟨d, ds, rfl, stops⟩ := Token.stopsBefore_of_spells (precedes next rfl) spells
      cases first
      exact stops
    | cons b blanks =>
      cases first
      exact Token.stopsBefore_of_isBlank (blank c List.mem_cons_self)

theorem tokens?_blanks {blanks cs : List Char} (blank : ∀ c ∈ blanks, Token.isBlank c = true) :
    tokens? (blanks ++ cs) = tokens? cs := by
  induction blanks with
  | nil => rfl
  | cons b blanks inductionHypothesis =>
    obtain ⟨isBlank, blank⟩ := List.forall_mem_cons.mp blank
    rw [List.cons_append, tokens?, if_pos isBlank, inductionHypothesis blank]

theorem tokens?_of_from? {c : Char} {cs rest : List Char} {t : Token}
    (blank : Token.isBlank c = false) (found : Token.from? c cs = some (t, rest)) :
    tokens? (c :: cs) = (tokens? rest).map (t :: ·) := by
  rw [tokens?, if_neg (Bool.eq_false_iff.mp blank)]
  split
  · next missing => cases missing.symm.trans found
  · next found' =>
    cases found'.symm.trans found
    rfl

/-- Tokens are read back from every way to write them, if each may stand behind the one before
it. -/
theorem tokens?_of_written {ts : List Token} {cs : List Char} (h : Written ts cs)
    (chain : ts.IsChain Token.Precedes) : tokens? cs = some ts := by
  induction h with
  | @nil blanks blank =>
    rw [← List.append_nil blanks, tokens?_blanks blank, tokens?]
  | @cons t ts blanks spelling rest blank spells others inductionHypothesis =>
    obtain ⟨precedes, chain⟩ := List.isChain_cons.mp chain
    obtain ⟨c, cs, rfl, unblank, found⟩ := Token.from?_append spells (others.stopsAt precedes)
    rw [List.append_assoc, tokens?_blanks blank, List.cons_append, tokens?_of_from? unblank found,
      inductionHypothesis chain, Option.map_some]

end BinaryTemplate
