import BinaryTemplate.Expression.Parse
import BinaryTemplate.Proofs.TokenSpelling

/-!
# Parsing is the inverse of rendering

Whatever renders a tree is read as that tree, and whatever is read renders the tree that it is read
as. In a chain of operators of one level the last operator is the outermost one of the tree, while
reading meets the first one first; so both directions carry along how reading goes on behind a left
operand.
-/

namespace BinaryTemplate.Expression

open BinaryOp (comparisonLevel loosest)

/-! ## Reading without evidence -/

def read (n : Nat) (ts : List Token) : Option (Expression × List Token) :=
  (operand n ts).map fun found => (found.1, found.2.1)

def readChain (n : Nat) (left : Expression) (ts : List Token) :
    Option (Expression × List Token) :=
  (chain n left ts).map fun found => (found.1, found.2.1)

def readSigned (ts : List Token) : Option (Expression × List Token) :=
  (signed ts).map fun found => (found.1, found.2.1)

theorem read_zero (ts : List Token) : read 0 ts = readSigned ts := by
  rw [read, operand, readSigned]

theorem read_succ (n : Nat) (ts : List Token) :
    read (n + 1) ts = (read n ts).bind fun found => readChain n found.1 found.2 := by
  rw [read, operand, read]
  cases operand n ts with
  | none => rfl
  | some found =>
    simp only [Option.map_some, Option.bind_some, Option.map_map, readChain]
    rfl

theorem readChain_operator {n : Nat} {left : Expression} {op : BinaryOp} (level : op.level = n + 1)
    (after : List Token) :
    readChain n left (.operator op :: after) = (read n after).bind fun found =>
      if n + 1 = comparisonLevel then some (.binary op left found.1, found.2)
      else readChain n (.binary op left found.1) found.2 := by
  rw [readChain, chain, if_pos level, read]
  cases operand n after with
  | none => rfl
  | some found =>
    simp only [Option.map_some, Option.bind_some]
    split
    · rfl
    · simp only [Option.map_map, readChain]
      rfl

/-- The tokens do not go on with an operator of at most this level. -/
def Stops (n : Nat) (rest : List Token) : Prop := ∀ op, .operator op ∈ rest.head? → n < op.level

theorem readChain_stops {n : Nat} {rest : List Token} (stops : Stops (n + 1) rest)
    (left : Expression) : readChain n left rest = some (left, rest) := by
  rw [readChain]
  unfold chain
  split
  · next op after =>
    rw [if_neg (Nat.ne_of_gt (stops op rfl))]
    rfl
  · rfl

theorem Stops.tighter {n : Nat} {rest : List Token} (stops : Stops (n + 1) rest) : Stops n rest :=
  fun op first => Nat.lt_of_succ_lt (stops op first)

/-! ## An operand with the operators in front of it -/

theorem readSigned_number (text : List Char) (after : List Token) :
    readSigned (.number text :: after) = some (.number text, after) := by
  rw [readSigned, signed]
  rfl

theorem readSigned_path (first : String) (further : List String) (after : List Token) :
    readSigned (.path first further :: after) = some (.path first further, after) := by
  rw [readSigned, signed]
  rfl

theorem readSigned_token (op : UnaryOp) (after : List Token) :
    readSigned (op.token :: after) =
      (readSigned after).map fun found => (.unary op found.1, found.2) := by
  cases op <;>
  · rw [UnaryOp.token, readSigned, signed, readSigned, Option.map_map, Option.map_map]
    rfl

theorem readSigned_parens {e : Expression} {after rest : List Token}
    (inside : read loosest after = some (e, .closeParen :: rest)) :
    readSigned (.openParen :: after) = some (e, rest) := by
  obtain ⟨⟨e, ⟨left, shorter⟩⟩, found, same⟩ := Option.map_eq_some_iff.mp inside
  cases same
  rw [readSigned, signed, found]
  rfl

/-! ## What renders a tree is read as it -/

/-- Reading goes on behind the tokens with the tree as the left operand of a chain. -/
def Resumes (n : Nat) (e : Expression) (ts : List Token) : Prop :=
  ∀ ⦃rest⦄, Stops n rest → read (n + 1) (ts ++ rest) = readChain n e rest

/-- Reading ends behind the tokens with the tree. -/
def Ends (n : Nat) (e : Expression) (ts : List Token) : Prop :=
  ∀ ⦃rest⦄, Stops n rest → read n (ts ++ rest) = some (e, rest)

theorem Resumes.ends {n : Nat} {e : Expression} {ts : List Token} (resumes : Resumes n e ts) :
    Ends (n + 1) e ts := by
  intro rest stops
  rw [resumes stops.tighter, readChain_stops stops]

theorem Ends.resumes {n : Nat} {e : Expression} {ts : List Token} (ends : Ends n e ts) :
    Resumes n e ts := by
  intro rest stops
  rw [read_succ, ends stops, Option.bind_some]

/-- Behind a rendered tree reading ends, and where operators chain it can go on at the same
level. -/
theorem ends_of_renders {n : Nat} {e : Expression} {ts : List Token} (h : Renders n e ts) :
    Ends n e ts ∧ ∀ m, n = m + 1 → n ≠ comparisonLevel → Resumes m e ts := by
  induction h with
  | @number text =>
    refine ⟨fun rest _ => ?_, nofun⟩
    rw [List.singleton_append, read_zero, readSigned_number]
  | @path first further =>
    refine ⟨fun rest _ => ?_, nofun⟩
    rw [List.singleton_append, read_zero, readSigned_path]
  | @parens e ts inside inductionHypothesis =>
    refine ⟨fun rest _ => ?_, nofun⟩
    rw [read_zero, List.cons_append, List.append_assoc]
    exact readSigned_parens (inductionHypothesis.1 nofun)
  | @unary op e ts operand inductionHypothesis =>
    refine ⟨fun rest stops => ?_, nofun⟩
    rw [read_zero, List.cons_append, readSigned_token, ← read_zero, inductionHypothesis.1 stops,
      Option.map_some]
  | looser tighter inductionHypothesis =>
    have resumes := inductionHypothesis.1.resumes
    refine ⟨resumes.ends, ?_⟩
    rintro m ⟨⟩ -
    exact resumes
  | @chained n op left right ls rs level chains before behind ihBefore ihBehind =>
    -- The left operand does not end here: its own reading goes on with this operator.
    have resumes : Resumes n (.binary op left right) (ls ++ .operator op :: rs) := by
      intro rest stops
      have here : Stops n (.operator op :: (rs ++ rest)) := by
        rintro _ ⟨⟩
        omega
      rw [List.append_assoc, List.cons_append, ihBefore.2 n rfl chains here,
        readChain_operator level, ihBehind.1 stops, Option.bind_some, if_neg chains]
    refine ⟨resumes.ends, ?_⟩
    rintro m ⟨⟩ -
    exact resumes
  | @compared n op left right ls rs level compares before behind ihBefore ihBehind =>
    refine ⟨fun rest stops => ?_, fun _ _ unequal => absurd compares unequal⟩
    have here : Stops n (.operator op :: (rs ++ rest)) := by
      rintro _ ⟨⟩
      omega
    rw [List.append_assoc, List.cons_append, read_succ, ihBefore.1 here, Option.bind_some,
      readChain_operator level, ihBehind.1 stops.tighter, Option.bind_some, if_pos compares]

/-! ## What is read renders the tree that it is read as -/

/-- The minus sign in front of an operand is the one between operands, as it is in every text. -/
def Plain (ts : List Token) : Prop := .unary .neg ∉ ts

theorem Plain.tail {t : Token} {ts : List Token} (plain : Plain (t :: ts)) : Plain ts :=
  fun member => plain (List.mem_cons_of_mem t member)

theorem Plain.rest {used rest : List Token} (plain : Plain (used ++ rest)) : Plain rest :=
  fun member => plain (List.mem_append_right used member)

/-- Reading at a level takes tokens that render the tree. -/
def Sound (n : Nat) (ts : List Token) : Prop :=
  Plain ts → ∀ ⦃e rest⦄, read n ts = some (e, rest) → ∃ used, ts = used ++ rest ∧ Renders n e used

/-- Behind the tokens of a left operand, the further ones render the tree together with them. The
left operand of a comparison is a tighter one. -/
def ChainSound (n : Nat) (left : Expression) (ts : List Token) : Prop :=
  Plain ts → ∀ ⦃ls⦄, Renders (n + 1) left ls → (n + 1 = comparisonLevel → Renders n left ls) →
    ∀ ⦃e rest⦄, readChain n left ts = some (e, rest) →
      ∃ used, ts = used ++ rest ∧ Renders (n + 1) e (ls ++ used)

def SignedSound (ts : List Token) : Prop :=
  Plain ts → ∀ ⦃e rest⦄, readSigned ts = some (e, rest) →
    ∃ used, ts = used ++ rest ∧ Renders 0 e used

theorem read_of_operand {n : Nat} {ts rest : List Token} {e : Expression}
    {shorter : rest.length < ts.length} (found : operand n ts = some (e, ⟨rest, shorter⟩)) :
    read n ts = some (e, rest) := by
  rw [read, found, Option.map_some]

theorem read_none {n : Nat} {ts : List Token} (refused : operand n ts = none) :
    read n ts = none := by
  rw [read, refused, Option.map_none]

theorem ChainSound.stopped {n : Nat} {left : Expression} {ts : List Token}
    (stopped : readChain n left ts = some (left, ts)) : ChainSound n left ts := by
  intro plain ls renders _ e rest found
  cases stopped.symm.trans found
  exact ⟨[], rfl, by rwa [List.append_nil]⟩

variable {n : Nat} {left : Expression} {op : BinaryOp} {ts after : List Token}

theorem Sound.looser (before : Sound n ts)
    (chains : ∀ {left rest}, read n ts = some (left, rest) → ChainSound n left rest) :
    Sound (n + 1) ts := by
  intro plain e rest found
  rw [read_succ, Option.bind_eq_some_iff] at found
  obtain ⟨⟨left, behind⟩, leftRead, found⟩ := found
  obtain ⟨ls, rfl, renders⟩ := before plain leftRead
  obtain ⟨used, rfl, whole⟩ :=
    chains leftRead plain.rest renders.looser (fun _ => renders) found
  exact ⟨ls ++ used, (List.append_assoc ..).symm, whole⟩

theorem ChainSound.operator (level : op.level = n + 1) (behind : Sound n after)
    (chains : ∀ {right rest}, read n after = some (right, rest) → n + 1 ≠ comparisonLevel →
      ChainSound n (.binary op left right) rest) :
    ChainSound n left (.operator op :: after) := by
  intro plain ls renders tighter e rest found
  rw [readChain_operator level, Option.bind_eq_some_iff] at found
  obtain ⟨⟨right, further⟩, rightRead, found⟩ := found
  obtain ⟨rs, rfl, rightRenders⟩ := behind plain.tail rightRead
  by_cases compares : n + 1 = comparisonLevel
  · rw [if_pos compares] at found
    cases found
    exact ⟨.operator op :: rs, rfl, .compared level compares (tighter compares) rightRenders⟩
  · rw [if_neg compares] at found
    obtain ⟨used, rfl, whole⟩ := chains rightRead compares plain.tail.rest
      (.chained level compares renders rightRenders) (absurd · compares) found
    refine ⟨.operator op :: (rs ++ used), by simp, ?_⟩
    rwa [List.append_assoc, List.cons_append] at whole

theorem SignedSound.token (op : UnaryOp) (operand : SignedSound after) :
    SignedSound (op.token :: after) := by
  intro plain e rest found
  rw [readSigned_token, Option.map_eq_some_iff] at found
  obtain ⟨⟨inner, behind⟩, innerRead, found⟩ := found
  cases found
  obtain ⟨used, rfl, renders⟩ := operand plain.tail innerRead
  exact ⟨op.token :: used, rfl, .unary renders⟩

theorem SignedSound.parens (inside : Sound loosest after) :
    SignedSound (.openParen :: after) := by
  intro plain e rest found
  rw [readSigned, signed, Option.map_eq_some_iff] at found
  obtain ⟨closed, found, same⟩ := found
  split at found
  · next insideFound =>
    cases found
    cases same
    obtain ⟨used, rfl, renders⟩ := inside plain.tail (read_of_operand insideFound)
    exact ⟨.openParen :: (used ++ [.closeParen]), by simp, .parens renders⟩
  · cases found

/-- By induction on the descent itself: over the tokens, and over the levels at the same tokens. -/
theorem sound_all : (∀ n ts, Sound n ts) ∧ (∀ n left ts, ChainSound n left ts) ∧
    ∀ ts, SignedSound ts := by
  refine operand.mutual_induct Sound ChainSound SignedSound ?zero ?refused ?levels ?chainRefused
    ?compared ?chained ?looser ?other ?minus ?unary ?number ?path ?parens ?unclosed ?none
  case zero =>
    intro ts signed plain e rest found
    rw [read_zero] at found
    exact signed plain found
  case refused =>
    intro ts n refused before
    refine before.looser fun found => ?_
    cases (read_none refused).symm.trans found
  case levels =>
    intro ts n left rest _ leftFound before chains
    refine before.looser fun found => ?_
    cases (read_of_operand leftFound).symm.trans found
    exact chains
  case chainRefused =>
    intro n left op after level refused behind
    refine .operator level behind fun found => ?_
    cases (read_none refused).symm.trans found
  case compared =>
    intro n left op after level right rest _ _ _ compares behind
    exact .operator level behind fun _ unequal => absurd compares unequal
  case chained =>
    intro n left op after level right rest _ rightFound _ _ behind chains
    refine .operator level behind fun found _ => ?_
    cases (read_of_operand rightFound).symm.trans found
    exact chains
  case looser =>
    intro n left op after level
    refine .stopped ?_
    rw [readChain, chain, if_neg level]
    rfl
  case other =>
    intro n left ts noOperator
    refine .stopped ?_
    rw [readChain]
    unfold chain
    split
    · next op after => exact absurd rfl (noOperator op after)
    · rfl
  case minus => exact fun after operand => .token .neg operand
  case unary =>
    intro op after operand
    cases op with
    | neg => exact fun plain => absurd List.mem_cons_self plain
    | not => exact .token .not operand
    | complement => exact .token .complement operand
  case number =>
    intro text after _ e rest found
    cases (readSigned_number text after).symm.trans found
    exact ⟨[_], rfl, .number⟩
  case path =>
    intro first further after _ e rest found
    cases (readSigned_path first further after).symm.trans found
    exact ⟨[_], rfl, .path⟩
  case parens => exact fun after e rest _ _ inside => .parens inside
  case unclosed => exact fun after _ inside => .parens inside
  case none =>
    intro ts noMinus noUnary noNumber noPath noParen _ e rest found
    have refused : signed ts = none := by rw [signed] <;> assumption
    rw [readSigned, refused] at found
    cases found

theorem plain_of_written {ts : List Token} {cs : List Char} (h : Written ts cs) : Plain ts := by
  intro member
  obtain ⟨_, spells⟩ := spellable_iff.mpr ⟨cs, h⟩ _ member
  cases spells

theorem ofTokens?_eq_some_iff {ts : List Token} {e : Expression} :
    ofTokens? ts = some e ↔ read loosest ts = some (e, []) := by
  rw [ofTokens?, read]
  cases operand loosest ts with
  | none => exact iff_of_false nofun nofun
  | some found =>
    obtain ⟨found, ⟨rest, shorter⟩⟩ := found
    cases rest <;> simp

/-- A text is read as a tree exactly if it is a way to write it. -/
theorem parse?_eq_some_iff {text : String} {e : Expression} :
    parse? text = some e ↔ e.Rendering text := by
  rw [parse?, Option.bind_eq_some_iff]
  constructor
  · rintro ⟨ts, scanned, found⟩
    have written := written_of_tokens? scanned
    obtain ⟨used, rfl, renders⟩ :=
      sound_all.1 loosest ts (plain_of_written written) (ofTokens?_eq_some_iff.mp found)
    rw [List.append_nil] at written
    exact ⟨used, renders, written⟩
  · rintro ⟨ts, renders, written⟩
    refine ⟨ts, tokens?_of_written written renders.fits.chain, ofTokens?_eq_some_iff.mpr ?_⟩
    have ends : read loosest (ts ++ []) = some (e, []) := (ends_of_renders renders).1 nofun
    rwa [List.append_nil] at ends

/-- No text is a way to write two trees. -/
theorem Rendering.unique {text : String} {e e' : Expression} (h : e.Rendering text)
    (h' : e'.Rendering text) : e = e' :=
  Option.some.inj ((parse?_eq_some_iff.mpr h).symm.trans (parse?_eq_some_iff.mpr h'))

end BinaryTemplate.Expression
