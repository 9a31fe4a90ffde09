import BinaryTemplate.Proofs.ExpressionMatching

/-!
# The grammar and reading by tokens agree

The grammar matches a text as a tree if and only if this is what is read, and fails on the other
texts. Reading takes the longest token that fits, while the grammar takes the first alternative that
does; what renders a tree is what both accept.
-/

namespace BinaryTemplate.Expression

open BinaryOp (loosest)
open ExpressionRule Peg

/-! ## The grammar ends on every text -/

variable {a b : Peg ExpressionRule} {cs : List Char} {n : Nat}

theorem endsOn_followed (first : EndsOn body a cs)
    (second : ∀ rest, rest.length ≤ cs.length → EndsOn body b rest) :
    EndsOn body (followed a b) cs :=
  first.seq fun _ mid taken => .seq ⟨_, matches_blanks mid⟩ fun _ rest blank =>
    second rest (blank.length_le.trans taken.length_le)

theorem endsOn_many (consumes : Consumes body a)
    (ends : ∀ rest, rest.length ≤ cs.length → EndsOn body a rest) : EndsOn body (many a) cs := by
  have again : ∀ rest, rest.length ≤ cs.length → EndsOn body (.seq blanks a) rest :=
    fun rest within => .seq ⟨_, matches_blanks rest⟩ fun _ _ blank =>
      ends _ (blank.length_le.trans within)
  refine .choice (.seq (ends cs le_rfl) fun _ rest taken => ?_) (endsOn_literal [] cs)
  exact .star consumes.seq_right fun _ noLonger => again _ (noLonger.trans taken.length_le)

theorem consumes_of_yields (nonempty : ∀ ⦃ms text⦄, Yields Means a ms text → text ≠ []) :
    Consumes body a := by
  intro input ms rest matched
  obtain ⟨text, rfl, yields⟩ := matched.yields means_of_yields
  have taken := List.length_pos_of_ne_nil (nonempty yields)
  rw [List.length_append]
  omega

theorem consumes_operator : Consumes body (.rule (.operator n)) := by
  refine consumes_of_yields fun ms text yields => ?_
  cases yields with
  | rule meant =>
    obtain ⟨op, -, rfl, -⟩ := meant
    cases op <;> decide

theorem consumes_unaryOperator : Consumes body (.rule .unaryOperator) := by
  refine consumes_of_yields fun ms text yields => ?_
  cases yields with
  | rule meant =>
    obtain ⟨op, same⟩ := meant
    cases op <;> cases same <;> decide

theorem consumes_name : Consumes body (.rule .name) :=
  (consumes_char _).seq_left.rule

theorem endsOn_operator (n : Nat) (cs : List Char) : EndsOn body (.rule (.operator n)) cs := by
  refine .rule ?_
  show EndsOn body (operatorBody n) cs
  unfold operatorBody
  split <;> first | exact ⟨_, matches_oneOf _ cs⟩ | exact ⟨_, matches_single _ cs⟩

theorem endsOn_unaryOperator (cs : List Char) : EndsOn body (.rule .unaryOperator) cs :=
  .rule ⟨_, matches_oneOf _ cs⟩

theorem endsOn_number (cs : List Char) : EndsOn body (.rule .number) cs := by
  have digits (accepts : Char → Bool) (cs : List Char) :
      EndsOn body (plus (.char accepts)) cs :=
    (endsOn_char accepts cs).seq fun _ rest _ => ⟨_, matches_star_char accepts rest⟩
  have marked (texts : List String) (accepts : Char → Bool) :
      EndsOn body (.seq (oneOf texts) (plus (.char accepts))) cs :=
    .seq ⟨_, matches_oneOf texts cs⟩ fun _ rest _ => digits accepts rest
  exact .rule (.choice (marked _ _) (.choice (marked _ _) (digits _ cs)))

theorem endsOn_name (cs : List Char) : EndsOn body (.rule .name) cs :=
  .rule ((endsOn_char _ cs).seq fun _ rest _ => ⟨_, matches_star_char _ rest⟩)

theorem endsOn_path (cs : List Char) : EndsOn body (.rule .path) cs := by
  have further (cs : List Char) : EndsOn body (.seq (.literal ['.']) (.rule .name)) cs :=
    (endsOn_literal _ cs).seq fun _ rest _ => endsOn_name rest
  exact .rule ((endsOn_name cs).seq fun _ _ _ =>
    .star consumes_name.seq_right fun rest _ => further rest)

/-- Only parentheses lead back to the loosest level, and there the first one is taken. -/
theorem endsOn_primary
    (inside : ∀ rest, rest.length < cs.length → EndsOn body (.rule (.level loosest)) rest) :
    EndsOn body primary cs := by
  refine .choice (endsOn_number cs) (.choice (endsOn_path cs) ?_)
  refine (endsOn_literal _ cs).seq fun _ mid opens => ?_
  refine .seq ⟨_, matches_blanks mid⟩ fun _ rest blank => ?_
  have shorter : rest.length < cs.length := by
    have noLonger := blank.length_le
    cases opens with
    | literal split =>
      rw [split, List.singleton_append, List.length_cons]
      omega
  exact endsOn_followed (inside rest shorter) fun other _ => endsOn_literal _ other

/-- By induction on the text, and for one text on the level. -/
theorem endsOn_level (n : Nat) (cs : List Char) : EndsOn body (.rule (.level n)) cs := by
  induction within : cs.length using Nat.strong_induction_on generalizing n cs with
  | _ size shorter =>
    subst within
    -- A level looks for its operands at the same text or behind it, but only tighter ones there.
    have upTo : ∀ n rest, rest.length ≤ cs.length → EndsOn body (.rule (.level n)) rest := by
      intro n
      induction n with
      | zero =>
        intro rest noLonger
        refine .rule (endsOn_followed ?_ fun other within => endsOn_primary fun behind less => ?_)
        · exact endsOn_many consumes_unaryOperator fun other _ => endsOn_unaryOperator other
        · exact shorter behind.length (by omega) _ behind rfl
      | succ n tighter =>
        intro rest noLonger
        have further : ∀ other, other.length ≤ cs.length → EndsOn body (further n) other :=
          fun other within => endsOn_followed (endsOn_operator _ other) fun behind noLonger =>
            tighter behind (noLonger.trans within)
        refine .rule (endsOn_followed (tighter rest noLonger) fun other within => ?_)
        split
        · exact .choice (further other (within.trans noLonger)) (endsOn_literal [] other)
        · exact endsOn_many consumes_operator.seq_left fun behind less =>
            further behind (less.trans (within.trans noLonger))
    exact upTo n cs le_rfl

theorem endsOn_whole {e : Peg ExpressionRule} (ends : ∀ cs, EndsOn body e cs) (cs : List Char) :
    EndsOn body (whole e) cs :=
  .seq ⟨_, matches_blanks cs⟩ fun _ rest _ => endsOn_followed (ends rest) fun other _ =>
    (endsOn_char _ other).not

/-! ## A match denotes one tree -/

theorem unaryMatch_injective : Function.Injective unaryMatch := by
  intro op op' same
  cases op <;> cases op' <;> first | rfl | cases same

theorem operatorMatch_injective : Function.Injective operatorMatch := by
  intro op op' same
  injection same with level symbol
  revert symbol
  cases op <;> cases op' <;>
    first | exact fun _ => rfl | exact fun symbol => absurd symbol (by decide)

theorem nameMatch_injective : Function.Injective nameMatch := by
  intro name name' same
  injection same with _ spelled
  exact String.toList_inj.mp spelled

theorem pathMatch_inj {first first' : String} {rest rest' : List String}
    (same : pathMatch first rest = pathMatch first' rest') : first = first' ∧ rest = rest' := by
  injection same with _ _ names
  exact List.cons.inj (List.map_injective_iff.mpr nameMatch_injective names)

theorem Denotes.of_path {first : String} {rest : List String} {e : Expression}
    (h : Denotes (pathMatch first rest) e) : e = .path first rest := by
  generalize same : pathMatch first rest = m at h
  cases h with
  | path =>
    obtain ⟨rfl, rfl⟩ := pathMatch_inj same
    rfl
  | number | signed | chain => cases same

theorem Denotes.of_signed {text : List Char} {ops : List UnaryOp} {m : Match ExpressionRule}
    {e : Expression} (h : Denotes ⟨.level 0, text, ops.map unaryMatch ++ [m]⟩ e) :
    ∃ operand, Denotes m operand ∧ e = ops.foldr .unary operand := by
  generalize same : Match.mk (.level 0) text (ops.map unaryMatch ++ [m]) = whole at h
  cases h with
  | signed operand =>
    injection same with _ _ parts
    obtain ⟨signs, parts⟩ := List.append_inj' parts rfl
    cases parts
    cases List.map_injective_iff.mpr unaryMatch_injective signs
    exact ⟨_, operand, rfl⟩
  | number | path | chain => cases same

theorem Grows.of_cons {left e : Expression} {op : BinaryOp} {m : Match ExpressionRule}
    {ms : List (Match ExpressionRule)} (h : Grows left (operatorMatch op :: m :: ms) e) :
    ∃ right, Denotes m right ∧ Grows (.binary op left right) ms e := by
  generalize same : operatorMatch op :: m :: ms = all at h
  cases h with
  | nil => cases same
  | cons operand others =>
    obtain ⟨operator, behind⟩ := List.cons.inj same
    cases behind
    cases operatorMatch_injective operator
    exact ⟨_, operand, others⟩

/-- A match denotes at most one tree, by induction on how it does. -/
theorem Denotes.unique {m : Match ExpressionRule} {e e' : Expression} (h : Denotes m e)
    (h' : Denotes m e') : e = e' := by
  refine @Denotes.rec (fun m e _ => ∀ ⦃e'⦄, Denotes m e' → e = e')
    (fun left ms e _ => ∀ ⦃e'⦄, Grows left ms e' → e = e') ?number ?path ?signed ?chain ?nil ?cons
    m e h e' h'
  case number =>
    intro text e' h'
    cases h'
    rfl
  case path =>
    intro first rest e' h'
    exact h'.of_path.symm
  case signed =>
    intro text ops m e _ same e' h'
    obtain ⟨operand, denotes, rfl⟩ := h'.of_signed
    rw [same denotes]
  case chain =>
    intro n text m ms left e _ _ sameFirst same e' h'
    cases h' with
    | chain first others =>
      rw [← sameFirst first] at others
      exact same others
  case nil =>
    intro left e' h'
    cases h'
    rfl
  case cons =>
    intro op m ms left right e _ _ sameRight same e' h'
    obtain ⟨right', denotes, others⟩ := h'.of_cons
    rw [← sameRight denotes] at others
    exact same others

/-! ## Agreement -/

theorem matches_whole {e : Peg ExpressionRule} {m : Match ExpressionRule} {rest : List Char}
    (matched : Matches body e (unspaced cs) (some ([m], rest))) (others : Writes [] rest) :
    Matches body (whole e) cs (some ([m], [])) := by
  have ended : Matches body finish (unspaced rest) (some ([], [])) := by
    rw [others.unspaced_nil]
    exact .not (.charFails nofun)
  exact matches_spaced (matches_followed matched ended)

/-- A text is read as a tree exactly if the grammar matches the whole of it as the tree. -/
theorem parse?_eq_some_iff_matches {text : String} {e : Expression} :
    parse? text = some e ↔
      ∃ m, Matches body (whole (.rule (.level loosest))) text.toList (some ([m], [])) ∧
        Denotes m e := by
  rw [parse?_eq_some_iff]
  constructor
  · rintro ⟨ts, renders, written⟩
    have writes : Writes (ts ++ []) text.toList := by
      rw [List.append_nil]
      exact ⟨written, renders.fits.chain⟩
    have last : Behind loosest [] := by
      rintro _ ⟨⟩
    obtain ⟨m, rest, matched, denotes, others⟩ :=
      (matchedAs_of_renders renders).completes last writes
    exact ⟨m, matches_whole matched others, denotes⟩
  · rintro ⟨m, matched, denotes⟩
    obtain ⟨-, m', e', ts, same, denotes', renders, written⟩ := written_of_whole matched
    cases same
    rw [denotes.unique denotes']
    exact ⟨ts, renders, written⟩

/-- What is not read is what the grammar fails on. -/
theorem parse?_eq_none_iff_matches {text : String} :
    parse? text = none ↔ Matches body (whole (.rule (.level loosest))) text.toList none := by
  obtain ⟨out, matched⟩ := endsOn_whole (endsOn_level loosest) text.toList
  constructor
  · intro unread
    obtain _ | ⟨ms, rest⟩ := out
    · exact matched
    · obtain ⟨rfl, m, e, ts, rfl, denotes, -⟩ := written_of_whole matched
      cases unread.symm.trans (parse?_eq_some_iff_matches.mpr ⟨m, matched, denotes⟩)
  · intro fails
    rw [Option.eq_none_iff_forall_ne_some]
    intro e parsed
    obtain ⟨m, matched, -⟩ := parse?_eq_some_iff_matches.mp parsed
    cases fails.unique matched

/-- A text has a lone path for its only token exactly if the grammar matches it as this path. -/
theorem tokens?_eq_path_iff_matches {cs : List Char} {first : String} {names : List String} :
    tokens? cs = some [.path first names] ↔
      Matches body (whole (.rule .path)) cs (some ([pathMatch first names], [])) := by
  constructor
  · intro scanned
    have writes : Writes [.path first names] cs := ⟨written_of_tokens? scanned, .singleton _⟩
    obtain ⟨_, rest, spelled, spells, stops, others⟩ := writes.first
    cases spells with
    | path all =>
      have path := matches_path all fun c first => (stops c first).1 trivial
      rw [← spelled] at path
      exact matches_whole path others
  · intro matched
    obtain ⟨-, _, _, _, blank, inside, blank', rfl⟩ := yields_whole matched
    generalize same : [pathMatch first names] = ms at inside
    cases inside with
    | rule meant =>
      obtain ⟨first', rest, all, isPath⟩ := meant
      obtain ⟨rfl, rfl⟩ := pathMatch_inj ((List.cons.inj same).1.trans isPath)
      cases isPath
      have behind : Written [.path first names] _ :=
        .unspaced (.path all) (.nil blank')
      exact tokens?_of_written (behind.blanks blank) (.singleton _)

end BinaryTemplate.Expression
