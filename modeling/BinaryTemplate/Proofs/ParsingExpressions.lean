import Mathlib

/-!
# Parsing expressions

A parsing expression chooses in order. A second alternative is only looked at where the first one
fails, a repetition goes on for as long as it can, and what comes behind reconsiders neither. How an
expression ends on a text is a relation, since an expression may also not end at all; it ends in at
most one way. It does end if each round of a repetition takes something and no rule leads back to
itself before something is taken.

What an expression matches is of the form that it describes. `Yields` is that form, in which an
alternative is any of the two and a repetition any number; it says nothing of what was looked at
before or behind.
-/

namespace BinaryTemplate

/-- A parsing expression over rules. -/
inductive Peg (ρ : Type) where
  | literal (text : List Char)
  | char (accepts : Char → Bool)
  | rule (name : ρ)
  | seq (first second : Peg ρ)
  | choice (first second : Peg ρ)
  | star (body : Peg ρ)
  /-- Matches nothing, where the body fails. -/
  | not (body : Peg ρ)

/-- What a rule has matched, with what the rules inside it have. -/
inductive Match (ρ : Type) where
  | mk (rule : ρ) (text : List Char) (inner : List (Match ρ))

namespace Peg

variable {ρ : Type}

def optional (e : Peg ρ) : Peg ρ := .choice e (.literal [])

def plus (e : Peg ρ) : Peg ρ := .seq e (.star e)

/-- The first one of the texts with which the input starts. -/
def oneOf : List String → Peg ρ
  -- No character is accepted, so this fails on every input.
  | [] => .char fun _ => false
  | text :: texts => .choice (.literal text.toList) (oneOf texts)

/-- The end of the input. -/
def finish : Peg ρ := .not (.char fun _ => true)

/-- What the rules of an expression have matched, with the rest of the input, or that it fails. -/
abbrev Outcome (ρ : Type) := Option (List (Match ρ) × List Char)

variable (g : ρ → Peg ρ)

/-- An expression over the rules of a grammar ends on an input in this way. -/
inductive Matches : Peg ρ → List Char → Outcome ρ → Prop
  | literal {text input rest : List Char} (split : input = text ++ rest) :
      Matches (.literal text) input (some ([], rest))
  | literalFails {text input : List Char} (differs : ¬ text <+: input) :
      Matches (.literal text) input none
  | char {accepts : Char → Bool} {c : Char} {rest : List Char} (accepted : accepts c = true) :
      Matches (.char accepts) (c :: rest) (some ([], rest))
  | charFails {accepts : Char → Bool} {input : List Char}
      (refused : ∀ c ∈ input.head?, accepts c = false) : Matches (.char accepts) input none
  | rule {name : ρ} {input text rest : List Char} {inner : List (Match ρ)}
      (body : Matches (g name) input (some (inner, rest))) (split : input = text ++ rest) :
      Matches (.rule name) input (some ([⟨name, text, inner⟩], rest))
  | ruleFails {name : ρ} {input : List Char} (body : Matches (g name) input none) :
      Matches (.rule name) input none
  | seq {a b : Peg ρ} {input mid rest : List Char} {ms ms' : List (Match ρ)}
      (first : Matches a input (some (ms, mid))) (second : Matches b mid (some (ms', rest))) :
      Matches (.seq a b) input (some (ms ++ ms', rest))
  | seqFails {a b : Peg ρ} {input : List Char} (first : Matches a input none) :
      Matches (.seq a b) input none
  | seqBreaks {a b : Peg ρ} {input mid : List Char} {ms : List (Match ρ)}
      (first : Matches a input (some (ms, mid))) (second : Matches b mid none) :
      Matches (.seq a b) input none
  | choice {a b : Peg ρ} {input rest : List Char} {ms : List (Match ρ)}
      (first : Matches a input (some (ms, rest))) : Matches (.choice a b) input (some (ms, rest))
  | choiceElse {a b : Peg ρ} {input : List Char} {out : Outcome ρ} (first : Matches a input none)
      (second : Matches b input out) : Matches (.choice a b) input out
  | star {a : Peg ρ} {input mid rest : List Char} {ms ms' : List (Match ρ)}
      (body : Matches a input (some (ms, mid)))
      (again : Matches (.star a) mid (some (ms', rest))) :
      Matches (.star a) input (some (ms ++ ms', rest))
  | starEnds {a : Peg ρ} {input : List Char} (body : Matches a input none) :
      Matches (.star a) input (some ([], input))
  | not {a : Peg ρ} {input : List Char} (body : Matches a input none) :
      Matches (.not a) input (some ([], input))
  | notFails {a : Peg ρ} {input rest : List Char} {ms : List (Match ρ)}
      (body : Matches a input (some (ms, rest))) : Matches (.not a) input none

variable {g} {e a b : Peg ρ} {input rest : List Char} {out out' : Outcome ρ} {ms : List (Match ρ)}

/-- An expression ends in one way. -/
theorem Matches.unique (h : Matches g e input out) (h' : Matches g e input out') : out = out' := by
  induction h generalizing out' with
  | literal split =>
    cases h' with
    | literal split' => rw [List.append_cancel_left (split.symm.trans split')]
    | literalFails differs => exact absurd ⟨_, split.symm⟩ differs
  | literalFails differs =>
    cases h' with
    | literal split => exact absurd ⟨_, split.symm⟩ differs
    | literalFails => rfl
  | char accepted =>
    cases h' with
    | char => rfl
    | charFails refused => cases accepted.symm.trans (refused _ rfl)
  | charFails refused =>
    cases h' with
    | char accepted => cases accepted.symm.trans (refused _ rfl)
    | charFails => rfl
  | rule _ split inductionHypothesis =>
    cases h' with
    | rule body split' =>
      cases inductionHypothesis body
      rw [List.append_cancel_right (split.symm.trans split')]
    | ruleFails body => cases inductionHypothesis body
  | ruleFails _ inductionHypothesis =>
    cases h' with
    | rule body => cases inductionHypothesis body
    | ruleFails => rfl
  | seq _ _ ihFirst ihSecond =>
    cases h' with
    | seq first second =>
      cases ihFirst first
      cases ihSecond second
      rfl
    | seqFails first => cases ihFirst first
    | seqBreaks first second =>
      cases ihFirst first
      cases ihSecond second
  | seqFails _ ihFirst =>
    cases h' with
    | seq first | seqBreaks first => cases ihFirst first
    | seqFails => rfl
  | seqBreaks _ _ ihFirst ihSecond =>
    cases h' with
    | seq first second =>
      cases ihFirst first
      cases ihSecond second
    | seqFails | seqBreaks => rfl
  | choice _ ihFirst =>
    cases h' with
    | choice first => exact ihFirst first
    | choiceElse first => cases ihFirst first
  | choiceElse _ _ ihFirst ihSecond =>
    cases h' with
    | choice first => cases ihFirst first
    | choiceElse _ second => exact ihSecond second
  | star _ _ ihBody ihAgain =>
    cases h' with
    | star body again =>
      cases ihBody body
      cases ihAgain again
      rfl
    | starEnds body => cases ihBody body
  | starEnds _ ihBody =>
    cases h' with
    | star body => cases ihBody body
    | starEnds => rfl
  | not _ ihBody =>
    cases h' with
    | not => rfl
    | notFails body => cases ihBody body
  | notFails _ ihBody =>
    cases h' with
    | not body => cases ihBody body
    | notFails => rfl

/-- One behind the other, where neither has a rule in it. -/
theorem Matches.tokens {mid : List Char} (first : Matches g a input (some ([], mid)))
    (second : Matches g b mid (some ([], rest))) : Matches g (.seq a b) input (some ([], rest)) :=
  .seq first second

/-- What is behind the first one of the texts with which the input starts. -/
def behindFirst : List String → List Char → Option (List Char)
  | [], _ => none
  | text :: texts, input =>
    if text.toList.isPrefixOf input then some (input.drop text.toList.length)
    else behindFirst texts input

theorem matches_oneOf (texts : List String) (input : List Char) :
    Matches g (oneOf texts) input ((behindFirst texts input).map ([], ·)) := by
  induction texts with
  | nil => exact .charFails fun _ _ => rfl
  | cons text texts inductionHypothesis =>
    rw [behindFirst]
    by_cases starts : text.toList.isPrefixOf input = true
    · rw [if_pos starts]
      obtain ⟨rest, rfl⟩ := List.isPrefixOf_iff_prefix.mp starts
      rw [List.drop_left]
      exact .choice (.literal rfl)
    · rw [if_neg starts]
      exact .choiceElse (.literalFails (mt List.isPrefixOf_iff_prefix.mpr starts))
        inductionHypothesis

theorem matches_star_char (accepts : Char → Bool) (input : List Char) :
    Matches g (.star (.char accepts)) input (some ([], input.dropWhile accepts)) := by
  induction input with
  | nil => exact .starEnds (.charFails nofun)
  | cons c rest inductionHypothesis =>
    cases accepted : accepts c with
    | true =>
      rw [List.dropWhile_cons_of_pos accepted]
      exact .star (.char accepted) inductionHypothesis
    | false =>
      rw [List.dropWhile_cons_of_neg (Bool.eq_false_iff.mp accepted)]
      refine .starEnds (.charFails ?_)
      rintro _ ⟨⟩
      exact accepted

theorem oneOf_fails {texts : List String} (differ : ∀ text ∈ texts, ¬ text.toList <+: input) :
    Matches g (oneOf texts) input none := by
  induction texts with
  | nil => exact .charFails fun _ _ => rfl
  | cons text texts inductionHypothesis =>
    obtain ⟨differs, others⟩ := List.forall_mem_cons.mp differ
    exact .choiceElse (.literalFails differs) (inductionHypothesis others)

/-! ## The form of what is matched -/

/-- A text has the form of an expression, with these matches in it, each of which means what its
rule does. -/
inductive Yields (means : Match ρ → Prop) : Peg ρ → List (Match ρ) → List Char → Prop
  | literal {text : List Char} : Yields means (.literal text) [] text
  | char {accepts : Char → Bool} {c : Char} (accepted : accepts c = true) :
      Yields means (.char accepts) [] [c]
  | rule {name : ρ} {text : List Char} {inner : List (Match ρ)}
      (meant : means ⟨name, text, inner⟩) : Yields means (.rule name) [⟨name, text, inner⟩] text
  | seq {a b : Peg ρ} {ms ms' : List (Match ρ)} {cs cs' : List Char} (first : Yields means a ms cs)
      (second : Yields means b ms' cs') : Yields means (.seq a b) (ms ++ ms') (cs ++ cs')
  | left {a b : Peg ρ} {ms : List (Match ρ)} {cs : List Char} (first : Yields means a ms cs) :
      Yields means (.choice a b) ms cs
  | right {a b : Peg ρ} {ms : List (Match ρ)} {cs : List Char} (second : Yields means b ms cs) :
      Yields means (.choice a b) ms cs
  | none {a : Peg ρ} : Yields means (.star a) [] []
  | more {a : Peg ρ} {ms ms' : List (Match ρ)} {cs cs' : List Char} (body : Yields means a ms cs)
      (again : Yields means (.star a) ms' cs') : Yields means (.star a) (ms ++ ms') (cs ++ cs')
  | not {a : Peg ρ} : Yields means (.not a) [] []

/-- If every rule means at least what its own form says, then what is matched has the form of its
expression. -/
theorem Matches.yields {means : Match ρ → Prop}
    (closed : ∀ {name inner cs}, Yields means (g name) inner cs → means ⟨name, cs, inner⟩)
    (h : Matches g e input (some (ms, rest))) :
    ∃ cs, input = cs ++ rest ∧ Yields means e ms cs := by
  generalize ended : some (ms, rest) = out at h
  induction h generalizing ms rest with
  | literalFails | charFails | ruleFails | seqFails | seqBreaks | notFails => cases ended
  | literal split =>
    cases ended
    exact ⟨_, split, .literal⟩
  | char accepted =>
    cases ended
    exact ⟨[_], rfl, .char accepted⟩
  | rule _ split inductionHypothesis =>
    cases ended
    -- The text that the match records is the one that its body has matched.
    obtain ⟨cs, split', yields⟩ := inductionHypothesis rfl
    obtain rfl := List.append_cancel_right (split.symm.trans split')
    exact ⟨_, split, .rule (closed yields)⟩
  | seq _ _ ihFirst ihSecond =>
    cases ended
    obtain ⟨cs, rfl, first⟩ := ihFirst rfl
    obtain ⟨cs', rfl, second⟩ := ihSecond rfl
    exact ⟨cs ++ cs', (List.append_assoc ..).symm, .seq first second⟩
  | choice _ ihFirst =>
    obtain ⟨cs, split, first⟩ := ihFirst ended
    exact ⟨cs, split, .left first⟩
  | choiceElse _ _ _ ihSecond =>
    obtain ⟨cs, split, second⟩ := ihSecond ended
    exact ⟨cs, split, .right second⟩
  | star _ _ ihBody ihAgain =>
    cases ended
    obtain ⟨cs, rfl, body⟩ := ihBody rfl
    obtain ⟨cs', rfl, again⟩ := ihAgain rfl
    exact ⟨cs ++ cs', (List.append_assoc ..).symm, .more body again⟩
  | starEnds =>
    cases ended
    exact ⟨[], rfl, .none⟩
  | not =>
    cases ended
    exact ⟨[], rfl, .not⟩

/-- What is matched is in front of the rest. -/
theorem Matches.split (h : Matches g e input (some (ms, rest))) : ∃ cs, input = cs ++ rest := by
  obtain ⟨cs, split, -⟩ := h.yields fun (_ : Yields (fun _ => True) _ _ _) => trivial
  exact ⟨cs, split⟩

variable {means : Match ρ → Prop} {accepts : Char → Bool} {cs : List Char}

theorem Yields.star_char (h : Yields means (.star (.char accepts)) ms cs) :
    ms = [] ∧ ∀ c ∈ cs, accepts c = true := by
  generalize same : Peg.star (.char accepts) = e at h
  induction h with
  | more body _ _ inductionHypothesis =>
    cases same
    cases body with
    | char accepted =>
      obtain ⟨rfl, all⟩ := inductionHypothesis rfl
      exact ⟨rfl, List.forall_mem_cons.mpr ⟨accepted, all⟩⟩
  | none => exact ⟨rfl, List.forall_mem_nil _⟩
  | _ => cases same

theorem Yields.plus_char (h : Yields means (plus (.char accepts)) ms cs) :
    ms = [] ∧ cs ≠ [] ∧ ∀ c ∈ cs, accepts c = true := by
  cases h with
  | seq first others =>
    cases first with
    | char accepted =>
      obtain ⟨rfl, all⟩ := others.star_char
      exact ⟨rfl, List.cons_ne_nil _ _, List.forall_mem_cons.mpr ⟨accepted, all⟩⟩

theorem Yields.oneOf {texts : List String} (h : Yields means (oneOf texts) ms cs) :
    ms = [] ∧ ∃ text ∈ texts, cs = text.toList := by
  induction texts with
  | nil =>
    cases h with
    | char accepted => cases accepted
  | cons text texts inductionHypothesis =>
    cases h with
    | left first =>
      cases first
      exact ⟨rfl, text, List.mem_cons_self, rfl⟩
    | right second =>
      obtain ⟨none, other, member, same⟩ := inductionHypothesis second
      exact ⟨none, other, List.mem_cons_of_mem _ member, same⟩

/-! ## Where an expression ends -/

/-- On some input an expression succeeds or fails. -/
def EndsOn (g : ρ → Peg ρ) (e : Peg ρ) (input : List Char) : Prop := ∃ out, Matches g e input out

/-- Wherever an expression succeeds, it has taken something. -/
def Consumes (g : ρ → Peg ρ) (e : Peg ρ) : Prop :=
  ∀ ⦃input ms rest⦄, Matches g e input (some (ms, rest)) → rest.length < input.length

theorem Matches.length_le {ms : List (Match ρ)} {rest : List Char}
    (h : Matches g a input (some (ms, rest))) : rest.length ≤ input.length := by
  obtain ⟨cs, rfl⟩ := h.split
  simp

theorem endsOn_literal (text input : List Char) : EndsOn g (.literal text) input := by
  by_cases begins : text <+: input
  · obtain ⟨rest, rfl⟩ := begins
    exact ⟨_, .literal rfl⟩
  · exact ⟨_, .literalFails begins⟩

theorem endsOn_char (accepts : Char → Bool) (input : List Char) :
    EndsOn g (.char accepts) input := by
  cases input with
  | nil => exact ⟨_, .charFails nofun⟩
  | cons c rest =>
    cases accepted : accepts c with
    | true => exact ⟨_, .char accepted⟩
    | false =>
      refine ⟨_, .charFails ?_⟩
      rintro _ ⟨⟩
      exact accepted

theorem EndsOn.rule {name : ρ} (h : EndsOn g (g name) input) : EndsOn g (.rule name) input := by
  obtain ⟨_ | ⟨ms, rest⟩, body⟩ := h
  · exact ⟨_, .ruleFails body⟩
  · obtain ⟨text, split⟩ := body.split
    exact ⟨_, .rule body split⟩

theorem EndsOn.seq (first : EndsOn g a input)
    (second : ∀ ⦃ms rest⦄, Matches g a input (some (ms, rest)) → EndsOn g b rest) :
    EndsOn g (.seq a b) input := by
  obtain ⟨_ | ⟨ms, rest⟩, matched⟩ := first
  · exact ⟨_, .seqFails matched⟩
  · obtain ⟨_ | ⟨ms', rest'⟩, further⟩ := second matched
    · exact ⟨_, .seqBreaks matched further⟩
    · exact ⟨_, .seq matched further⟩

theorem EndsOn.choice (first : EndsOn g a input) (second : EndsOn g b input) :
    EndsOn g (.choice a b) input := by
  obtain ⟨_ | ⟨ms, rest⟩, matched⟩ := first
  · obtain ⟨out, further⟩ := second
    exact ⟨_, .choiceElse matched further⟩
  · exact ⟨_, .choice matched⟩

theorem EndsOn.not (h : EndsOn g a input) : EndsOn g (.not a) input := by
  obtain ⟨_ | ⟨ms, rest⟩, matched⟩ := h
  · exact ⟨_, .not matched⟩
  · exact ⟨_, .notFails matched⟩

/-- A repetition ends, since each round leaves less to go on with. -/
theorem EndsOn.star (consumes : Consumes g a)
    (ends : ∀ rest, rest.length ≤ input.length → EndsOn g a rest) : EndsOn g (.star a) input := by
  induction within : input.length using Nat.strong_induction_on generalizing input with
  | _ size inductionHypothesis =>
    subst within
    obtain ⟨_ | ⟨ms, rest⟩, matched⟩ := ends input le_rfl
    · exact ⟨_, .starEnds matched⟩
    · -- What the round has left is shorter, so the rounds behind it end.
      have shorter := consumes matched
      obtain ⟨_ | ⟨ms', rest'⟩, again⟩ := inductionHypothesis rest.length shorter
        (fun other noLonger => ends other (noLonger.trans shorter.le)) rfl
      · cases again
      · exact ⟨_, .star matched again⟩

theorem Consumes.seq_left (first : Consumes g a) : Consumes g (.seq a b) := by
  intro input ms rest h
  cases h with
  | seq matched further => exact further.length_le.trans_lt (first matched)

theorem Consumes.seq_right (second : Consumes g b) : Consumes g (.seq a b) := by
  intro input ms rest h
  cases h with
  | seq matched further => exact (second further).trans_le matched.length_le

theorem Consumes.rule {name : ρ} (h : Consumes g (g name)) : Consumes g (.rule name) := by
  intro input ms rest matched
  cases matched with
  | rule body => exact h body

theorem consumes_char (accepts : Char → Bool) : Consumes g (.char accepts) := by
  intro input ms rest h
  cases h
  simp

end Peg

end BinaryTemplate
