import BinaryTemplate.Proofs.NumberTexts

/-!
# References as texts

A reference is printed and read back: a literal in decimal, an expression as it stands. Reading
trims a text before anything else, and trimming is a projection, so it takes no further blanks off
an expression and none off a decimal, and whatever blanks are put around a text are taken off again.
Only blank text is no reference, so an attribute that is not set is told from every literal.
-/

namespace BinaryTemplate

open Text (isBlank trim trimRight)

/-! ## Trimming -/

namespace Text

/-- A text without any character but blanks. -/
def Blank (text : String) : Prop := ∀ c ∈ text.toList, isBlank c = true

instance (text : String) : Decidable (Blank text) :=
  inferInstanceAs (Decidable (∀ c ∈ text.toList, isBlank c = true))

theorem dropWhile_blanks {blanks : List Char} (blank : ∀ c ∈ blanks, isBlank c = true)
    (cs : List Char) : (blanks ++ cs).dropWhile isBlank = cs.dropWhile isBlank :=
  List.dropWhile_append_of_pos blank

theorem trimRight_blanks {blanks : List Char} (blank : ∀ c ∈ blanks, isBlank c = true)
    (cs : List Char) : trimRight (cs ++ blanks) = trimRight cs := by
  rw [trimRight, List.reverse_append,
    dropWhile_blanks fun c member => blank c (List.mem_reverse.mp member), trimRight]

/-- Nothing is left of a text exactly if it is blank. -/
theorem trim_eq_nil_iff {cs : List Char} : trim cs = [] ↔ ∀ c ∈ cs, isBlank c = true := by
  constructor
  · intro nothing c member
    obtain ⟨front, back, split, before, behind⟩ := trim_split cs
    rw [split, nothing, List.nil_append, List.mem_append] at member
    exact member.elim (before c) (behind c)
  · intro blank
    rw [trim, List.dropWhile_eq_nil_iff.mpr blank]
    rfl

/-- Blanks that are put around a text are taken off with its own. -/
theorem trim_surrounded {front back : List Char} (before : ∀ c ∈ front, isBlank c = true)
    (behind : ∀ c ∈ back, isBlank c = true) (cs : List Char) :
    trim (front ++ (cs ++ back)) = trim cs := by
  rw [trim, dropWhile_blanks before, trim]
  by_cases blank : ∀ c ∈ cs, isBlank c = true
  · -- Of a blank text nothing is left at its front, so it is the blanks behind that are dropped.
    rw [dropWhile_blanks blank, List.dropWhile_eq_nil_iff.mpr blank,
      List.dropWhile_eq_nil_iff.mpr behind]
  · have kept : cs.dropWhile isBlank ≠ [] := fun nothing =>
      blank (List.dropWhile_eq_nil_iff.mp nothing)
    rw [List.dropWhile_append, if_neg (by simpa using kept), trimRight_blanks behind]

/-- Trimming is a projection, since a text is its trimmed text with blanks around it. -/
theorem trim_trim (cs : List Char) : trim (trim cs) = trim cs := by
  obtain ⟨front, back, split, before, behind⟩ := trim_split cs
  calc trim (trim cs) = trim (front ++ (trim cs ++ back)) :=
        (trim_surrounded before behind (trim cs)).symm
    _ = trim cs := by rw [← split]

theorem trim_of_unblank {cs : List Char} (unblank : ∀ c ∈ cs, isBlank c = false) :
    trim cs = cs := by
  obtain ⟨front, back, split, before, behind⟩ := trim_split cs
  have none {part : List Char} (within : ∀ c ∈ part, c ∈ cs)
      (blank : ∀ c ∈ part, isBlank c = true) : part = [] :=
    List.eq_nil_iff_forall_not_mem.mpr fun c member => by
      cases (unblank c (within c member)).symm.trans (blank c member)
  have noFront : front = [] := none (fun c member => by rw [split]; simp [member]) before
  have noBack : back = [] := none (fun c member => by rw [split]; simp [member]) behind
  rw [noFront, noBack, List.nil_append, List.append_nil] at split
  exact split.symm

end Text

/-! ## Decimals -/

/-- The decimal text of an integer is a number with at most one minus sign in front. -/
theorem signed_toString (i : Int) : Signed Numeral (toString i).toList i := by
  have denoted := denoted_toString i
  generalize (toString i).toList = text at denoted
  cases denoted with
  | dec number =>
    cases number with
    | plain digits => exact .plain (.decimal digits)
    | negative digits => exact .negative (.decimal digits)

theorem Signed.unblank {text : List Char} {i : Int} (h : Signed Numeral text i) :
    ∀ c ∈ text, isBlank c = false := by
  cases h with
  | plain number => exact number.unblank
  | negative number => exact List.forall_mem_cons.mpr ⟨rfl, number.unblank⟩

/-! ## References -/

namespace Reference

theorem parse_of_trim {text text' : String} (same : trim text.toList = trim text'.toList) :
    parse text = parse text' := by
  unfold parse
  rw [same]

theorem parse_surrounded {front back : String} (before : Text.Blank front)
    (behind : Text.Blank back) (text : String) : parse (front ++ text ++ back) = parse text :=
  parse_of_trim (by
    rw [String.toList_append, String.toList_append, List.append_assoc]
    exact Text.trim_surrounded before behind text.toList)

theorem parse_eq_none_iff {text : String} : parse text = none ↔ Text.Blank text := by
  rw [Text.Blank, ← Text.trim_eq_nil_iff]
  unfold parse
  split
  · next blank => exact ⟨fun _ => blank, fun _ => rfl⟩
  · next present =>
    constructor
    · intro h; cases h
    · intro blank; exact absurd blank present

theorem parse_eq_expression_iff {text e : String} :
    parse text = some (.expression e) ↔
      e = String.ofList (trim text.toList) ∧ trim text.toList ≠ [] ∧
        Literal.parse? (trim text.toList) = none := by
  unfold parse
  split
  · next blank =>
    constructor
    · intro h; cases h
    · rintro ⟨-, present, -⟩; exact absurd blank present
  · next present =>
    cases Literal.parse? (trim text.toList) with
    | some n => simp
    | none => exact ⟨by rintro ⟨⟩; exact ⟨rfl, present, rfl⟩, by rintro ⟨rfl, -, -⟩; rfl⟩

/-- The decimal of every integer of 64 bits is read as that integer, the least one included. -/
theorem parse_text_literal (n : Int64) : parse (text (.literal n)) = some (.literal n) := by
  have signed : Signed Numeral (text (.literal n)).toList n.toInt := signed_toString n.toInt
  rw [Evaluator.parse_eq_literal_iff, Text.trim_of_unblank signed.unblank,
    Literal.parse?_eq_some_iff]
  exact .inl signed

/-- What was read as an expression is read as the same one again, never as a literal. -/
theorem parse_text_expression {text e : String} (read : parse text = some (.expression e)) :
    parse e = some (.expression e) := by
  obtain ⟨rfl, present, noLiteral⟩ := parse_eq_expression_iff.mp read
  rw [parse_eq_expression_iff, String.toList_ofList, Text.trim_trim]
  exact ⟨rfl, present, noLiteral⟩

/-- Reading and printing references. A reference that was read from a text is read again from its
own text, and from the text it came from with any blanks around it; every integer of 64 bits is
read from its decimal; and blank texts, which are no texts of literals, are those without a
reference. -/
theorem reference_text_round_trips (text : String) :
    (∀ r, parse text = some r →
      parse r.text = some r ∧
        ∀ front back : String, Text.Blank front → Text.Blank back →
          parse (front ++ text ++ back) = some r) ∧
      (∀ n : Int64, parse (Reference.text (.literal n)) = some (.literal n)) ∧
      (parse text = none ↔ Text.Blank text) := by
  refine ⟨fun r read => ⟨?_, fun front back before behind => ?_⟩, parse_text_literal,
    parse_eq_none_iff⟩
  · cases r with
    | literal n => exact parse_text_literal n
    | expression e => exact parse_text_expression read
  · exact (parse_surrounded before behind text).trans read

/-- The least integer, written in hexadecimal and then with blanks around it. -/
theorem reference_text_round_trips_least :
    parse "-0x8000000000000000" = some (.literal Int64.minValue) ∧
      parse "-9223372036854775808" = some (.literal Int64.minValue) ∧
      parse "\u2003-0x8000000000000000 \n" = some (.literal Int64.minValue) := by
  have read : parse "-0x8000000000000000" = some (.literal Int64.minValue) := by decide
  obtain ⟨again, surrounded⟩ := (reference_text_round_trips "-0x8000000000000000").1 _ read
  exact ⟨read, again, surrounded "\u2003" " \n" (by simp [Text.Blank, isBlank])
    (by simp [Text.Blank, isBlank])⟩

example : parse "0" = some (.literal 0) ∧ parse " \t" = none := by decide

end Reference

end BinaryTemplate
