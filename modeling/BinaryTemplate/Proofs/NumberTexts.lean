import BinaryTemplate.Proofs.LiteralText
import BinaryTemplate.Proofs.Masks
import BinaryTemplate.Value.Render

/-!
# The texts of numbers

What the text of an integer denotes when it is read back: the integer itself in decimal, and in the
other bases its pattern in a field of the width that it is rendered with. Numbers that are read fit
their width, so no two numbers of a kind and a width have the same text. A computed number need not
fit, and then its pattern lacks the digits in front, whatever its sign.
-/

namespace BinaryTemplate

open Text.Numeral (digit? digitOf?)

/-! ## Digits -/

theorem DigitsOf.unique {base m n : Nat} {text : List Char} (first : DigitsOf base text m)
    (second : DigitsOf base text n) : m = n :=
  Option.some.inj (first.parse?.symm.trans second.parse?)

theorem DigitsOf.single {base d : Nat} {c : Char} (digit : digitOf? base c = some d) :
    DigitsOf base [c] d :=
  ⟨[d], List.cons_ne_nil _ _, .cons digit .nil, Nat.ofDigits_singleton.symm⟩

theorem DigitsOf.concat {base n d : Nat} {text : List Char} {c : Char} (h : DigitsOf base text n)
    (digit : digitOf? base c = some d) : DigitsOf base (text ++ [c]) (base * n + d) := by
  obtain ⟨values, -, each, rfl⟩ := h
  refine ⟨values ++ [d], by simp, List.rel_append each (.cons digit .nil), ?_⟩
  rw [List.reverse_concat, Nat.ofDigits_cons, Nat.add_comm]

/-- The digits that are printed denote the number, in whatever case they are. -/
theorem digitsOf_map_toDigits {base : Nat} (large : 1 < base) (small : base ≤ 16)
    {letter : Char → Char} (digit : ∀ d < 16, digit? (letter d.digitChar) = some d) (n : Nat) :
    DigitsOf base ((Nat.toDigits base n).map letter) n := by
  have digitOf {d : Nat} (below : d < base) : digitOf? base (letter d.digitChar) = some d := by
    rw [digitOf?, digit d (below.trans_le small), Option.filter_some, if_pos (decide_eq_true below)]
  induction n using Nat.strongRecOn with
  | ind n inductionHypothesis =>
    obtain below | above := Nat.lt_or_ge n base
    · rw [Nat.toDigits_of_lt_base below]
      exact .single (digitOf below)
    · have smaller : n / base < n := Nat.div_lt_self (by omega) large
      have all := (inductionHypothesis _ smaller).concat (digitOf (Nat.mod_lt n (by omega)))
      rw [Nat.div_add_mod] at all
      rw [Nat.toDigits_of_base_le large above, List.map_append]
      exact all

theorem digitsOf_toDigits {base : Nat} (large : 1 < base) (small : base ≤ 16) (n : Nat) :
    DigitsOf base (Nat.toDigits base n) n := by
  have printed := @digitsOf_map_toDigits _ large small id (by decide) n
  rwa [List.map_id] at printed

/-! ## What a text denotes -/

/-- The integer that a text denotes in a base: an optionally signed decimal, or the digits behind
the mark of the base. -/
inductive Denoted : Radix → List Char → Int → Prop
  | dec {text : List Char} {i : Int} (number : Signed (DigitsOf 10) text i) : Denoted .dec text i
  | hex {digits : List Char} {n : Nat} (number : DigitsOf 16 digits n) :
      Denoted .hex ('0' :: 'x' :: digits) n
  | octal {digits : List Char} {n : Nat} (number : DigitsOf 8 digits n) :
      Denoted .octal ('0' :: 'o' :: digits) n
  | binary {digits : List Char} {n : Nat} (number : DigitsOf 2 digits n) :
      Denoted .binary ('0' :: 'b' :: digits) n

theorem Signed.unique {text : List Char} {i j : Int} (first : Signed (DigitsOf 10) text i)
    (second : Signed (DigitsOf 10) text j) : i = j := by
  cases first with
  | plain number =>
    cases second with
    | plain number' => rw [number.unique number']
    | negative => cases number.digit _ List.mem_cons_self
  | negative number =>
    cases second with
    | plain number' => cases number'.digit _ List.mem_cons_self
    | negative number' => rw [number.unique number']

theorem Denoted.unique {radix : Radix} {text : List Char} {i j : Int} (first : Denoted radix text i)
    (second : Denoted radix text j) : i = j := by
  cases first with
  | dec number =>
    cases second with
    | dec number' => exact number.unique number'
  | hex number =>
    cases second with
    | hex number' => rw [number.unique number']
  | octal number =>
    cases second with
    | octal number' => rw [number.unique number']
  | binary number =>
    cases second with
    | binary number' => rw [number.unique number']

theorem denoted_toString (i : Int) : Denoted .dec (toString i).toList i := by
  have digits (n : Nat) : DigitsOf 10 (Nat.toDigits 10 n) n :=
    digitsOf_toDigits (by decide) (by decide) n
  cases i with
  | ofNat n =>
    have text : (toString (Int.ofNat n)).toList = Nat.toDigits 10 n := Nat.toList_repr
    rw [text]
    exact .dec (.plain (digits n))
  | negSucc n =>
    have text : (toString (Int.negSucc n)).toList = '-' :: Nat.toDigits 10 (n + 1) := by
      show ("-" ++ Nat.repr (n + 1)).toList = _
      rw [String.toList_append, Nat.toList_repr]
      rfl
    rw [text]
    exact .dec (.negative (digits (n + 1)))

namespace NumberValue

theorem denoted_patternText {radix : Radix} (marked : radix ≠ .dec) (bits : Nat) :
    Denoted radix (patternText radix bits).toList bits := by
  have text (mark : String) (digits : List Char) :
      (mark ++ String.ofList digits).toList = mark.toList ++ digits := by
    rw [String.toList_append, String.toList_ofList]
  cases radix with
  | dec => exact absurd rfl marked
  | hex =>
    rw [patternText, text]
    exact .hex (digitsOf_map_toDigits (by decide) (by decide) (by decide) bits)
  | octal =>
    rw [patternText, text]
    exact .octal (digitsOf_toDigits (by decide) (by decide) bits)
  | binary =>
    rw [patternText, text]
    exact .binary (digitsOf_toDigits (by decide) (by decide) bits)

/-- The width of the patterns that are shown. -/
def fieldWidth (width : Nat) : Nat := if 0 < width ∧ width < 64 then width else 64

/-- The integer that is shown for another one. -/
def shown (radix : Radix) (width : Nat) (i : Int) : Int :=
  if radix = .dec then i else i % 2 ^ fieldWidth width

variable {kind : NumberKind} {value : NumberValue} {i : Int}

/-- The bits of an integer are its pattern of 64 bits, whatever its kind. -/
theorem rawBits_of_denotes (h : kind.Denotes value i) :
    value.rawBits.toNat = Bits.pattern 64 i := by
  cases h with
  | unsigned n =>
    have same : (Bits.pattern 64 n.toNat : Int) = n.toNat :=
      Bits.pattern_of_nonneg (by omega) (by have := n.toNat_lt; omega)
    exact_mod_cast same.symm
  | signed n =>
    have bits := Bits.toNat_ofInt n.toInt
    rw [Int64.ofInt_toInt] at bits
    exact bits

theorem fieldBits_pattern (width : Nat) (i : Int) :
    fieldBits (Bits.pattern 64 i) width = Bits.pattern (fieldWidth width) i := by
  unfold fieldBits fieldWidth
  split
  · next field => rw [Bits.patterns_eq, Bits.pattern_mod field.2.le]
  · rfl

theorem format_dec (h : kind.Denotes value i) (width : Nat) :
    value.format .dec width = toString i := by
  cases h <;> rfl

theorem format_pattern (h : kind.Denotes value i) {radix : Radix} (marked : radix ≠ .dec)
    (width : Nat) :
    value.format radix width = patternText radix (Bits.pattern (fieldWidth width) i) := by
  rw [← fieldBits_pattern, ← rawBits_of_denotes h]
  cases h <;> cases radix <;> first | rfl | exact absurd rfl marked

theorem shown_pattern {radix : Radix} (marked : radix ≠ .dec) (width : Nat) (i : Int) :
    shown radix width i = Bits.pattern (fieldWidth width) i := by
  rw [shown, if_neg marked, Bits.natCast_pattern]

/-- The text of an integer denotes the integer in decimal and its pattern in other bases. -/
theorem denoted_format (h : kind.Denotes value i) (radix : Radix) (width : Nat) :
    Denoted radix (value.format radix width).toList (shown radix width i) := by
  by_cases decimal : radix = .dec
  · subst decimal
    rw [format_dec h]
    exact denoted_toString i
  · rw [format_pattern h decimal, shown_pattern decimal]
    exact denoted_patternText decimal _

theorem shown_eq_self {width : Nat} (lower : 0 ≤ i) (upper : i < 2 ^ fieldWidth width)
    (radix : Radix) : shown radix width i = i := by
  unfold shown
  split
  · rfl
  · exact Int.emod_eq_of_lt lower upper

variable {kind' : NumberKind} {value' : NumberValue} {j : Int}

/-- The texts of two integers are the same exactly if the same is shown for both. -/
theorem format_eq_format_iff (h : kind.Denotes value i) (h' : kind'.Denotes value' j)
    (radix : Radix) (width : Nat) :
    value.format radix width = value'.format radix width ↔
      shown radix width i = shown radix width j := by
  constructor
  · intro same
    have denoted := denoted_format h radix width
    rw [same] at denoted
    exact denoted.unique (denoted_format h' radix width)
  · intro same
    by_cases decimal : radix = .dec
    · subst decimal
      rw [format_dec h, format_dec h']
      exact congrArg toString same
    · rw [shown_pattern decimal, shown_pattern decimal, Int.ofNat_inj] at same
      rw [format_pattern h decimal, format_pattern h' decimal, same]

theorem fieldWidth_pos (width : Nat) : 0 < fieldWidth width := by
  unfold fieldWidth
  split <;> omega

theorem fieldWidth_eq {width : Nat} (some_ : 0 < width) (most : width ≤ 64) :
    fieldWidth width = width := by
  unfold fieldWidth
  split <;> omega

end NumberValue

/-- Integers that numbers of a kind and a width can have differ in their patterns. -/
theorem NumberKind.Ranges.eq_of_pattern {kind : NumberKind} {width : Nat} {i j : Int}
    (some_ : 0 < width) (first : kind.Ranges width i) (second : kind.Ranges width j)
    (same : Bits.pattern width i = Bits.pattern width j) : i = j := by
  cases kind with
  | unsigned =>
    rw [← Bits.pattern_of_nonneg first.1 first.2, same, Bits.pattern_of_nonneg second.1 second.2]
  | signed =>
    rw [← Bits.signed_pattern some_ first.1 first.2, same,
      Bits.signed_pattern some_ second.1 second.2]
  | float => exact first.elim

namespace NumberValue

/-- Two numbers of a kind that fit their width have different texts. -/
theorem eq_of_format_eq {kind : NumberKind} {value value' : NumberValue} {i j : Int}
    {radix : Radix} {width : Nat} (h : kind.Denotes value i) (h' : kind.Denotes value' j)
    (fits : kind.Ranges (fieldWidth width) i) (fits' : kind.Ranges (fieldWidth width) j)
    (same : value.format radix width = value'.format radix width) : value = value' := by
  have shows_ := (format_eq_format_iff h h' radix width).mp same
  have equal : i = j := by
    by_cases decimal : radix = .dec
    · subst decimal
      exact shows_
    · rw [shown_pattern decimal, shown_pattern decimal, Int.ofNat_inj] at shows_
      exact fits.eq_of_pattern (fieldWidth_pos width) fits' shows_
  exact h.unique (equal ▸ h')

end NumberValue

/-! ## Numbers that are read -/

/-- The integers that patterns stand for are those of the width. -/
theorem Bits.signed_ranges {raw width : Nat} (some_ : 0 < width) (fits : raw < 2 ^ width) :
    NumberKind.signed.Ranges width (signed raw width) := by
  have half : (2 : Int) ^ width = 2 * 2 ^ (width - 1) := by
    rw [← pow_succ', Nat.sub_add_cancel some_]
  have below : (raw : Int) < 2 ^ width := by exact_mod_cast fits
  have cast : ((2 ^ width : Nat) : Int) = 2 ^ width := by norm_cast
  show -2 ^ (width - 1) ≤ signed raw width ∧ signed raw width < 2 ^ (width - 1)
  unfold signed
  rw [patterns_eq]
  split <;> omega

/-- The width that a number is rendered with: its own as a bit field, or that of its bytes. -/
def Value.numberWidth (v : Value) : Nat :=
  match v.payload with
  | .number _ _ _ bits => (bits.map (·.bits)).getD (v.len * 8)
  | _ => v.len * 8

namespace Decoder

open DecodeM

/-- The value of a pattern is a float, or an integer of its kind and width. -/
theorem Interprets.ranges {r : RawNumber} {kind : NumberKind} {value : NumberValue}
    (h : Interprets r kind value) (some_ : 0 < r.width) (most : r.width ≤ 64)
    (fits : r.raw < 2 ^ r.width) :
    kind = .float ∨ ∃ i, kind.Denotes value i ∧ kind.Ranges r.width i := by
  cases h with
  | unsigned =>
    refine .inr ⟨_, .unsigned _, Int.natCast_nonneg _, ?_⟩
    rw [Bits.toNat_word fits most]
    exact_mod_cast fits
  | signed =>
    obtain ⟨lower, upper⟩ := Bits.signed_ranges some_ fits
    have most : (2 : Int) ^ (r.width - 1) ≤ 2 ^ 63 := pow_le_pow_right₀ (by decide) (by omega)
    refine .inr ⟨_, .signed _, ?_⟩
    rw [Int64.toInt_ofInt_of_le (by omega) (by omega)]
    exact ⟨lower, upper⟩
  | single | double => exact .inl rfl

variable {σ : Type} [ByteSource σ] [SliceLike σ] {d : Decoder σ} {p : Place} {n : Node d.schema}
  {st st' : DecodeState σ}

/-- A number that is read fits the width that it is rendered with. -/
theorem decodeNumber_fits {v : Value} {value : NumberValue} {matched : Option String}
    {fields : List MaskValue} {bits : Option BitSpan} (h : Returns (d.decodeNumber p n) st v st')
    (payload : v.payload = .number value matched fields bits)
    (read : n.lookup .valueExpression = .ok none) :
    ∃ kind, n.numberKind = .ok kind ∧ (kind = .float ∨ ∃ i, kind.Denotes value i ∧
      kind.Ranges (NumberValue.fieldWidth v.numberWidth) i) := by
  have decoded := decodeNumber_returns h
  generalize st'.reading = after at decoded
  cases decoded with
  | computed given | skipped given => cases read.symm.trans given
  | @read kind order unit width r _ _ _ _ _ ofKind ordered wide raw means =>
    cases payload
    refine ⟨kind, ofKind, ?_⟩
    have fits := raw.raw_lt
    obtain ⟨_, units, -, -, -, counted, some_, most⟩ := wide
    have rendered : Value.numberWidth
        ⟨n.id, r.offset, r.len, some order, .number value matched fields r.bits, []⟩ = width := by
      cases raw with
      | bits => rfl
      | bytes =>
        -- A length in bytes is a whole number of them.
        show width / 8 * 8 = width
        rw [counted]
        exact Nat.div_mul_cancel (Nat.dvd_mul_left 8 units)
    rw [rendered, NumberValue.fieldWidth_eq some_ most]
    rw [← raw.width_eq] at fits some_ most ⊢
    exact means.ranges some_ most fits

/-- Integers are rendered as what they are. In decimal the text denotes the integer, and in the
other bases its pattern in a field of the width, which is the integer itself if that is not negative
and fits. So two integers have the same text exactly if they are the same, or have the same pattern;
two of a kind that fit the width are then the same. Every number that is read fits the width that it
is rendered with. -/
theorem integers_are_rendered (d : Decoder σ) :
    (∀ (kind : NumberKind) (value : NumberValue) (i : Int) (radix : Radix) (width : Nat),
      kind.Denotes value i →
      Denoted radix (value.format radix width).toList (NumberValue.shown radix width i) ∧
        (0 ≤ i → i < 2 ^ NumberValue.fieldWidth width → NumberValue.shown radix width i = i)) ∧
    (∀ (kind kind' : NumberKind) (value value' : NumberValue) (i j : Int) (radix : Radix)
      (width : Nat), kind.Denotes value i → kind'.Denotes value' j →
      (value.format radix width = value'.format radix width ↔
        NumberValue.shown radix width i = NumberValue.shown radix width j) ∧
      (kind = kind' → kind.Ranges (NumberValue.fieldWidth width) i →
        kind.Ranges (NumberValue.fieldWidth width) j →
        value.format radix width = value'.format radix width → value = value')) ∧
    ∀ (element : ElementId) (source : σ) (v : Value) (warnings : List DecodeError),
      (d.decodeElement element source).result = .ok (v, warnings) →
      let bytes := SliceLike.slice source
      ∃ visits, d.Visits (startPlace element bytes.cursor bytes.data.size) [v] visits ∧
        visits.map (·.value) = v.preorder ∧
        ∀ x ∈ visits, ∀ value matched fields bits,
          x.value.payload = .number value matched fields bits →
          x.node.lookup .valueExpression = .ok none →
          ∃ kind, x.node.numberKind = .ok kind ∧ (kind = .float ∨ ∃ i, kind.Denotes value i ∧
            kind.Ranges (NumberValue.fieldWidth x.value.numberWidth) i) := by
  refine ⟨?_, ?_, ?_⟩
  · intro kind value i radix width denotes
    exact ⟨NumberValue.denoted_format denotes radix width,
      fun lower upper => NumberValue.shown_eq_self lower upper radix⟩
  · intro kind kind' value value' i j radix width denotes denotes'
    refine ⟨NumberValue.format_eq_format_iff denotes denotes' radix width, ?_⟩
    rintro rfl fits fits' same
    exact NumberValue.eq_of_format_eq denotes denotes' fits fits' same
  · intro element source v warnings ok bytes
    obtain ⟨visits, tree, values, numbers⟩ := decodeElement_numbers ok
    refine ⟨visits, tree, values, ?_⟩
    intro x visited value matched fields bits payload read
    obtain ⟨_, _, decoded⟩ := numbers x visited value (by rw [Value.number?, payload])
    exact decodeNumber_fits decoded payload read

/-! ## Texts of a byte -/

theorem integers_are_rendered_halves :
    Denoted .hex ((NumberValue.signed (-109)).format .hex 8).toList 0x93 ∧
      (NumberValue.unsigned 0x93).format .hex 8 = (NumberValue.signed (-109)).format .hex 8 ∧
      (∀ value', NumberKind.signed.Denotes value' 3 →
        (NumberValue.signed (-109)).format .hex 8 ≠ value'.format .hex 8) ∧
      ∃ visits, halves.Visits (startPlace ⟨0⟩ 0 1) [halvesValue] visits ∧
        visits.map (·.value) = halvesValue.preorder ∧
        ∀ x ∈ visits, ∀ value matched fields bits,
          x.value.payload = .number value matched fields bits →
          x.node.lookup .valueExpression = .ok none →
          ∃ kind, x.node.numberKind = .ok kind ∧ (kind = .float ∨ ∃ i, kind.Denotes value i ∧
            kind.Ranges (NumberValue.fieldWidth x.value.numberWidth) i) := by
  obtain ⟨texts, pairs, tree⟩ := integers_are_rendered halves
  have negative : NumberKind.signed.Denotes (.signed (-109)) (-109) := .signed _
  have positive : NumberKind.unsigned.Denotes (.unsigned 0x93) 0x93 := .unsigned _
  have decodes : (halves.decodeElement ⟨0⟩ ⟨#[0x93], 0⟩).result = .ok (halvesValue, []) := by cbv
  refine ⟨(texts _ _ _ .hex 8 negative).1, ?_, ?_, tree ⟨0⟩ _ halvesValue [] decodes⟩
  · exact (pairs _ _ _ _ _ _ .hex 8 positive negative).1.mpr rfl
  · intro value' denotes same
    have equal := (pairs _ _ _ _ _ _ .hex 8 negative denotes).2 rfl (by decide) (by decide) same
    cases equal
    exact absurd (NumberValue.rawBits_of_denotes denotes) (by decide)

/-! ## A computed number in a byte -/

/-- A number that is computed and shown as hexadecimal, in place of one byte. -/
def computedByte : Decoder Slice where
  schema :=
    { elements := #[⟨{}, .number
        { valueExpression := some (.literal 300)
          extent := { length := some (.literal 1) }
          radix := some .hex }⟩]
      root := ⟨0⟩ }

def computedByteValue : Value :=
  ⟨⟨0⟩, 0, 1, some .little, .number (.unsigned 300) none [] none, []⟩

/-- The number 300 is shown as another number that is not negative either. -/
theorem computed_number_lacks_its_front :
    (computedByte.decodeElement ⟨0⟩ ⟨#[0], 0⟩).result = .ok (computedByteValue, []) ∧
      (computedByteValue.dump computedByte.schema).run (⟨#[0], 0⟩ : Slice) =
        (.ok "number#0 [0x0+1]: 0x2C", ⟨#[0], 0⟩) ∧
      Denoted .hex ((NumberValue.unsigned 300).format .hex computedByteValue.numberWidth).toList
        0x2C ∧
      ¬ Denoted .hex ((NumberValue.unsigned 300).format .hex computedByteValue.numberWidth).toList
        300 := by
  have denoted := NumberValue.denoted_format (.unsigned 300) .hex computedByteValue.numberWidth
  refine ⟨by cbv, by cbv, denoted, fun claimed => ?_⟩
  exact absurd (denoted.unique claimed) (by decide)

end Decoder

end BinaryTemplate
