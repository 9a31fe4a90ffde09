import BinaryTemplate.Proofs.ExactArithmetic
import BinaryTemplate.Proofs.RangeChecks

/-!
# Integer views

The listed values of a number, the operands of expressions and the sizes of regions take a decoded
number as an integer of 64 bits with a sign. The view is exact: it is the integer that the number
is, and there is none if the number is no such integer. One float is the exception, the `2^63` next
to the greatest integer, which is taken as that.
-/

namespace BinaryTemplate

/-! ## Integers among the floats -/

namespace Binary64

variable {x : Binary64}

theorem applySign_eq_iff {a b : Int} : x.applySign a = b ↔ a = x.applySign b := by
  unfold applySign
  split
  · exact neg_eq_iff_eq_neg
  · exact Iff.rfl

theorem applySign_mul (a b : Int) : x.applySign a * b = x.applySign (a * b) := by
  unfold applySign
  split
  · exact Int.neg_mul a b
  · rfl

/-- A significand without bits behind the point is a multiple of the unit, and so is its integer. -/
theorem applySign_div_eq_some_iff {m unit : Nat} (positive : 0 < unit) {n : Int} :
    (if m % unit = 0 then some (x.applySign (m / unit : Nat)) else none) = some n ↔
      (m : Int) = x.applySign n * unit := by
  have split := Nat.div_add_mod m unit
  by_cases whole : m % unit = 0
  · rw [if_pos whole, Option.some.injEq, applySign_eq_iff]
    constructor
    · intro quotient
      rw [← quotient, ← Nat.cast_mul, Nat.mul_comm]
      omega
    · intro scaled
      rw [Int.natCast_div, scaled, Int.mul_ediv_cancel _ (by omega)]
  · simp only [if_neg whole, reduceCtorEq, false_iff]
    intro scaled
    have rest : ((m % unit : Nat) : Int) = 0 := by
      rw [Int.natCast_mod, scaled, Int.mul_emod_left]
    exact whole (by exact_mod_cast rest)

/-- A float is seen as an integer exactly if it is one. -/
theorem toInt?_eq_some_iff {n : Int} :
    x.toInt? = some n ↔ x.extended? = some ((n : ℝ) : EReal) := by
  rw [extended?_eq_coe_iff, toInt?]
  cases finite : x.isFinite with
  | false => simp
  | true =>
    simp only [Bool.not_true, Bool.false_eq_true, if_false, true_and, real]
    cases x.exponent with
    | ofNat k =>
      rw [Option.some.injEq, Int.ofNat_eq_natCast, zpow_natCast, Nat.shiftLeft_eq, Nat.cast_mul,
        ← applySign_mul]
      exact_mod_cast Iff.rfl
    | negSucc k =>
      simp only [Nat.one_shiftLeft, Nat.shiftRight_eq_div_pow]
      rw [applySign_div_eq_some_iff (Nat.two_pow_pos (k + 1)), zpow_negSucc, ← div_eq_mul_inv,
        div_eq_iff (by positivity), applySign_mul, ← applySign_eq_iff]
      exact_mod_cast Iff.rfl

/-- There is only one float for each integer but zero. -/
theorem eq_ofInt {n : Int} (small : n.natAbs < 2 ^ 64) (some_ : n ≠ 0)
    (is : x.extended? = some ((n : ℝ) : EReal)) : x = ofInt n := by
  obtain ⟨-, real⟩ := extended?_eq_coe_iff.mp is
  have above := rank_ofInt_le small (intCast_le_real.mp real.ge)
  have below := le_rank_ofInt small (real_le_intCast.mp real.le)
  have same := below.antisymm above
  exact eq_of_rank_eq same fun zero => some_ (eq_zero_of_rank_ofInt small (same.symm.trans zero))

end Binary64

/-! ## Numbers -/

namespace NumberValue

/-- The number is exactly an integer. -/
def Is (value : NumberValue) (n : Int) : Prop := value.extended? = some ((n : ℝ) : EReal)

/-- The float next to the greatest integer of 64 bits, which is one more than that. -/
def beyond : NumberValue := .float (.ofInt (Integer.greatest + 1))

variable {value : NumberValue}

theorem is_unsigned {u : UInt64} {n : Int} : (unsigned u).Is n ↔ (u.toNat : Int) = n := by
  simp only [Is, extended?, Option.some.injEq, EReal.coe_eq_coe_iff]
  exact_mod_cast Iff.rfl

theorem is_signed {i : Int64} {n : Int} : (signed i).Is n ↔ i.toInt = n := by
  simp only [Is, extended?, Option.some.injEq, EReal.coe_eq_coe_iff]
  exact_mod_cast Iff.rfl

/-- A number is at most one integer. -/
theorem Is.unique {m n : Int} (first : value.Is m) (second : value.Is n) : m = n := by
  have same := EReal.coe_injective (Option.some.inj (first.symm.trans second))
  exact_mod_cast same

theorem beyond_is_iff {n : Int} : beyond.Is n ↔ n = Integer.greatest + 1 := by
  have is : beyond.Is (Integer.greatest + 1) := Binary64.toInt?_eq_some_iff.mp (by decide)
  exact ⟨fun same => same.unique is, fun same => same ▸ is⟩

/-- It is the only float of its value. -/
theorem eq_beyond {x : Binary64} (is : (float x).Is (Integer.greatest + 1)) : float x = beyond :=
  congrArg float (Binary64.eq_ofInt (by decide) (by decide) is)

theorem floatToInt?_eq_some_iff {x : Binary64} {k : Int64} :
    floatToInt? x = some k ↔
      x.toInt? = some k.toInt ∨ x.toInt? = some (Integer.greatest + 1) ∧ k = Int64.maxValue := by
  have isGreatest : Integer.greatest = k.toInt ↔ k = Int64.maxValue := by
    rw [show Integer.greatest = Int64.maxValue.toInt from rfl, Int64.toInt_inj, eq_comm]
  have fits := Integer.fits_toInt k
  unfold Integer.Fits at fits
  rw [floatToInt?]
  cases x.toInt? with
  | none => simp
  | some n =>
    simp only [Option.bind_some, Option.some.injEq]
    obtain inside | next | outside : n ≤ Integer.greatest ∨ n = Integer.greatest + 1 ∨
        Integer.greatest + 1 < n := by omega
    · rw [if_pos (by omega), min_eq_left inside, Integer.narrow?_eq_some_iff]
      exact (or_iff_left (by omega)).symm
    · rw [if_pos next.le, next, min_eq_right (by omega), Integer.narrow?_eq_some_iff, isGreatest]
      simp only [true_and]
      exact (or_iff_right (by omega)).symm
    · rw [if_neg (by omega)]
      simp only [reduceCtorEq, false_iff, not_or, not_and]
      exact ⟨by omega, by omega⟩

theorem toInt?_eq_some_iff {k : Int64} :
    value.toInt? = some k ↔ value.Is k.toInt ∨ value = beyond ∧ k = Int64.maxValue := by
  cases value with
  | unsigned u =>
    rw [is_unsigned]
    simp [toInt?, beyond, Integer.narrow?_eq_some_iff]
  | signed i =>
    rw [is_signed, Int64.toInt_inj]
    simp [toInt?, beyond]
  | float x =>
    have next : x.toInt? = some (Integer.greatest + 1) ↔ float x = beyond := by
      refine ⟨fun is => eq_beyond (Binary64.toInt?_eq_some_iff.mp is), ?_⟩
      rintro ⟨⟩
      decide
    rw [toInt?, floatToInt?_eq_some_iff, next, Binary64.toInt?_eq_some_iff]
    rfl

theorem toInt?_eq_some_iff_is (other : value ≠ beyond) {k : Int64} :
    value.toInt? = some k ↔ value.Is k.toInt := by
  rw [toInt?_eq_some_iff]
  exact or_iff_left fun exception => other exception.1

/-- Which integers are seen, and so which numbers are seen as none. -/
theorem map_toInt?_eq_some_iff (other : value ≠ beyond) {n : Int} :
    value.toInt?.map Int64.toInt = some n ↔ value.Is n ∧ Integer.Fits n := by
  simp only [Option.map_eq_some_iff, toInt?_eq_some_iff_is other]
  constructor
  · rintro ⟨k, is, rfl⟩
    exact ⟨is, Integer.fits_toInt k⟩
  · rintro ⟨is, fits⟩
    obtain ⟨k, rfl⟩ := fits.exists_toInt
    exact ⟨k, is, rfl⟩

end NumberValue

/-! ## Views of decoded values -/

namespace Value

/-- The number that a value stands for: that of a number, or the pointer of an offset. -/
def quantity? (v : Value) : Option NumberValue :=
  match v.payload with
  | .number value .. => some value
  | .offset pointer .. => some (.unsigned pointer)
  | _ => none

/-- The value stands for exactly an integer. -/
def Is (v : Value) (n : Int) : Prop := ∃ value, v.quantity? = some value ∧ value.Is n

variable {v : Value}

theorem toInt?_eq_bind (v : Value) : v.toInt? = v.quantity?.bind NumberValue.toInt? := by
  unfold toInt? quantity?
  cases v.payload <;> rfl

theorem toInt?_eq_some_iff_is (other : v.quantity? ≠ some .beyond) {k : Int64} :
    v.toInt? = some k ↔ v.Is k.toInt := by
  rw [toInt?_eq_bind, Option.bind_eq_some_iff, Is]
  refine exists_congr fun value => and_congr_right fun held => ?_
  refine NumberValue.toInt?_eq_some_iff_is ?_
  rintro rfl
  exact other held

end Value

/-- A name is that of the first choice with a property; there is none if no choice has it. -/
inductive FirstNamed {α : Type} (holds : α → Prop) (choices : List (NamedValue α)) :
    Option String → Prop
  | first {before after : List (NamedValue α)} {c : NamedValue α}
      (among : choices = before ++ c :: after) (none_before : ∀ b ∈ before, ¬ holds b.value)
      (here : holds c.value) : FirstNamed holds choices (some c.name)
  | none (nowhere : ∀ c ∈ choices, ¬ holds c.value) : FirstNamed holds choices none

theorem firstNamed_find? {α : Type} {holds : α → Prop} {test : NamedValue α → Bool}
    (choices : List (NamedValue α)) (decides : ∀ c, test c = true ↔ holds c.value) :
    FirstNamed holds choices ((choices.find? test).map (·.name)) := by
  cases found : choices.find? test with
  | none =>
    refine .none fun c listed here => ?_
    exact List.find?_eq_none.mp found c listed ((decides c).mpr here)
  | some c =>
    obtain ⟨here, before, after, among, fails⟩ := List.find?_eq_some_iff_append.mp found
    refine .first among (fun b listed there => ?_) ((decides c).mp here)
    have never := fails b listed
    rw [(decides b).mpr there] at never
    cases never

namespace Context

variable {c : Context} {first : String} {rest : List String} {v : Value} {k : Int64}

/-- An operand is the integer that its value stands for. -/
theorem integer_eq_ok_iff_is (found : c.lookup (first :: rest) = some v)
    (other : v.quantity? ≠ some .beyond) : c.integer first rest = .ok k ↔ v.Is k.toInt := by
  rw [← Value.toInt?_eq_some_iff_is other, integer, named, found]
  simp only [bind, Except.bind]
  cases v.toInt? with
  | none => simp [throw, throwThe, MonadExceptOf.throw]
  | some n => simp [pure, Except.pure]

end Context

namespace Evaluator

variable {c : Context} {text first : String} {rest : List String} {v : Value} {k : Int64}

/-- A path alone has the integer that its value stands for. -/
theorem evaluateStandard_eq_integer_iff_is
    (noLiteral : Literal.parse? (Text.trim text.toList) = none)
    (lone : Written [.path first rest] text.toList)
    (found : c.lookup (first :: rest) = some v) (other : v.quantity? ≠ some .beyond) :
    evaluateStandard c text = .ok (.integer k) ↔ v.Is k.toInt := by
  rw [← Value.toInt?_eq_some_iff_is other, evaluateStandard_lone noLiteral lone, Context.named,
    found]
  simp only [Except.map, Except.ok.injEq]
  cases v.toInt? <;> simp [Option.elim]

end Evaluator

namespace Decoder

open DecodeM

variable {σ : Type} {d : Decoder σ} {p : Place} {n : Node d.schema} {offset : Nat}
  {st : DecodeState σ}

/-- The name of a number is that of the first listed value that it is. -/
theorem Named.first {value : NumberValue} {matched : Option String} (h : Named n value matched)
    (other : value ≠ .beyond) :
    ∃ choices, n.numberValues = .ok choices ∧
      FirstNamed (fun k : Int64 => value.Is k.toInt) choices matched := by
  obtain ⟨choices, listed, rfl⟩ := h
  refine ⟨choices, listed, ?_⟩
  cases view : value.toInt? with
  | none =>
    refine .none fun c _ is => ?_
    cases view.symm.trans ((NumberValue.toInt?_eq_some_iff_is other).mpr is)
  | some k =>
    have is := (NumberValue.toInt?_eq_some_iff_is other).mp view
    refine firstNamed_find? choices fun c => ?_
    rw [beq_iff_eq]
    constructor
    · rintro rfl
      exact is
    · exact fun same => Int64.toInt_inj.mp (same.unique is)

theorem referencedSize_returns_iff_is {element : ElementId} {w : Value}
    (named : n.lookup .referencedSize = .ok (some element))
    (recalled : (p.context d.schema).Recalled element w) (other : w.quantity? ≠ some .beyond)
    {size : Nat} :
    Returns (d.referencedSize? p n offset) st (some size) st ↔
      w.Is size ∧ Integer.Fits size := by
  rw [referencedSize_returns, and_iff_left rfl]
  constructor
  · intro sized
    cases sized with
    | @given _ _ k _ named' recalled' integer same =>
      cases named.symm.trans named'
      cases recalled.found.symm.trans recalled'.found
      rw [← same]
      exact ⟨(Value.toInt?_eq_some_iff_is other).mp integer, Integer.fits_toInt k⟩
  · rintro ⟨is, fits⟩
    obtain ⟨k, same⟩ := fits.exists_toInt
    exact .given named recalled ((Value.toInt?_eq_some_iff_is other).mpr (same ▸ is)) same.symm

/-! ## Numbers of a tree -/

section Trees

variable [ByteSource σ] [SliceLike σ]

/-- Numbers are seen as the integers that they are. Of every number but the float `2^63` the integer
is the one of 64 bits that its exact value is, and there is none for a fraction, an infinity, what
is not a number, and whatever is out of range; the float `2^63` is seen as the greatest integer. So
a number of a decoded tree has the name of the first listed value that it exactly is, an operand of
an expression is exactly the number that its path names, and the size of a referenced region is
exactly the number decoded for it. -/
theorem integer_view_is_exact (d : Decoder σ) :
    (∀ value : NumberValue, value ≠ .beyond → ∀ n : Int,
      value.toInt?.map Int64.toInt = some n ↔ value.Is n ∧ Integer.Fits n) ∧
    (NumberValue.beyond.toInt? = some Int64.maxValue ∧
      ∀ n : Int, NumberValue.beyond.Is n ↔ n = Int64.maxValue.toInt + 1) ∧
    (∀ (element : ElementId) (source : σ) (v : Value) (warnings : List DecodeError),
      (d.decodeElement element source).result = .ok (v, warnings) →
      let bytes := SliceLike.slice source
      ∃ visits, d.Visits (startPlace element bytes.cursor bytes.data.size) [v] visits ∧
        visits.map (·.value) = v.preorder ∧
        ∀ x ∈ visits, ∀ value matched fields bits,
          x.value.payload = .number value matched fields bits → value ≠ .beyond →
          ∃ choices, x.node.numberValues = .ok choices ∧
            FirstNamed (fun k : Int64 => value.Is k.toInt) choices matched) ∧
    (∀ (c : Context) (first : String) (rest : List String) (v : Value) (k : Int64),
      c.lookup (first :: rest) = some v → v.quantity? ≠ some .beyond →
      (c.integer first rest = .ok k ↔ v.Is k.toInt) ∧
        ∀ text : String, Literal.parse? (Text.trim text.toList) = none →
          Written [.path first rest] text.toList →
          (Evaluator.evaluateStandard c text = .ok (.integer k) ↔ v.Is k.toInt)) ∧
    ∀ (p : Place) (n : Node d.schema) (offset : Nat) (st : DecodeState σ) (element : ElementId)
      (w : Value) (size : Nat),
      n.lookup .referencedSize = .ok (some element) → (p.context d.schema).Recalled element w →
      w.quantity? ≠ some .beyond →
      (Returns (d.referencedSize? p n offset) st (some size) st ↔
        w.Is size ∧ Integer.Fits size) := by
  refine ⟨?_, ⟨by decide, fun n => NumberValue.beyond_is_iff⟩, ?_, ?_, ?_⟩
  · intro value other n
    exact NumberValue.map_toInt?_eq_some_iff other
  · intro element source v warnings ok bytes
    obtain ⟨visits, tree, values, numbers⟩ := decodeElement_numbers ok
    refine ⟨visits, tree, values, ?_⟩
    intro x visited value matched fields bits payload other
    obtain ⟨_, _, decoded⟩ := numbers x visited value (by rw [Value.number?, payload])
    exact (decodeNumber_filled decoded payload).named.first other
  · intro c first rest v k found other
    refine ⟨Context.integer_eq_ok_iff_is found other, ?_⟩
    intro text noLiteral lone
    exact Evaluator.evaluateStandard_eq_integer_iff_is noLiteral lone found other
  · intro p n offset st element w size named recalled other
    exact referencedSize_returns_iff_is named recalled other

end Trees

/-! ## A float that gives a size -/

/-- A float with listed values, and a pointer to a region whose size it gives. -/
def floatSized (choices : List (NamedValue Int64)) : Decoder Slice where
  schema :=
    { elements := #[
        ⟨{ name := some "size" }, .number
          { kind := some .float
            extent := { length := some (.literal 8) }
            values := some choices }⟩,
        ⟨{}, .offset
          { extent := { length := some (.literal 1) }
            references := some ⟨0⟩
            referencedSize := some ⟨0⟩ }⟩]
      root := ⟨0⟩ }

def sizeValue (bits : UInt64) (matched : Option String) : Value :=
  ⟨⟨0⟩, 0, 8, some .little, .number (.float ⟨bits⟩) matched [] none, []⟩

def oneSized : Decoder Slice := floatSized [⟨"one", 1⟩]

def oneValue : Value := sizeValue 0x3FF0000000000000 (some "one")

def onePointer : Node oneSized.schema := ⟨⟨1⟩, _, rfl⟩

def behindOne : Place := (startPlace ⟨1⟩ 8 9).complete oneValue

theorem one_is_one : (NumberValue.float ⟨0x3FF0000000000000⟩).Is 1 :=
  Binary64.toInt?_eq_some_iff.mp (by decide)

theorem integer_view_is_exact_one :
    (NumberValue.float ⟨0x3FF0000000000000⟩).toInt?.map Int64.toInt = some 1 ∧
      (∃ visits, oneSized.Visits (startPlace ⟨0⟩ 0 8) [oneValue] visits ∧
        visits.map (·.value) = oneValue.preorder ∧
        ∀ x ∈ visits, ∀ value matched fields bits,
          x.value.payload = .number value matched fields bits → value ≠ .beyond →
          ∃ choices, x.node.numberValues = .ok choices ∧
            FirstNamed (fun k : Int64 => value.Is k.toInt) choices matched) ∧
      (behindOne.context oneSized.schema).integer "size" [] = .ok 1 ∧
      ∀ st, Returns (oneSized.referencedSize? behindOne onePointer 8) st (some 1) st := by
  obtain ⟨views, -, tree, operands, sizes⟩ := integer_view_is_exact oneSized
  have decodes : (oneSized.decodeElement ⟨0⟩ ⟨#[0, 0, 0, 0, 0, 0, 0xF0, 0x3F], 0⟩).result =
      .ok (oneValue, []) := by cbv
  have found : (behindOne.context oneSized.schema).lookup ["size"] = some oneValue := by cbv
  have recalled : (behindOne.context oneSized.schema).Recalled ⟨0⟩ oneValue :=
    Context.recalled_iff.mpr (by cbv)
  have other : oneValue.quantity? ≠ some .beyond := by decide
  have isOne : oneValue.Is 1 := ⟨_, rfl, one_is_one⟩
  refine ⟨?_, tree ⟨0⟩ _ oneValue [] decodes, ?_, fun st => ?_⟩
  · exact (views _ (by decide) 1).mpr ⟨one_is_one, by decide⟩
  · exact (operands _ "size" [] oneValue 1 found other).1.mpr isOne
  · exact (sizes behindOne onePointer 8 st ⟨0⟩ oneValue 1 (by cbv) recalled other).mpr
      ⟨isOne, by decide⟩

def topSized : Decoder Slice := floatSized [⟨"top", Int64.maxValue⟩]

/-- The float `2^63` gets the name of the greatest integer, which it is not. -/
theorem float_beyond_is_named_greatest :
    (topSized.decodeElement ⟨0⟩ ⟨#[0, 0, 0, 0, 0, 0, 0xE0, 0x43], 0⟩).result =
        .ok (sizeValue 0x43E0000000000000 (some "top"), []) ∧
      (NumberValue.float ⟨0x43E0000000000000⟩).toInt? = some Int64.maxValue ∧
      ¬ (NumberValue.float ⟨0x43E0000000000000⟩).Is Int64.maxValue.toInt := by
  refine ⟨by cbv, by decide, fun is => ?_⟩
  exact absurd (NumberValue.beyond_is_iff.mp is) (by decide)

end Decoder

end BinaryTemplate
