import BinaryTemplate.Proofs.ExactValues
import BinaryTemplate.Proofs.Warnings

/-!
# Range checks

What a number has to be to pass the check of its bounds, compared with its exact value. Integers
pass if and only if they are within the bounds. A float is compared with the float that the bound
is rounded to: it also passes if it is that float, on whichever side of the bound that lies, and
what is not a number passes every bound.
-/

namespace BinaryTemplate

/-! ## Exact values and bounds -/

namespace NumberValue

/-- What the number is: its integer, or the extended real that the bits of a float stand for. -/
noncomputable def extended? : NumberValue → Option EReal
  | unsigned n => some (n.toNat : ℝ)
  | signed n => some (n.toInt : ℝ)
  | float x => x.extended?

def AtLeast (bound : Int64) (value : NumberValue) : Prop :=
  ∃ v, value.extended? = some v ∧ ((bound.toInt : ℝ) : EReal) ≤ v

def AtMost (bound : Int64) (value : NumberValue) : Prop :=
  ∃ v, value.extended? = some v ∧ v ≤ ((bound.toInt : ℝ) : EReal)

/-- The number is within the bounds that are set. -/
def Within (value : NumberValue) (min max : Option Int64) : Prop :=
  (∀ k, min = some k → value.AtLeast k) ∧ ∀ k, max = some k → value.AtMost k

/-- The bound does not catch the number on either side of it: a float that is not a number, or that
is the one that the bound is rounded to. -/
def Overlooked (bound : Int64) : NumberValue → Prop
  | float x => x.isNaN = true ∨ x = .ofInt bound.toInt
  | _ => False

/-- The number is caught by none of the bounds that are set. -/
def Passes (value : NumberValue) (min max : Option Int64) : Prop :=
  (∀ k, min = some k → value.Overlooked k ∨ value.AtLeast k) ∧
    ∀ k, max = some k → value.Overlooked k ∨ value.AtMost k

theorem natAbs_lt (bound : Int64) : bound.toInt.natAbs < 2 ^ 64 := by
  have lower := bound.le_toInt
  have upper := bound.toInt_lt
  omega

theorem not_below_iff {value : NumberValue} {bound : Int64} :
    ¬ value.Below bound ↔ value.Overlooked bound ∨ value.AtLeast bound := by
  cases value with
  | float x =>
    rw [Below, Bool.not_eq_true, Binary64.lt_ofInt_eq_false_iff (natAbs_lt bound), ← or_assoc]
    rfl
  | unsigned n | signed n =>
    simp only [Below, Overlooked, AtLeast, extended?, not_lt, false_or, Option.some.injEq,
      exists_eq_left', EReal.coe_le_coe_iff]
    exact_mod_cast Iff.rfl

theorem not_above_iff {value : NumberValue} {bound : Int64} :
    ¬ value.Above bound ↔ value.Overlooked bound ∨ value.AtMost bound := by
  cases value with
  | float x =>
    rw [Above, Bool.not_eq_true, Binary64.ofInt_lt_eq_false_iff (natAbs_lt bound), ← or_assoc]
    rfl
  | unsigned n | signed n =>
    simp only [Above, Overlooked, AtMost, extended?, not_lt, false_or, Option.some.injEq,
      exists_eq_left', EReal.coe_le_coe_iff]
    exact_mod_cast Iff.rfl

theorem not_outside_iff {value : NumberValue} {min max : Option Int64} :
    ¬ value.Outside min max ↔ value.Passes min max := by
  simp only [Outside, Passes, ← not_below_iff, ← not_above_iff, not_or, not_exists, not_and]

/-- The check is exact for integers, and for floats that are numbers and whose bounds are floats. -/
theorem passes_iff_within {value : NumberValue} {min max : Option Int64}
    (comparable : ∀ x, value = float x → x.isNaN = false ∧
      ∀ k, min = some k ∨ max = some k →
        ∃ y : Binary64, y.extended? = some ((k.toInt : ℝ) : EReal)) :
    value.Passes min max ↔ value.Within min max := by
  have equals (k : Int64) (bound : min = some k ∨ max = some k) (overlooked : value.Overlooked k) :
      value.extended? = some ((k.toInt : ℝ) : EReal) := by
    cases value with
    | float x =>
      obtain ⟨number, floats⟩ := comparable x rfl
      obtain ⟨y, is⟩ := floats k bound
      obtain nan | rfl := overlooked
      · cases number.symm.trans nan
      · exact Binary64.extended?_ofInt (natAbs_lt k) is
    | unsigned n | signed n => exact overlooked.elim
  unfold Passes Within
  refine and_congr (forall₂_congr fun k bound => ?_) (forall₂_congr fun k bound => ?_)
  · exact or_iff_right_of_imp fun overlooked => ⟨_, equals k (.inl bound) overlooked, le_rfl⟩
  · exact or_iff_right_of_imp fun overlooked => ⟨_, equals k (.inr bound) overlooked, le_rfl⟩

end NumberValue

namespace Decoder

open DecodeM

variable {σ : Type} {d : Decoder σ} {p : Place} {n : Node d.schema} {offset : Nat}
  {st st' : DecodeState σ}

/-! ## Checks -/

theorem checkRange_passes {value : NumberValue} {u : Unit} (strict : d.options.strict = true)
    (h : Returns (d.checkRange p n offset value) st u st') :
    ∃ min max, d.Gives p n .minVal min ∧ d.Gives p n .maxVal max ∧ value.Passes min max := by
  simp only [checkRange, returns_bind, evalAttribute_returns, returns_ite, returns_pure, violation,
    if_pos strict, returns_throw, and_false, false_or] at h
  obtain ⟨min, _, ⟨least, rfl⟩, max, _, ⟨most, rfl⟩, inside, -⟩ := h
  exact ⟨min, max, least, most,
    NumberValue.not_outside_iff.mp (mt NumberValue.outside_iff.mp inside)⟩

theorem checkRange_ending {value : NumberValue} {min max : Option Int64}
    (strict : d.options.strict = true) (least : d.Gives p n .minVal min)
    (most : d.Gives p n .maxVal max) :
    (Returns (d.checkRange p n offset value) st () st ↔ value.Passes min max) ∧
      (¬ value.Passes min max → Throws (d.checkRange p n offset value) st
        ⟨n.id, n.label, offset, .range value.text min max⟩ st) := by
  have first : Returns (d.evalAttribute p n offset .minVal) st min st :=
    evalAttribute_returns.mpr ⟨least, rfl⟩
  have second : Returns (d.evalAttribute p n offset .maxVal) st max st :=
    evalAttribute_returns.mpr ⟨most, rfl⟩
  have throws (outside : ¬ value.Passes min max) :
      Throws (d.checkRange p n offset value) st
        ⟨n.id, n.label, offset, .range value.text min max⟩ st := by
    rw [← NumberValue.not_outside_iff, not_not, NumberValue.outside_iff] at outside
    refine (throws_behind first).mpr ((throws_behind second).mpr ?_)
    rw [if_pos outside, violation, if_pos strict]
    exact throws_throw.mpr ⟨rfl, rfl⟩
  refine ⟨⟨fun returned => ?_, fun inside => ?_⟩, throws⟩
  · by_contra outside
    exact returned.not_throws (throws outside)
  · rw [← NumberValue.not_outside_iff, NumberValue.outside_iff] at inside
    refine returns_bind.mpr ⟨min, st, first, returns_bind.mpr ⟨max, st, second, ?_⟩⟩
    rw [if_neg inside]
    exact returns_pure.mpr ⟨rfl, rfl⟩

/-! ## Numbers of a tree -/

section Trees

variable [ByteSource σ]

/-- A number that decodes has gone through the check of its bounds. -/
theorem decodeNumber_checks {v : Value} {value : NumberValue}
    (h : Returns (d.decodeNumber p n) st v st') (number : v.number? = some value) :
    ∃ mid after, Returns (d.checkRange p n v.offset value) mid () after := by
  obtain ⟨_, _, _, _, _, _, finishes⟩ := decodeNumber_finishes h
  simp only [finishNumber, returns_bind, returns_pure] at finishes
  obtain ⟨_, mid, -, _, after, checks, _, _, -, _, _, -, rfl, -⟩ := finishes
  cases number
  exact ⟨mid, after, checks⟩

variable [SliceLike σ]

/-- Only numbers decode to numbers. -/
theorem kind_of_number {depth : Nat} {v : Value} (h : Returns (d.decodeOne depth p n) st v st') :
    v.number?.isSome → ∃ body, n.kind = .number body := by
  refine decodeOne_induction (motive := fun _ n _ v _ =>
    v.number?.isSome → ∃ body, n.kind = .number body) ?_ h
  intro rest p n st start v st' inductionHypothesis _ decoded some_
  cases decoded with
  | number kind => exact ⟨_, kind⟩
  | whole _ decoded =>
    rw [decoded.number] at some_
    cases some_
  | offset _ decoded =>
    generalize st'.reading = after at decoded
    cases decoded
    cases some_
  | disabled => cases some_
  | grammar _ _ _ _ defines _ decoded =>
    obtain ⟨body, isNumber⟩ := inductionHypothesis decoded some_
    cases defines.symm.trans isNumber
  | container _ decoded =>
    generalize st'.reading = after at decoded
    cases decoded
    cases some_

/-- A number of a tree was decoded as a number. -/
theorem decodeNumber_of_decodeOne {depth : Nat} {v : Value} {value : NumberValue}
    (h : Returns (d.decodeOne depth p n) st v st') (number : v.number? = some value) :
    ∃ start, st.Resumes start ∧ Returns (d.decodeNumber p n) start v st' := by
  obtain ⟨body, kind⟩ := kind_of_number h (by rw [number]; rfl)
  obtain ⟨rest, start, -, resumes, kinds⟩ := decodeOne_kinds h
  simp only [decodeKind, kind] at kinds
  exact ⟨start, resumes, kinds⟩

/-- The instances behind a decoded tree, of which those that are numbers were decoded as numbers. -/
theorem decodeElement_numbers {element : ElementId} {source : σ} {v : Value}
    {warnings : List DecodeError}
    (ok : (d.decodeElement element source).result = .ok (v, warnings)) :
    ∃ visits, d.Visits (startPlace element (SliceLike.slice source).cursor
        (SliceLike.slice source).data.size) [v] visits ∧
      visits.map (·.value) = v.preorder ∧
      ∀ x ∈ visits, ∀ value, x.value.number? = some value →
        ∃ st st', Returns (d.decodeNumber x.place x.node) st x.value st' := by
  obtain ⟨visits, tree, values⟩ := decodeElement_visits ok
  refine ⟨visits, tree, values, fun x visited value number => ?_⟩
  obtain ⟨depth, before, behind, returned⟩ := (tree.decodes x visited).1
  obtain ⟨start, -, decoded⟩ := decodeNumber_of_decodeOne returned number
  exact ⟨start, behind, decoded⟩

/-- What the range check of a strict decode decides. A number whose bounds come to some integers
passes the check if it is within those that are set, exactly, or if it is a float that they
overlook; otherwise the check is an error. So every number of a decoded tree and its side trees
passes its bounds. For integers, and for floats that are numbers and whose bounds are floats, to
pass is to be within. -/
theorem range_check_decides (d : Decoder σ) (strict : d.options.strict = true) :
    (∀ (p : Place) (n : Node d.schema) (offset : Nat) (value : NumberValue)
      (min max : Option Int64) (st : DecodeState σ),
      d.Gives p n .minVal min → d.Gives p n .maxVal max →
      (Returns (d.checkRange p n offset value) st () st ↔ value.Passes min max) ∧
        (¬ value.Passes min max → Throws (d.checkRange p n offset value) st
          ⟨n.id, n.label, offset, .range value.text min max⟩ st)) ∧
    (∀ (element : ElementId) (source : σ) (v : Value) (warnings : List DecodeError),
      (d.decodeElement element source).result = .ok (v, warnings) →
      let bytes := SliceLike.slice source
      ∃ visits, d.Visits (startPlace element bytes.cursor bytes.data.size) [v] visits ∧
        visits.map (·.value) = v.preorder ∧
        ∀ x ∈ visits, ∀ value, x.value.number? = some value →
          ∃ min max, d.Gives x.place x.node .minVal min ∧ d.Gives x.place x.node .maxVal max ∧
            value.Passes min max) ∧
    ∀ (value : NumberValue) (min max : Option Int64),
      (∀ x, value = .float x → x.isNaN = false ∧ ∀ k, min = some k ∨ max = some k →
        ∃ y : Binary64, y.extended? = some ((k.toInt : ℝ) : EReal)) →
      (value.Passes min max ↔ value.Within min max) := by
  refine ⟨?_, ?_, ?_⟩
  · intro p n offset value min max st least most
    exact checkRange_ending strict least most
  · intro element source v warnings ok bytes
    obtain ⟨visits, tree, values, numbers⟩ := decodeElement_numbers ok
    refine ⟨visits, tree, values, ?_⟩
    intro x visited value number
    obtain ⟨_, _, decoded⟩ := numbers x visited value number
    obtain ⟨mid, checked, checks⟩ := decodeNumber_checks decoded number
    exact checkRange_passes strict checks
  · intro value min max comparable
    exact NumberValue.passes_iff_within comparable

end Trees

/-! ## A byte with bounds -/

/-- A byte from ten to twenty. -/
def percent : Decoder Slice where
  schema :=
    { elements := #[⟨{}, .number
        { extent := { length := some (.literal 1) }
          minVal := some (.literal 10)
          maxVal := some (.literal 20) }⟩]
      root := ⟨0⟩ }

def percentRoot : Node percent.schema := ⟨⟨0⟩, _, rfl⟩

theorem percent_gives (p : Place) :
    percent.Gives p percentRoot .minVal (some 10) ∧
      percent.Gives p percentRoot .maxVal (some 20) :=
  ⟨⟨.literal 10, by cbv, rfl⟩, .literal 20, by cbv, rfl⟩

def percentValue : Value :=
  ⟨⟨0⟩, 0, 1, some .little, .number (.unsigned 15) none [] none, []⟩

theorem range_check_decides_percent :
    (percent.decodeElement ⟨0⟩ ⟨#[15], 0⟩).result = .ok (percentValue, []) ∧
      (∃ visits, percent.Visits (startPlace ⟨0⟩ 0 1) [percentValue] visits ∧
        visits.map (·.value) = percentValue.preorder ∧
        ∀ x ∈ visits, ∀ value, x.value.number? = some value →
          ∃ min max, percent.Gives x.place x.node .minVal min ∧
            percent.Gives x.place x.node .maxVal max ∧ value.Passes min max) ∧
      ∀ p st, Throws (percent.checkRange p percentRoot 0 (.unsigned 25)) st
        ⟨⟨0⟩, percentRoot.label, 0, .range (NumberValue.unsigned 25).text (some 10) (some 20)⟩
          st := by
  have decodes : (percent.decodeElement ⟨0⟩ ⟨#[15], 0⟩).result = .ok (percentValue, []) := by cbv
  obtain ⟨checks, tree, exact⟩ := range_check_decides percent rfl
  refine ⟨decodes, tree ⟨0⟩ ⟨#[15], 0⟩ percentValue [] decodes, fun p st => ?_⟩
  obtain ⟨least, most⟩ := percent_gives p
  refine (checks p percentRoot 0 (.unsigned 25) (some 10) (some 20) st least most).2 ?_
  rw [exact (.unsigned 25) (some 10) (some 20) (by rintro x ⟨⟩)]
  rintro ⟨-, greatest⟩
  obtain ⟨v, ⟨⟩, within⟩ := greatest 20 rfl
  have : (25 : ℝ) ≤ 20 := by simpa using EReal.coe_le_coe_iff.mp within
  norm_num at this

/-! ## Floats that a bound overlooks -/

/-- A float of eight bytes that must not be less than an integer. -/
def floored (least : Int64) : Decoder Slice where
  schema :=
    { elements := #[⟨{}, .number
        { kind := some .float
          extent := { length := some (.literal 8) }
          minVal := some (.literal least) }⟩]
      root := ⟨0⟩ }

def flooredRoot (least : Int64) : Node (floored least).schema := ⟨⟨0⟩, _, rfl⟩

def floatValue (bits : UInt64) : Value :=
  ⟨⟨0⟩, 0, 8, some .little, .number (.float ⟨bits⟩) none [] none, []⟩

theorem floored_gives (least : Int64) (p : Place) :
    (floored least).Gives p (flooredRoot least) .minVal (some least) ∧
      (floored least).Gives p (flooredRoot least) .maxVal none :=
  ⟨⟨.literal least, by cbv, rfl⟩, by cbv⟩

/-- What is not a number passes a bound, and so does the float `2^53`, which is one less than its
bound: the bound is rounded to it. -/
theorem floats_pass_their_bounds :
    ((floored 0).decodeElement ⟨0⟩ ⟨#[0, 0, 0, 0, 0, 0, 0xF8, 0x7F], 0⟩).result =
        .ok (floatValue 0x7FF8000000000000, []) ∧
      (∀ p, (floored 0).Gives p (flooredRoot 0) .minVal (some 0)) ∧
      ¬ (NumberValue.float ⟨0x7FF8000000000000⟩).AtLeast 0 ∧
      (∀ p st, Returns ((floored 9007199254740993).checkRange p (flooredRoot 9007199254740993) 0
        (.float ⟨0x4340000000000000⟩)) st () st) ∧
      (∀ p, (floored 9007199254740993).Gives p (flooredRoot 9007199254740993) .minVal
        (some 9007199254740993)) ∧
      ¬ (NumberValue.float ⟨0x4340000000000000⟩).AtLeast 9007199254740993 := by
  refine ⟨by cbv, fun p => (floored_gives 0 p).1, ?_, fun p st => ?_,
    fun p => (floored_gives _ p).1, ?_⟩
  · rintro ⟨v, is, -⟩
    have nan : (⟨0x7FF8000000000000⟩ : Binary64).extended? = none := by
      rw [Binary64.extended?, if_pos (by decide)]
    cases nan.symm.trans is
  · obtain ⟨least, most⟩ := floored_gives 9007199254740993 p
    refine (checkRange_ending rfl least most).1.mpr ⟨?_, by rintro k ⟨⟩⟩
    rintro k ⟨⟩
    exact .inl (.inr rfl)
  · rintro ⟨v, is, within⟩
    have finite : (⟨0x4340000000000000⟩ : Binary64).extended? =
        some ((⟨0x4340000000000000⟩ : Binary64).real : EReal) := by
      rw [Binary64.extended?, if_neg (by decide), if_neg (by decide)]
    cases finite.symm.trans is
    exact absurd (Binary64.intCast_le_real.mp (EReal.coe_le_coe_iff.mp within)) (by decide +kernel)

end Decoder

end BinaryTemplate
