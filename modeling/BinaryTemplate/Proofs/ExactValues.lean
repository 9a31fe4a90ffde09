import Mathlib
import BinaryTemplate.Value.Number

/-!
# Exact values of floats

What the bits of a float stand for as an extended real, and how that relates to the comparison,
which looks at the bits alone. The magnitude of every finite float is a multiple of the smallest
one, `2^-1074`; counted in these units it is a natural number that grows with the bits, so the
order of the bits is the order of the values. The float that an integer is rounded to lies between
the floats below the integer and those above it, and it is the integer itself if any float is.
-/

namespace BinaryTemplate.Binary64

/-- The real that a finite number stands for. -/
noncomputable def real (x : Binary64) : ℝ := (x.applySign x.significand : ℤ) * 2 ^ x.exponent

/-- The extended real that the bits stand for; `none` for what is not a number. -/
noncomputable def extended? (x : Binary64) : Option EReal :=
  if x.isNaN then none
  else if x.isInfinite then some (if x.isNegative then ⊥ else ⊤)
  else some x.real

/-! ## Units -/

/-- The magnitude of the finite number with these bits, sign aside, in units of `2^-1074`. -/
def units (m : Nat) : Nat :=
  if m / hiddenBit = 0 then m else (hiddenBit + m % hiddenBit) * 2 ^ (m / hiddenBit - 1)

theorem units_of_lt {m : Nat} (subnormal : m < hiddenBit) : units m = m := by
  rw [units, if_pos (Nat.div_eq_of_lt subnormal)]

/-- The units of a significand with some exponent. A significand that has reached the next power
of two has carried into the exponent field. -/
theorem units_normal {q : Nat} (normal : hiddenBit ≤ q) (small : q ≤ 2 * hiddenBit) (e : Nat) :
    units ((e + 1) * hiddenBit + q - hiddenBit) = q * 2 ^ e := by
  have fields (e f : Nat) (below : f < hiddenBit) :
      units (hiddenBit * (e + 1) + f) = (hiddenBit + f) * 2 ^ e := by
    have field : (hiddenBit * (e + 1) + f) / hiddenBit = e + 1 := by
      rw [Nat.mul_add_div (by decide), Nat.div_eq_of_lt below, Nat.add_zero]
    have fraction : (hiddenBit * (e + 1) + f) % hiddenBit = f := by
      rw [Nat.mul_add_mod, Nat.mod_eq_of_lt below]
    rw [units, field, fraction, if_neg (Nat.succ_ne_zero e), Nat.add_sub_cancel]
  rw [Nat.mul_comm (e + 1)]
  obtain below | rfl := small.lt_or_eq
  · rw [show hiddenBit * (e + 1) + q - hiddenBit = hiddenBit * (e + 1) + (q - hiddenBit) by omega,
      fields e _ (by omega), Nat.add_sub_cancel' normal]
  · have carried : hiddenBit * (e + 1) + 2 * hiddenBit - hiddenBit =
        hiddenBit * (e + 1 + 1) + 0 := by
      rw [Nat.mul_succ hiddenBit (e + 1)]
      omega
    rw [carried, fields (e + 1) 0 (by decide), Nat.add_zero, Nat.pow_succ]
    ring

/-- From one number to the next the magnitude grows by the weight of the lowest bit. -/
theorem units_succ (m : Nat) : units (m + 1) = units m + 2 ^ (m / hiddenBit - 1) := by
  have bits := Nat.div_add_mod m hiddenBit
  have below := Nat.mod_lt m (show 0 < hiddenBit by decide)
  cases field : m / hiddenBit with
  | zero =>
    have subnormal : m < hiddenBit := (Nat.div_eq_zero_iff_lt (by decide)).mp field
    rw [units_of_lt subnormal]
    obtain next | carry : m + 1 < hiddenBit ∨ m + 1 = hiddenBit := by omega
    · exact units_of_lt next
    · rw [carry]
      exact carry.symm
  | succ e =>
    rw [field, Nat.mul_comm] at bits
    have here := units_normal (q := hiddenBit + m % hiddenBit) (by omega) (by omega) e
    have next := units_normal (q := hiddenBit + m % hiddenBit + 1) (by omega) (by omega) e
    rw [show (e + 1) * hiddenBit + (hiddenBit + m % hiddenBit) - hiddenBit = m by omega] at here
    rw [show (e + 1) * hiddenBit + (hiddenBit + m % hiddenBit + 1) - hiddenBit = m + 1 by omega]
      at next
    rw [next, here, Nat.add_sub_cancel, Nat.succ_mul]

theorem units_strictMono : StrictMono units :=
  strictMono_nat_of_lt_succ fun m => by
    rw [units_succ]
    exact Nat.lt_add_of_pos_right (Nat.two_pow_pos _)

/-! ## Rounding -/

/-- The smallest number is two to the power of minus this. -/
def leastExponent : Nat := 1074

/-- The number one, in units of the smallest number. -/
def unitsOfOne : Nat := 2 ^ leastExponent

theorem unitsOfOne_pos : 0 < unitsOfOne := Nat.two_pow_pos leastExponent

theorem two_pow_eq {e shift : Nat} (h : e = shift + leastExponent) :
    2 ^ e = 2 ^ shift * unitsOfOne := by
  rw [h, Nat.pow_add]
  rfl

/-- The bits `m` are those of a nearest number to `n`, as far as the order goes: they are the
greatest whose value is at most `n`, or the next ones if that value is not `n`. -/
def Adjacent (m n : Nat) : Prop :=
  ∃ floor, units floor ≤ n * unitsOfOne ∧ n * unitsOfOne < units (floor + 1) ∧
    (m = floor ∨ m = floor + 1 ∧ units floor < n * unitsOfOne)

theorem Adjacent.le {m n other : Nat} (adjacent : Adjacent m n)
    (least : units other ≤ n * unitsOfOne) : other ≤ m := by
  obtain ⟨floor, -, above, chosen⟩ := adjacent
  have := units_strictMono.lt_iff_lt.mp (least.trans_lt above)
  omega

theorem Adjacent.ge {m n other : Nat} (adjacent : Adjacent m n)
    (most : n * unitsOfOne ≤ units other) : m ≤ other := by
  obtain ⟨floor, below, -, rfl | ⟨rfl, strictly⟩⟩ := adjacent
  · exact units_strictMono.le_iff_le.mp (below.trans most)
  · exact units_strictMono.lt_iff_lt.mp (strictly.trans_le most)

theorem Adjacent.of_eq {m n : Nat} (exact : units m = n * unitsOfOne) : Adjacent m n :=
  ⟨m, exact.le, exact.symm.trans_lt (units_strictMono (Nat.lt_succ_self m)), .inl rfl⟩

theorem roundShift_cases (n shift : Nat) :
    roundShift n shift = n / 2 ^ shift ∨
      roundShift n shift = n / 2 ^ shift + 1 ∧ 0 < n % 2 ^ shift := by
  unfold roundShift
  simp only [Nat.shiftRight_eq_div_pow, Nat.one_shiftLeft]
  have positive := Nat.two_pow_pos shift
  split
  · next up => exact .inr ⟨rfl, by omega⟩
  · exact .inl rfl

/-- The first 53 digits of an integer, or the next significand if the others are not zero. -/
theorem adjacent_roundShift {n shift : Nat} (shortest : 2 ^ (52 + shift) ≤ n)
    (longest : n < 2 ^ (53 + shift)) :
    Adjacent ((1074 + shift + 1) * hiddenBit + roundShift n shift - hiddenBit) n := by
  have positive := Nat.two_pow_pos shift
  have split := Nat.div_add_mod n (2 ^ shift)
  have rest := Nat.mod_lt n positive
  have normal : hiddenBit ≤ n / 2 ^ shift := by
    rw [Nat.le_div_iff_mul_le positive, show hiddenBit = 2 ^ 52 by decide, ← Nat.pow_add]
    exact shortest
  have small : n / 2 ^ shift < 2 * hiddenBit := by
    rw [Nat.div_lt_iff_lt_mul positive, show 2 * hiddenBit = 2 ^ 53 by decide, ← Nat.pow_add]
    exact longest
  have rounds := roundShift_cases n shift
  generalize n / 2 ^ shift = q at split normal small rounds
  generalize n % 2 ^ shift = r at split rest rounds
  have floor := units_normal normal small.le (1074 + shift)
  have next := units_normal (Nat.le_succ_of_le normal) small (1074 + shift)
  have unit : 2 ^ (1074 + shift) = 2 ^ shift * unitsOfOne := two_pow_eq (Nat.add_comm _ _)
  have value : n * unitsOfOne = q * 2 ^ (1074 + shift) + r * unitsOfOne := by
    rw [unit, ← split]
    ring
  have above : r * unitsOfOne < 2 ^ (1074 + shift) := by
    rw [unit]
    exact Nat.mul_lt_mul_of_pos_right rest unitsOfOne_pos
  refine ⟨(1074 + shift + 1) * hiddenBit + q - hiddenBit, ?_, ?_, ?_⟩
  · rw [floor, value]
    exact Nat.le_add_right _ _
  · rw [show (1074 + shift + 1) * hiddenBit + q - hiddenBit + 1 =
      (1074 + shift + 1) * hiddenBit + q.succ - hiddenBit by omega, next, value, Nat.succ_mul]
    exact Nat.add_lt_add_left above _
  · obtain down | ⟨up, inexact⟩ := rounds
    · exact .inl (by rw [down])
    · refine .inr ⟨by rw [up]; omega, ?_⟩
      rw [floor, value]
      exact Nat.lt_add_of_pos_right (Nat.mul_pos inexact unitsOfOne_pos)

/-- All digits of an integer, if there are at most 53. -/
theorem units_shiftLeft {n length : Nat} (shortest : 2 ^ length ≤ n)
    (longest : n < 2 ^ (length + 1)) (short : length ≤ 52) :
    units ((1022 + length + 1) * hiddenBit + n <<< (52 - length) - hiddenBit) = n * unitsOfOne := by
  have digits : length + (52 - length) = 52 := Nat.add_sub_of_le short
  have normal : hiddenBit ≤ n <<< (52 - length) := by
    rw [Nat.shiftLeft_eq, show hiddenBit = 2 ^ (length + (52 - length)) by rw [digits]; rfl,
      Nat.pow_add]
    exact Nat.mul_le_mul_right _ shortest
  have small : n <<< (52 - length) ≤ 2 * hiddenBit := by
    rw [Nat.shiftLeft_eq, show 2 * hiddenBit = 2 ^ (length + 1 + (52 - length)) by
      rw [show length + 1 + (52 - length) = 53 by omega]; rfl, Nat.pow_add]
    exact Nat.mul_le_mul_right _ longest.le
  have scale : 52 - length + (1022 + length) = 0 + leastExponent := by
    rw [leastExponent]
    omega
  rw [units_normal normal small, Nat.shiftLeft_eq, Nat.mul_assoc, ← Nat.pow_add,
    two_pow_eq scale, Nat.pow_zero, Nat.one_mul]

theorem magnitudeOfNat_adjacent (n : Nat) : Adjacent (magnitudeOfNat n) n := by
  obtain rfl | some_ := Nat.eq_zero_or_pos n
  · exact .of_eq (by rw [Nat.zero_mul]; rfl)
  have shortest : 2 ^ n.log2 ≤ n := Nat.log2_self_le some_.ne'
  have longest : n < 2 ^ (n.log2 + 1) := Nat.lt_log2_self
  unfold magnitudeOfNat
  rw [if_neg some_.ne']
  generalize n.log2 = length at shortest longest
  dsimp only
  split
  · next short =>
    rw [show 53 - (length + 1) = 52 - length by omega,
      show 1022 + (length + 1) = 1022 + length + 1 by omega]
    exact .of_eq (units_shiftLeft shortest longest (by omega))
  · next long =>
    obtain ⟨shift, rfl⟩ : ∃ shift, length = 52 + shift := ⟨length - 52, by omega⟩
    rw [show 52 + shift + 1 - 53 = shift by omega,
      show 1022 + (52 + shift + 1) = 1074 + shift + 1 by omega]
    rw [show 52 + shift + 1 = 53 + shift by omega] at longest
    exact adjacent_roundShift shortest longest

/-- Integers of 64 bits are far from infinity. -/
theorem magnitudeOfNat_le {n : Nat} (small : n < 2 ^ 64) : magnitudeOfNat n ≤ 1138 * hiddenBit := by
  have top : units (1138 * hiddenBit) = hiddenBit * 2 ^ 1137 :=
    units_normal (q := hiddenBit) le_rfl (by decide) 1137
  refine (magnitudeOfNat_adjacent n).ge ?_
  have scale : 2 ^ 1137 = 2 ^ 63 * unitsOfOne := two_pow_eq rfl
  rw [top, scale, ← Nat.mul_assoc]
  exact Nat.mul_le_mul_right _ (small.le.trans (by decide))

/-! ## Signs -/

/-- The value of the number with this rank, in units of `2^-1074`. -/
def unitsAt (rank : Int) : Int := if rank < 0 then -units rank.natAbs else units rank.natAbs

theorem unitsAt_rank (x : Binary64) : unitsAt x.rank = x.applySign (units x.magnitudeBits) := by
  unfold rank applySign unitsAt
  by_cases negative : x.isNegative = true
  · rw [if_pos negative, if_pos negative]
    obtain zero | some_ := Nat.eq_zero_or_pos x.magnitudeBits
    · rw [zero]
      rfl
    · rw [if_pos (by omega), Int.natAbs_neg, Int.natAbs_natCast]
  · rw [if_neg negative, if_neg negative, if_neg (by omega), Int.natAbs_natCast]

/-- Bits are a sign and a magnitude. -/
theorem bits_eq (x : Binary64) :
    x.bits.toNat = (if x.isNegative then signBit else 0) + x.magnitudeBits := by
  have bound : x.bits.toNat < 2 * signBit := x.bits.toNat_lt
  unfold isNegative magnitudeBits signBit at *
  split
  · next negative =>
    have := of_decide_eq_true negative
    omega
  · next positive =>
    have := of_decide_eq_false (Bool.eq_false_iff.mpr positive)
    omega

/-- Numbers other than zero of the same rank are the same. -/
theorem eq_of_rank_eq {x y : Binary64} (same : x.rank = y.rank) (some_ : x.rank ≠ 0) : x = y := by
  have bits : x.bits.toNat = y.bits.toNat := by
    rw [bits_eq x, bits_eq y]
    unfold rank applySign at same some_
    cases left : x.isNegative <;> cases right : y.isNegative <;>
      simp only [left, right, Bool.false_eq_true, if_true, if_false] at same some_ ⊢ <;> omega
  cases x
  cases y
  exact congrArg mk (UInt64.toNat.inj bits)

section Integers

variable {n : Int} (small : n.natAbs < 2 ^ 64)

include small

theorem bits_ofInt :
    (ofInt n).bits.toNat = (if n < 0 then signBit else 0) + magnitudeOfNat n.natAbs := by
  have bound := magnitudeOfNat_le small
  refine (UInt64.toNat_ofNat_of_lt' ?_)
  rw [UInt64.size]
  unfold hiddenBit at bound
  unfold signBit
  split <;> omega

theorem isFinite_ofInt : (ofInt n).isFinite = true := by
  have bound := magnitudeOfNat_le small
  rw [isFinite, exponentField, bits_ofInt small, bne_iff_ne]
  unfold hiddenBit at *
  unfold signBit
  split <;> omega

theorem rank_ofInt :
    (ofInt n).rank =
      if n < 0 then -(magnitudeOfNat n.natAbs : Int) else magnitudeOfNat n.natAbs := by
  have bound := magnitudeOfNat_le small
  rw [rank, applySign, isNegative, magnitudeBits, bits_ofInt small]
  unfold hiddenBit at bound
  unfold signBit
  split <;> simp <;> omega

/-- The float that an integer is rounded to is not below any float that is at most the integer. -/
theorem le_rank_ofInt {r : Int} (least : unitsAt r ≤ n * unitsOfOne) : r ≤ (ofInt n).rank := by
  rw [rank_ofInt small]
  have adjacent := magnitudeOfNat_adjacent n.natAbs
  unfold unitsAt at least
  by_cases negative : n < 0 <;> by_cases below : r < 0
  · rw [if_pos negative]
    rw [if_pos below, show n = -(n.natAbs : Int) by omega, Int.neg_mul, Int.neg_le_neg_iff] at least
    have := adjacent.ge (by exact_mod_cast least)
    omega
  · rw [if_neg below] at least
    have positive : (0 : Int) < unitsOfOne := by exact_mod_cast unitsOfOne_pos
    have := Int.mul_neg_of_neg_of_pos negative positive
    omega
  · rw [if_neg negative]
    omega
  · rw [if_neg negative]
    rw [if_neg below, show n = (n.natAbs : Int) by omega] at least
    have := adjacent.le (by exact_mod_cast least)
    omega

/-- Nor is it above any that is at least the integer. -/
theorem rank_ofInt_le {r : Int} (most : n * unitsOfOne ≤ unitsAt r) : (ofInt n).rank ≤ r := by
  rw [rank_ofInt small]
  have adjacent := magnitudeOfNat_adjacent n.natAbs
  unfold unitsAt at most
  by_cases negative : n < 0 <;> by_cases below : r < 0
  · rw [if_pos negative]
    rw [if_pos below, show n = -(n.natAbs : Int) by omega, Int.neg_mul, Int.neg_le_neg_iff] at most
    have := adjacent.le (by exact_mod_cast most)
    omega
  · rw [if_pos negative]
    omega
  · rw [if_pos below] at most
    have := units_strictMono (show 0 < r.natAbs by omega)
    have := Int.mul_nonneg (Int.not_lt.mp negative) (Int.natCast_nonneg unitsOfOne)
    omega
  · rw [if_neg negative]
    rw [if_neg below, show n = (n.natAbs : Int) by omega] at most
    have := adjacent.ge (by exact_mod_cast most)
    omega

end Integers

/-! ## Exact values -/

theorem magnitudeBits_fields (x : Binary64) :
    x.magnitudeBits / hiddenBit = x.exponentField ∧ x.magnitudeBits % hiddenBit = x.fraction := by
  unfold magnitudeBits exponentField fraction signBit hiddenBit
  omega

/-- A finite number is a whole number of units. -/
theorem real_eq (x : Binary64) : x.real = unitsAt x.rank / unitsOfOne := by
  have scale : (unitsOfOne : ℝ) = 2 ^ leastExponent := by
    rw [unitsOfOne, Nat.cast_pow]
    rfl
  have magnitude : (x.significand : ℝ) * 2 ^ x.exponent = units x.magnitudeBits / unitsOfOne := by
    obtain ⟨field, fraction⟩ := x.magnitudeBits_fields
    unfold significand exponent units
    rw [field, fraction, scale, div_eq_mul_inv, ← zpow_natCast, ← zpow_neg]
    by_cases subnormal : x.exponentField = 0
    · simp only [if_pos subnormal]
      have whole : x.magnitudeBits = x.fraction := by
        have := Nat.div_add_mod x.magnitudeBits hiddenBit
        rw [field, subnormal, fraction, Nat.mul_zero, Nat.zero_add] at this
        exact this.symm
      rw [whole]
      rfl
    · simp only [if_neg subnormal]
      have exponents : (x.exponentField : ℤ) - 1075 =
          ((x.exponentField - 1 : Nat) : ℤ) + -(leastExponent : ℤ) := by
        unfold leastExponent
        omega
      rw [exponents, zpow_add₀ (two_ne_zero), zpow_natCast, ← mul_assoc]
      push_cast
      rfl
  rw [unitsAt_rank, real]
  unfold applySign
  cases x.isNegative with
  | true =>
    simp only [if_true, Int.cast_neg, Int.cast_natCast, neg_mul, magnitude, neg_div]
  | false =>
    simp only [Bool.false_eq_true, if_false, Int.cast_natCast, magnitude]

theorem real_eq_zero {x : Binary64} (zero : x.rank = 0) : x.real = 0 := by
  rw [real_eq, zero, show unitsAt 0 = 0 from rfl, Int.cast_zero, zero_div]

theorem intCast_le_real {x : Binary64} {n : Int} :
    (n : ℝ) ≤ x.real ↔ n * unitsOfOne ≤ unitsAt x.rank := by
  rw [real_eq, le_div_iff₀ (by exact_mod_cast unitsOfOne_pos)]
  exact_mod_cast Iff.rfl

theorem real_le_intCast {x : Binary64} {n : Int} :
    x.real ≤ n ↔ unitsAt x.rank ≤ n * unitsOfOne := by
  rw [real_eq, div_le_iff₀ (by exact_mod_cast unitsOfOne_pos)]
  exact_mod_cast Iff.rfl

/-- The finite floats are those that stand for a real. -/
theorem extended?_eq_coe_iff {x : Binary64} {r : ℝ} :
    x.extended? = some (r : EReal) ↔ x.isFinite = true ∧ x.real = r := by
  rw [extended?, isNaN, isInfinite, isFinite]
  by_cases special : x.exponentField = 2047
  · by_cases infinite : x.fraction = 0
    · cases x.isNegative <;> simp [special, infinite]
    · simp [special, infinite]
  · simp [special]

/-- A float is not a number, or it stands for a real or for an infinity beyond all of them. -/
theorem extended?_cases (x : Binary64) :
    (x.isNaN = true ∧ x.extended? = none) ∨
      x.isNaN = false ∧
        (x.extended? = some (x.real : EReal) ∨
          x.extended? = some ⊤ ∧ x.rank = 2047 * hiddenBit ∨
          x.extended? = some ⊥ ∧ x.rank = -(2047 * hiddenBit)) := by
  obtain ⟨field, fraction⟩ := x.magnitudeBits_fields
  cases nan : x.isNaN with
  | true => exact .inl ⟨rfl, by rw [extended?, if_pos nan]⟩
  | false =>
    refine .inr ⟨rfl, ?_⟩
    have number : ¬ x.isNaN = true := by rw [nan]; exact Bool.false_ne_true
    cases infinite : x.isInfinite with
    | false => exact .inl (by rw [extended?, if_neg number, infinite]; rfl)
    | true =>
      have bits : x.magnitudeBits = 2047 * hiddenBit := by
        simp only [isInfinite, Bool.and_eq_true, beq_iff_eq] at infinite
        have := Nat.div_add_mod x.magnitudeBits hiddenBit
        rw [field, fraction, infinite.1, infinite.2] at this
        omega
      rw [extended?, if_neg number, if_pos infinite, rank, applySign, bits]
      cases x.isNegative
      · exact .inr (.inl ⟨rfl, rfl⟩)
      · exact .inr (.inr ⟨rfl, rfl⟩)

theorem lt_eq {x y : Binary64} (left : x.isNaN = false) (right : y.isNaN = false) :
    x.lt y = decide (x.rank < y.rank) := by
  rw [lt, left, right]
  rfl

section Bounds

variable {n : Int} (small : n.natAbs < 2 ^ 64)

include small

theorem isNaN_ofInt : (ofInt n).isNaN = false := by
  have finite := isFinite_ofInt small
  rw [isFinite, bne_iff_ne] at finite
  rw [isNaN, beq_eq_false_iff_ne.mpr finite]
  rfl

theorem extended?_ofInt_real : (ofInt n).extended? = some ((ofInt n).real : EReal) :=
  extended?_eq_coe_iff.mpr ⟨isFinite_ofInt small, rfl⟩

theorem rank_ofInt_between :
    -(2047 * hiddenBit : Int) < (ofInt n).rank ∧ (ofInt n).rank < 2047 * hiddenBit := by
  have bound := magnitudeOfNat_le small
  rw [rank_ofInt small]
  unfold hiddenBit at *
  split <;> omega

/-- An integer that is a float is rounded to itself. -/
theorem extended?_ofInt {x : Binary64} (is : x.extended? = some ((n : ℝ) : EReal)) :
    (ofInt n).extended? = some ((n : ℝ) : EReal) := by
  obtain ⟨-, finite⟩ := extended?_eq_coe_iff.mp is
  have above := rank_ofInt_le small (intCast_le_real.mp finite.ge)
  have below := le_rank_ofInt small (real_le_intCast.mp finite.le)
  rw [extended?_ofInt_real small, real_eq, le_antisymm above below, ← real_eq, finite]

/-- No other integer than zero is rounded to zero. -/
theorem eq_zero_of_rank_ofInt (zero : (ofInt n).rank = 0) : n = 0 := by
  have one : (1 : Int) ≤ unitsOfOne := by exact_mod_cast unitsOfOne_pos
  by_contra some_
  obtain negative | positive := Int.lt_or_gt_of_ne some_
  · have below : n * unitsOfOne ≤ unitsAt (-1) := by
      show n * unitsOfOne ≤ -1
      nlinarith
    have := rank_ofInt_le small below
    omega
  · have above : unitsAt 1 ≤ n * unitsOfOne := by
      show 1 ≤ n * unitsOfOne
      nlinarith
    have := le_rank_ofInt small above
    omega

/-- Of the floats that are on the other side of an integer, only the one that the integer is
rounded to is not on the other side of that one. -/
theorem rank_ofInt_le_iff {x : Binary64} :
    (ofInt n).rank ≤ x.rank ↔ x = ofInt n ∨ (n : ℝ) ≤ x.real := by
  constructor
  · intro order
    by_cases within : (n : ℝ) ≤ x.real
    · exact .inr within
    have same := (le_rank_ofInt small (real_le_intCast.mp (not_le.mp within).le)).antisymm order
    refine .inl (eq_of_rank_eq same fun zero => within ?_)
    rw [eq_zero_of_rank_ofInt small (same.symm.trans zero), real_eq_zero zero, Int.cast_zero]
  · rintro (rfl | within)
    · exact le_rfl
    · exact rank_ofInt_le small (intCast_le_real.mp within)

theorem le_rank_ofInt_iff {x : Binary64} :
    x.rank ≤ (ofInt n).rank ↔ x = ofInt n ∨ x.real ≤ n := by
  constructor
  · intro order
    by_cases within : x.real ≤ n
    · exact .inr within
    have same := order.antisymm (rank_ofInt_le small (intCast_le_real.mp (not_le.mp within).le))
    refine .inl (eq_of_rank_eq same fun zero => within ?_)
    rw [eq_zero_of_rank_ofInt small (same.symm.trans zero), real_eq_zero zero, Int.cast_zero]
  · rintro (rfl | within)
    · exact le_rfl
    · exact le_rank_ofInt small (real_le_intCast.mp within)

/-- A number is not below the float of an integer if it is at least the integer or that float; what
is not a number is below nothing. -/
theorem lt_ofInt_eq_false_iff {x : Binary64} :
    x.lt (ofInt n) = false ↔
      x.isNaN = true ∨ x = ofInt n ∨ ∃ v, x.extended? = some v ∧ ((n : ℝ) : EReal) ≤ v := by
  obtain ⟨nan, none⟩ | ⟨number, exact⟩ := x.extended?_cases
  · rw [lt, nan]
    simp
  have bounds := rank_ofInt_between small
  rw [lt_eq number (isNaN_ofInt small), decide_eq_false_iff_not, not_lt, number]
  obtain real | ⟨top, rank⟩ | ⟨bottom, rank⟩ := exact
  · rw [rank_ofInt_le_iff small, real]
    simp
  · rw [top, rank]
    have order : (ofInt n).rank ≤ 2047 * hiddenBit := by omega
    simp [order]
  · have differs : x ≠ ofInt n := by
      rintro rfl
      omega
    have order : ¬ (ofInt n).rank ≤ -(2047 * hiddenBit : Int) := by omega
    rw [bottom, rank]
    simp [order, differs]

theorem ofInt_lt_eq_false_iff {x : Binary64} :
    (ofInt n).lt x = false ↔
      x.isNaN = true ∨ x = ofInt n ∨ ∃ v, x.extended? = some v ∧ v ≤ ((n : ℝ) : EReal) := by
  obtain ⟨nan, none⟩ | ⟨number, exact⟩ := x.extended?_cases
  · rw [lt, nan]
    simp
  have bounds := rank_ofInt_between small
  rw [lt_eq (isNaN_ofInt small) number, decide_eq_false_iff_not, not_lt, number]
  obtain real | ⟨top, rank⟩ | ⟨bottom, rank⟩ := exact
  · rw [le_rank_ofInt_iff small, real]
    simp
  · have differs : x ≠ ofInt n := by
      rintro rfl
      omega
    have order : ¬ (2047 * hiddenBit : Int) ≤ (ofInt n).rank := by omega
    rw [top, rank]
    simp [order, differs]
  · rw [bottom, rank]
    have order : -(2047 * hiddenBit : Int) ≤ (ofInt n).rank := by omega
    simp [order]

end Bounds

end BinaryTemplate.Binary64
