import BinaryTemplate.Proofs.Evaluation

/-!
# Exact arithmetic

What the operators of expressions answer, compared with the same operators over the unbounded
integers. A result that fits 64 bits is the exact one, and one that does not fit is an overflow; but
a left shift keeps the low bits of what does not fit. So an expression has its exact value, unless
one of its left shifts drops bits.
-/

namespace BinaryTemplate

/-! ## Bits of integers -/

namespace Integer

/-- The integer is one of 64 bits. -/
def Fits (n : Int) : Prop := least ≤ n ∧ n ≤ greatest

instance : DecidablePred Fits := fun n => inferInstanceAs (Decidable (least ≤ n ∧ n ≤ greatest))

theorem fits_toInt (k : Int64) : Fits k.toInt := by
  have lower := k.le_toInt
  have upper := k.toInt_lt
  simp only [Fits, least, greatest]
  omega

theorem Fits.exists_toInt {n : Int} (fits : Fits n) : ∃ k : Int64, n = k.toInt := by
  have narrows : narrow? n = some (Int64.ofInt n) := if_pos fits
  exact ⟨_, narrow?_eq_some_iff.mp narrows⟩

theorem narrow?_eq_none_iff {n : Int} : narrow? n = none ↔ ¬ Fits n := by
  simp only [narrow?, Fits, ite_eq_right_iff, reduceCtorEq, imp_false]

theorem eq_of_testBit_eq {m n : Int} (same : ∀ i, m.testBit i = n.testBit i) : m = n := by
  -- Behind all its digits a natural number has zeros and a negative integer has ones.
  have apart (m n : Nat) (same : ∀ i, m.testBit i = !n.testBit i) : False := by
    have left := Nat.testBit_lt_two_pow (m.lt_two_pow_self.trans_le
      (Nat.pow_le_pow_right (by decide) (Nat.le_max_left m n)))
    have right := Nat.testBit_lt_two_pow (n.lt_two_pow_self.trans_le
      (Nat.pow_le_pow_right (by decide) (Nat.le_max_right m n)))
    have := same (max m n)
    rw [left, right] at this
    cases this
  cases m with
  | ofNat m =>
    cases n with
    | ofNat n => exact congrArg Int.ofNat (Nat.eq_of_testBit_eq same)
    | negSucc n => exact (apart m n same).elim
  | negSucc m =>
    cases n with
    | ofNat n => exact (apart n m fun i => (same i).symm).elim
    | negSucc n => exact congrArg Int.negSucc (Nat.eq_of_testBit_eq fun i => Bool.not_inj (same i))

/-- The bits of a word as an integer are those of the word, with its sign behind them. -/
theorem testBit_toInt {w : Nat} (x : BitVec w) (i : Nat) :
    x.toInt.testBit i = if i < w then x.getLsbD i else x.msb := by
  cases negative : x.msb with
  | false =>
    rw [BitVec.toInt_eq_toNat_of_msb negative]
    show x.toNat.testBit i = _
    split
    · rfl
    · next behind => exact BitVec.getLsbD_of_ge x i (Nat.le_of_not_lt behind)
  | true =>
    have below := x.isLt
    have complement : x.toInt = Int.negSucc (2 ^ w - (x.toNat + 1)) := by
      rw [BitVec.toInt_eq_msb_cond, if_pos negative, Int.negSucc_eq]
      omega
    rw [complement]
    show (!Nat.testBit (2 ^ w - (x.toNat + 1)) i) = _
    rw [Nat.testBit_two_pow_sub_succ below]
    split
    · next inside => simp only [inside, decide_true, Bool.true_and, Bool.not_not]; rfl
    · next behind => simp [behind]

section Words

variable (a b : Int64)

/-- The index of a bit is below the width of the word, and so is the count of a shift by it. -/
theorem toNat_smod {b : Int64} {n : Nat} (count : b.toInt = n) (inside : n < 64) :
    (b.toBitVec.smod 64).toNat = n := by
  have remainder : (b.toBitVec.smod 64).toInt = n := by
    rw [BitVec.toInt_smod]
    show b.toInt.fmod 64 = n
    rw [count, Int.fmod_eq_emod_of_nonneg _ (by decide), Int.emod_eq_of_lt (by omega) (by omega)]
  have cases_ := BitVec.toInt_eq_toNat_cond (b.toBitVec.smod 64)
  have below := (b.toBitVec.smod 64).isLt
  omega

theorem toInt_and : (a &&& b).toInt = a.toInt.land b.toInt := by
  refine eq_of_testBit_eq fun i => ?_
  rw [Int.testBit_land]
  show (a.toBitVec &&& b.toBitVec).toInt.testBit i =
    (a.toBitVec.toInt.testBit i && b.toBitVec.toInt.testBit i)
  simp only [testBit_toInt]
  split <;> simp

theorem toInt_or : (a ||| b).toInt = a.toInt.lor b.toInt := by
  refine eq_of_testBit_eq fun i => ?_
  rw [Int.testBit_lor]
  show (a.toBitVec ||| b.toBitVec).toInt.testBit i =
    (a.toBitVec.toInt.testBit i || b.toBitVec.toInt.testBit i)
  simp only [testBit_toInt]
  split <;> simp

theorem toInt_xor : (a ^^^ b).toInt = Int.xor a.toInt b.toInt := by
  refine eq_of_testBit_eq fun i => ?_
  rw [Int.testBit_lxor]
  show (a.toBitVec ^^^ b.toBitVec).toInt.testBit i =
    (a.toBitVec.toInt.testBit i ^^ b.toBitVec.toInt.testBit i)
  simp only [testBit_toInt]
  split <;> simp

theorem toInt_complement : (~~~a).toInt = a.toInt.lnot := by
  refine eq_of_testBit_eq fun i => ?_
  rw [Int.testBit_lnot]
  show (~~~a.toBitVec).toInt.testBit i = !a.toBitVec.toInt.testBit i
  simp only [testBit_toInt]
  split <;> simp [*]

/-- A shift to the left is a product of the low bits. -/
theorem toInt_shiftLeft {n : Nat} (count : b.toInt = n) (inside : n < 64) :
    (a <<< b).toInt = (a.toInt * 2 ^ n).bmod (2 ^ 64) := by
  show (a <<< b).toBitVec.toInt = (a.toBitVec.toInt * 2 ^ n).bmod (2 ^ 64)
  rw [Int64.toBitVec_shiftLeft, BitVec.shiftLeft_eq', toNat_smod count inside,
    BitVec.toInt_shiftLeft, BitVec.toInt_eq_toNat_bmod, Int.bmod_mul_bmod, Nat.shiftLeft_eq]
  push_cast
  rfl

/-- A shift to the right is a quotient rounded down. -/
theorem toInt_shiftRight {n : Nat} (count : b.toInt = n) (inside : n < 64) :
    (a >>> b).toInt = a.toInt.fdiv (2 ^ n) := by
  show (a >>> b).toBitVec.toInt = a.toBitVec.toInt.fdiv (2 ^ n)
  rw [Int64.toBitVec_shiftRight, BitVec.sshiftRight_eq', toNat_smod count inside,
    BitVec.toInt_sshiftRight, Int.shiftRight_eq_div_pow,
    Int.fdiv_eq_ediv_of_nonneg _ (by positivity)]
  push_cast
  rfl

end Words

end Integer

/-! ## Operators -/

open Integer (Fits)

/-- An exact result as an integer of 64 bits, or the overflow of an operation. -/
def checked (operation : String) (x : Int) : Except ExpressionError Int64 :=
  match Integer.narrow? x with
  | some r => .ok r
  | none => .error (.overflow operation)

theorem checked_toInt (operation : String) (r : Int64) : checked operation r.toInt = .ok r := by
  rw [checked, Integer.narrow?_toInt]

theorem checked_of_not_fits {operation : String} {x : Int} (exceeds : ¬ Fits x) :
    checked operation x = .error (.overflow operation) := by
  rw [checked, Integer.narrow?_eq_none_iff.mpr exceeds]

theorem eq_toInt_of_checked {operation : String} {x : Int} {r : Int64}
    (answer : checked operation x = .ok r) : x = r.toInt := by
  by_cases fits : Fits x
  · obtain ⟨k, rfl⟩ := fits.exists_toInt
    rw [checked_toInt] at answer
    cases answer
    rfl
  · rw [checked_of_not_fits fits] at answer
    cases answer

namespace UnaryOp

/-- The result of an operator over the unbounded integers. -/
def unbounded (op : UnaryOp) (a : Int) : Int :=
  match op with
  | .neg => -a
  | .not => if a = 0 then 1 else 0
  | .complement => a.lnot

theorem apply_eq (op : UnaryOp) (a : Int64) :
    op.apply a = checked ("-" ++ toString a.toInt) (op.unbounded a.toInt) := by
  cases op with
  | neg => rfl
  | not =>
    have zero : a = 0 ↔ a.toInt = 0 := Int64.toInt_inj.symm
    rw [apply, unbounded]
    by_cases isZero : a = 0
    · rw [if_pos isZero, if_pos (zero.mp isZero)]
      rfl
    · rw [if_neg isZero, if_neg (mt zero.mpr isZero)]
      rfl
  | complement =>
    rw [apply, unbounded, ← Integer.toInt_complement, checked_toInt]

end UnaryOp

namespace BinaryOp

/-- The result of an operator over the unbounded integers, if it has one there. Truth is one and
falsehood zero. Division truncates, a shift to the right rounds down, and the bits of an integer
are those of its two's complement, which has no end. -/
def unbounded? (op : BinaryOp) (a b : Int) : Option Int :=
  match op with
  | .or => some (if a ≠ 0 ∨ b ≠ 0 then 1 else 0)
  | .and => some (if a ≠ 0 ∧ b ≠ 0 then 1 else 0)
  | .eq => some (if a = b then 1 else 0)
  | .ne => some (if a ≠ b then 1 else 0)
  | .le => some (if a ≤ b then 1 else 0)
  | .ge => some (if b ≤ a then 1 else 0)
  | .lt => some (if a < b then 1 else 0)
  | .gt => some (if b < a then 1 else 0)
  | .bitOr => some (a.lor b)
  | .bitXor => some (Int.xor a b)
  | .bitAnd => some (a.land b)
  | .shiftLeft => if 0 ≤ b then some (a * 2 ^ b.toNat) else none
  | .shiftRight => if 0 ≤ b then some (a.fdiv (2 ^ b.toNat)) else none
  | .add => some (a + b)
  | .sub => some (a - b)
  | .mul => some (a * b)
  | .div => if b = 0 then none else some (a.tdiv b)
  | .mod => if b = 0 then none else some (a.tmod b)

/-- How messages show an operation. -/
def operation (op : BinaryOp) (a b : Int) : String :=
  toString a ++ " " ++ op.symbol ++ " " ++ toString b

/-- The count of a shift is no index of a bit. -/
def Miscounts (op : BinaryOp) (b : Int) : Prop :=
  (op = .shiftLeft ∨ op = .shiftRight) ∧ ¬ (0 ≤ b ∧ b < 64)

/-- A left shift by the index of a bit has a result that does not fit. -/
def DropsBits (op : BinaryOp) (a b : Int) : Prop :=
  op = .shiftLeft ∧ (0 ≤ b ∧ b < 64) ∧ ¬ Fits (a * 2 ^ b.toNat)

variable {op : BinaryOp} {a b : Int64}

/-! ### Answers of an operator -/

theorem checked_truth (operation : String) (p : Prop) [Decidable p] :
    checked operation (if p then 1 else 0) = .ok (truth p) := by
  by_cases holds : p
  · rw [if_pos holds, decide_eq_true holds]
    rfl
  · rw [if_neg holds, decide_eq_false holds]
    rfl

/-- Most operators only check whether the exact result fits. -/
theorem apply_checked {x : Int} (result : op.unbounded? a.toInt b.toInt = some x)
    (plain : op ≠ .shiftLeft ∧ op ≠ .shiftRight ∧ op ≠ .mod) :
    op.apply a b = checked (op.operation a.toInt b.toInt) x := by
  have zero (k : Int64) : k = 0 ↔ k.toInt = 0 := Int64.toInt_inj.symm
  have same : a = b ↔ a.toInt = b.toInt := Int64.toInt_inj.symm
  cases op with
  | add | sub | mul =>
    cases result
    rfl
  | bitOr =>
    cases result
    rw [← Integer.toInt_or, checked_toInt]
    rfl
  | bitXor =>
    cases result
    rw [← Integer.toInt_xor, checked_toInt]
    rfl
  | bitAnd =>
    cases result
    rw [← Integer.toInt_and, checked_toInt]
    rfl
  | or | and | eq | ne | le | ge | lt | gt =>
    cases result
    rw [checked_truth]
    simp [apply, zero, same, bne, beq_eq_decide]
  | div =>
    by_cases divisor : b.toInt = 0
    · simp [unbounded?, divisor] at result
    · rw [unbounded?, if_neg divisor] at result
      cases result
      rw [apply]
      simp only [zero, if_neg divisor]
      rfl
  | shiftLeft => exact absurd rfl plain.1
  | shiftRight => exact absurd rfl plain.2.1
  | mod => exact absurd rfl plain.2.2

theorem apply_shiftLeft {n : Nat} (count : b.toInt = n) (inside : n < 64) :
    ∃ r, BinaryOp.shiftLeft.apply a b = .ok r ∧ r.toInt = (a.toInt * 2 ^ n).bmod (2 ^ 64) := by
  refine ⟨a <<< b, ?_, Integer.toInt_shiftLeft a b count inside⟩
  rw [apply]
  exact if_pos (by omega)

theorem apply_shiftRight {n : Nat} (count : b.toInt = n) (inside : n < 64) :
    ∃ r, BinaryOp.shiftRight.apply a b = .ok r ∧ r.toInt = a.toInt.fdiv (2 ^ n) := by
  refine ⟨a >>> b, ?_, Integer.toInt_shiftRight a b count inside⟩
  rw [apply]
  exact if_pos (by omega)

theorem apply_miscounted (miscounts : op.Miscounts b.toInt) :
    op.apply a b = .error (.overflow (op.operation a.toInt b.toInt)) := by
  obtain ⟨rfl | rfl, outside⟩ := miscounts
  all_goals
    rw [apply]
    exact if_neg outside

theorem apply_mod (divisor : b.toInt ≠ 0) :
    BinaryOp.mod.apply a b =
      if Fits (a.toInt.tdiv b.toInt) then
        checked (BinaryOp.mod.operation a.toInt b.toInt) (a.toInt.tmod b.toInt)
      else .error (.overflow (BinaryOp.mod.operation a.toInt b.toInt)) := by
  have nonzero : b ≠ 0 := fun h => divisor (h ▸ rfl)
  rw [apply]
  simp only [if_neg nonzero, Option.isNone_iff_eq_none, Integer.narrow?_eq_none_iff,
    ite_not]
  rfl

theorem apply_zero (divides : op = .div ∨ op = .mod) (zero : b.toInt = 0) :
    op.apply a b = .error .divideByZero := by
  obtain rfl : b = 0 := Int64.toInt_inj.mp zero
  rcases divides with rfl | rfl <;> rfl

/-- How an operator answers to two integers, compared with its exact result. -/
structure AnswersExactly (op : BinaryOp) (a b : Int64) : Prop where
  /-- A result is the exact one, unless bits are dropped. -/
  exact : ∀ r, op.apply a b = .ok r → ¬ op.DropsBits a.toInt b.toInt →
    op.unbounded? a.toInt b.toInt = some r.toInt
  /-- What does not fit is an overflow, unless bits are dropped. -/
  overflow : ∀ x, op.unbounded? a.toInt b.toInt = some x → ¬ Fits x →
    ¬ op.DropsBits a.toInt b.toInt →
    op.apply a b = .error (.overflow (op.operation a.toInt b.toInt))
  /-- So is a shift whose count is negative or too great. -/
  miscount : op.Miscounts b.toInt →
    op.apply a b = .error (.overflow (op.operation a.toInt b.toInt))
  divideByZero : op = .div ∨ op = .mod → b.toInt = 0 → op.apply a b = .error .divideByZero
  /-- Nothing else fails, but the remainder whose quotient does not fit. -/
  answers : ∀ x, op.unbounded? a.toInt b.toInt = some x → Fits x → ¬ op.Miscounts b.toInt →
    (op = .mod → Fits (a.toInt.tdiv b.toInt)) → ∃ r, op.apply a b = .ok r ∧ r.toInt = x
  /-- What a left shift drops are the bits beyond the word. -/
  dropped : op.DropsBits a.toInt b.toInt → ∃ r, op.apply a b = .ok r ∧
    r.toInt = (a.toInt * 2 ^ b.toInt.toNat).bmod (2 ^ 64)

namespace AnswersExactly

theorem of_checked {x : Int} (result : op.unbounded? a.toInt b.toInt = some x)
    (checks : op.apply a b = checked (op.operation a.toInt b.toInt) x)
    (counts : ¬ op.Miscounts b.toInt) (divisor : op = .div ∨ op = .mod → b.toInt ≠ 0)
    (keeps : ¬ op.DropsBits a.toInt b.toInt) : op.AnswersExactly a b where
  exact r answer _ := by
    rw [checks] at answer
    rw [result, eq_toInt_of_checked answer]
  overflow x' result' exceeds _ := by
    cases result.symm.trans result'
    rw [checks, checked_of_not_fits exceeds]
  miscount miscounts := absurd miscounts counts
  divideByZero divides zero := absurd zero (divisor divides)
  answers x' result' fits _ _ := by
    cases result.symm.trans result'
    obtain ⟨r, rfl⟩ := fits.exists_toInt
    exact ⟨r, by rw [checks, checked_toInt], rfl⟩
  dropped drops := absurd drops keeps

theorem of_overflow
    (answer : op.apply a b = .error (.overflow (op.operation a.toInt b.toInt)))
    (cause : op.Miscounts b.toInt ∨
      op = .mod ∧ b.toInt ≠ 0 ∧ ¬ Fits (a.toInt.tdiv b.toInt)) : op.AnswersExactly a b where
  exact r returned := by
    rw [answer] at returned
    cases returned
  overflow _ _ _ _ := answer
  miscount _ := answer
  divideByZero divides zero := by
    rcases cause with ⟨rfl | rfl, -⟩ | ⟨-, divisor, -⟩
    · simp at divides
    · simp at divides
    · exact absurd zero divisor
  answers x result fits counts divides := by
    rcases cause with miscounts | ⟨remainder, -, exceeds⟩
    · exact absurd miscounts counts
    · exact absurd (divides remainder) exceeds
  dropped := by
    rintro ⟨rfl, inside, -⟩
    rcases cause with ⟨-, outside⟩ | ⟨remainder, -⟩
    · exact absurd inside outside
    · cases remainder

theorem of_zero (divides : op = .div ∨ op = .mod) (zero : b.toInt = 0) :
    op.AnswersExactly a b := by
  have answer : op.apply a b = .error .divideByZero := apply_zero divides zero
  have undefined : op.unbounded? a.toInt b.toInt = none := by
    rcases divides with rfl | rfl <;> exact if_pos zero
  exact {
    exact := fun r returned => by
      rw [answer] at returned
      cases returned
    overflow := fun x result => by
      rw [undefined] at result
      cases result
    miscount := by
      rintro ⟨left | right, -⟩
      · rcases divides with rfl | rfl <;> cases left
      · rcases divides with rfl | rfl <;> cases right
    divideByZero := fun _ _ => answer
    answers := fun x result => by
      rw [undefined] at result
      cases result
    dropped := by
      rintro ⟨rfl, -⟩
      rcases divides with left | left <;> cases left }

theorem shiftLeft (inside : 0 ≤ b.toInt ∧ b.toInt < 64) :
    BinaryOp.shiftLeft.AnswersExactly a b := by
  obtain ⟨lower, upper⟩ := inside
  have count : b.toInt = b.toInt.toNat := (Int.toNat_of_nonneg lower).symm
  have result : BinaryOp.shiftLeft.unbounded? a.toInt b.toInt =
      some (a.toInt * 2 ^ b.toInt.toNat) := if_pos lower
  have counts : ¬ BinaryOp.shiftLeft.Miscounts b.toInt := fun miscounts =>
    miscounts.2 ⟨lower, upper⟩
  obtain ⟨r, answer, low⟩ := apply_shiftLeft (a := a) count (by omega)
  by_cases fits : Fits (a.toInt * 2 ^ b.toInt.toNat)
  · have kept : r.toInt = a.toInt * 2 ^ b.toInt.toNat := by
      obtain ⟨atLeast, atMost⟩ := fits
      rw [low]
      refine Int.bmod_eq_of_le ?_ ?_
      · exact le_trans (by decide) atLeast
      · exact lt_of_le_of_lt atMost (by decide)
    refine of_checked result ?_ counts (by simp) fun drops => drops.2.2 fits
    rw [answer, ← kept, checked_toInt]
  · have drops : BinaryOp.shiftLeft.DropsBits a.toInt b.toInt := ⟨rfl, ⟨lower, upper⟩, fits⟩
    exact {
      exact := fun _ _ keeps => absurd drops keeps
      overflow := fun _ _ _ keeps => absurd drops keeps
      miscount := fun miscounts => absurd miscounts counts
      divideByZero := fun divides => by simp at divides
      answers := fun x result' fits' => by
        cases result.symm.trans result'
        exact absurd fits' fits
      dropped := fun _ => ⟨r, answer, low⟩ }

theorem shiftRight (inside : 0 ≤ b.toInt ∧ b.toInt < 64) :
    BinaryOp.shiftRight.AnswersExactly a b := by
  obtain ⟨lower, upper⟩ := inside
  have count : b.toInt = b.toInt.toNat := (Int.toNat_of_nonneg lower).symm
  obtain ⟨r, answer, quotient⟩ := apply_shiftRight (a := a) count (by omega)
  have result : BinaryOp.shiftRight.unbounded? a.toInt b.toInt = some r.toInt := by
    rw [quotient]
    exact if_pos lower
  refine of_checked result ?_ (fun miscounts => miscounts.2 ⟨lower, upper⟩) (by simp) ?_
  · rw [answer, checked_toInt]
  · rintro ⟨left, -⟩
    cases left

theorem mod (divisor : b.toInt ≠ 0) : BinaryOp.mod.AnswersExactly a b := by
  have answer := apply_mod (a := a) divisor
  by_cases fits : Fits (a.toInt.tdiv b.toInt)
  · rw [if_pos fits] at answer
    exact of_checked (if_neg divisor) answer (by simp [Miscounts]) (fun _ => divisor)
      (by simp [DropsBits])
  · rw [if_neg fits] at answer
    exact of_overflow answer (.inr ⟨rfl, divisor, fits⟩)

end AnswersExactly

theorem answersExactly (op : BinaryOp) (a b : Int64) : op.AnswersExactly a b := by
  have plain {x : Int} (result : op.unbounded? a.toInt b.toInt = some x)
      (other : op ≠ .shiftLeft ∧ op ≠ .shiftRight ∧ op ≠ .mod)
      (divisor : op = .div ∨ op = .mod → b.toInt ≠ 0) : op.AnswersExactly a b :=
    .of_checked result (apply_checked result other) (by simp [Miscounts, other]) divisor
      (by simp [DropsBits, other])
  by_cases miscounts : op.Miscounts b.toInt
  · exact .of_overflow (apply_miscounted miscounts) (.inl miscounts)
  by_cases zero : (op = .div ∨ op = .mod) ∧ b.toInt = 0
  · exact .of_zero zero.1 zero.2
  cases op with
  | shiftLeft => exact .shiftLeft (by simpa [Miscounts] using miscounts)
  | shiftRight => exact .shiftRight (by simpa [Miscounts] using miscounts)
  | mod => exact .mod (by simpa using zero)
  | div => exact plain (if_neg (by simpa using zero)) (by simp) (by simpa using zero)
  | _ => exact plain rfl (by simp) (by simp)

end BinaryOp

/-! ## Expressions -/

namespace Expression

/-- The value over the unbounded integers, given the values of the paths. -/
def exactValue? (path : String → List String → Except ExpressionError Int64) :
    Expression → Option Int
  | .number text => (Literal.magnitude? text).map (↑)
  | .path first rest => (path first rest).toOption.map (·.toInt)
  | .unary op operand => (operand.exactValue? path).map op.unbounded
  | .binary op left right =>
    (left.exactValue? path).bind fun a => (right.exactValue? path).bind fun b => op.unbounded? a b

/-- No left shift in the expression drops bits. -/
def KeepsBits (path : String → List String → Except ExpressionError Int64) : Expression → Prop
  | .number _ | .path _ _ => True
  | .unary _ operand => operand.KeepsBits path
  | .binary op left right => left.KeepsBits path ∧ right.KeepsBits path ∧
    ∀ a ∈ left.exactValue? path, ∀ b ∈ right.exactValue? path, ¬ op.DropsBits a b

variable {path : String → List String → Except ExpressionError Int64}

/-- Where no operator drops bits, each passes on an exact value. -/
theorem exactValue?_of_evaluate {e : Expression} (spelled : e.Spelled) (keeps : e.KeepsBits path)
    {r : Int64} (value : e.evaluate path = .ok r) : e.exactValue? path = some r.toInt := by
  induction e generalizing r with
  | number text =>
    obtain ⟨n, numeral⟩ := spelled
    rw [evaluate, numeral.literal?] at value
    rw [exactValue?, numeral.magnitude?, Option.map_some]
    exact congrArg some (eq_toInt_of_checked value)
  | path first rest =>
    rw [evaluate] at value
    rw [exactValue?, value]
    rfl
  | unary op operand inductionHypothesis =>
    rw [evaluate] at value
    cases operandValue : operand.evaluate path with
    | error =>
      rw [operandValue] at value
      cases value
    | ok a =>
      rw [operandValue] at value
      change op.apply a = .ok r at value
      rw [op.apply_eq] at value
      rw [exactValue?, inductionHypothesis spelled keeps operandValue, Option.map_some,
        eq_toInt_of_checked value]
  | binary op left right ihLeft ihRight =>
    obtain ⟨spelledLeft, spelledRight⟩ := spelled
    obtain ⟨keepsLeft, keepsRight, keepsHere⟩ := keeps
    rw [evaluate] at value
    cases leftValue : left.evaluate path with
    | error =>
      rw [leftValue] at value
      cases value
    | ok a =>
      cases rightValue : right.evaluate path with
      | error =>
        rw [leftValue, rightValue] at value
        cases value
      | ok b =>
        rw [leftValue, rightValue] at value
        change op.apply a b = .ok r at value
        have exactLeft := ihLeft spelledLeft keepsLeft leftValue
        have exactRight := ihRight spelledRight keepsRight rightValue
        rw [exactValue?, exactLeft, exactRight, Option.bind_some, Option.bind_some]
        exact (op.answersExactly a b).exact r value (keepsHere _ exactLeft _ exactRight)

end Expression

namespace Evaluator

open Expression

/-- Every integer that a text has is a literal or the value of the expression that it renders. -/
theorem rendering_of_integer {c : Context} {text : String} {r : Int64}
    (answer : evaluateStandard c text = .ok (.integer r)) :
    Literal.parse? (Text.trim text.toList) = some r ∨
      ∃ e : Expression, e.Rendering text ∧ e.evaluate c.integer = .ok r := by
  have answers := answers_evaluateStandard c text
  rw [answer] at answers
  generalize answered : Except.ok (Evaluated.integer r) = found at answers
  cases answers with
  | literal whole =>
    cases answered
    exact .inl whole
  | @numeric first rest v n _ lone found known =>
    cases answered
    refine .inr ⟨_, rendering_of_lone lone, ?_⟩
    rw [Expression.evaluate, Context.integer, Context.named, found]
    simp only [bind, Except.bind, known]
    rfl
  | @tree e result _ _ rendering yields =>
    refine .inr ⟨e, rendering, ?_⟩
    rw [(spelled_iff.mpr ⟨_, rendering⟩).yields_iff.mp yields]
    cases result <;> cases answered
    rfl
  | element | unknownName | refused => cases answered

end Evaluator

/-- Arithmetic is exact. An operator gives the exact result of its operands where that fits 64
bits, and an overflow where it does not; a shift count that is no index of a bit is an overflow as
well, and a division by zero has an error of its own. The left shift alone gives more: the low bits
of a result that does not fit. So the value of an expression is the exact one if no left shift in it
drops bits, and every integer that a text stands for is such a value or a literal. -/
theorem arithmetic_is_exact (a b : Int64) (c : Context) :
    (∀ op : UnaryOp,
      (∀ r, op.apply a = .ok r ↔ op.unbounded a.toInt = r.toInt) ∧
        (¬ Fits (op.unbounded a.toInt) →
          op.apply a = .error (.overflow ("-" ++ toString a.toInt)))) ∧
    (∀ op : BinaryOp, op.AnswersExactly a b) ∧
    (∀ (path : String → List String → Except ExpressionError Int64) (e : Expression) (r : Int64),
      e.Spelled → e.evaluate path = .ok r → e.KeepsBits path →
      e.exactValue? path = some r.toInt) ∧
    ∀ (text : String) (r : Int64),
      Evaluator.evaluateStandard c text = .ok (.integer r) →
      Literal.parse? (Text.trim text.toList) = some r ∨
        ∃ e : Expression, e.Rendering text ∧ e.evaluate c.integer = .ok r ∧
          (e.KeepsBits c.integer → e.exactValue? c.integer = some r.toInt) := by
  refine ⟨?_, ?_, ?_, ?_⟩
  · intro op
    refine ⟨fun r => ?_, fun exceeds => ?_⟩
    · rw [op.apply_eq]
      exact ⟨eq_toInt_of_checked, fun result => result ▸ checked_toInt _ r⟩
    · rw [op.apply_eq, checked_of_not_fits exceeds]
  · intro op
    exact op.answersExactly a b
  · intro path e r spelled value keeps
    exact Expression.exactValue?_of_evaluate spelled keeps value
  · intro text r answer
    refine (Evaluator.rendering_of_integer answer).imp_right ?_
    rintro ⟨e, rendering, value⟩
    have spelled := Expression.spelled_iff.mpr ⟨text, rendering⟩
    exact ⟨e, rendering, value, fun keeps =>
      Expression.exactValue?_of_evaluate spelled keeps value⟩

/-- The text `(3 << 4) - 5` as a tree. -/
def shiftedSize : Expression :=
  .binary .sub (.binary .shiftLeft (.number ['3']) (.number ['4'])) (.number ['5'])

/-- A context without names. -/
def nameless : Context := .empty ⟨#[], ⟨0⟩⟩

theorem shiftedSize_spelled : shiftedSize.Spelled := by
  have digit (n : Nat) {c : Char} (isDigit : Text.Numeral.digitOf? 10 c = some n) :
      ∃ n, Numeral [c] n := ⟨_, .decimal ⟨[n], by simp, .cons isDigit .nil, rfl⟩⟩
  exact ⟨⟨digit 3 (by decide), digit 4 (by decide)⟩, digit 5 (by decide)⟩

theorem arithmetic_is_exact_shifted :
    (¬ Fits (UnaryOp.neg.unbounded Int64.minValue.toInt) ∧
      UnaryOp.neg.apply Int64.minValue = .error (.overflow "--9223372036854775808")) ∧
    BinaryOp.div.apply Int64.minValue (-1) = .error (.overflow "-9223372036854775808 / -1") ∧
    (shiftedSize.Spelled ∧ shiftedSize.evaluate nameless.integer = .ok 43 ∧
      shiftedSize.KeepsBits nameless.integer ∧
      shiftedSize.exactValue? nameless.integer = some (43 : Int64).toInt) ∧
    Evaluator.evaluateStandard nameless "(3 << 4) - 5" = .ok (.integer 43) ∧
    ∃ e : Expression, e.Rendering "(3 << 4) - 5" ∧ e.evaluate nameless.integer = .ok 43 ∧
      (e.KeepsBits nameless.integer →
        e.exactValue? nameless.integer = some (43 : Int64).toInt) := by
  obtain ⟨unary, binary, tree, text⟩ := arithmetic_is_exact Int64.minValue (-1) nameless
  have exceeds : ¬ Fits (UnaryOp.neg.unbounded Int64.minValue.toInt) := by decide
  have value : shiftedSize.evaluate nameless.integer = .ok 43 := by decide
  have keeps : shiftedSize.KeepsBits nameless.integer := by
    refine ⟨⟨trivial, trivial, ?_⟩, trivial, ?_⟩
    · rintro a ⟨⟩ b ⟨⟩ ⟨-, -, exceeds⟩
      exact exceeds (by decide)
    · rintro a - b - ⟨shifts, -⟩
      cases shifts
  have answer : Evaluator.evaluateStandard nameless "(3 << 4) - 5" = .ok (.integer 43) := by cbv
  refine ⟨⟨exceeds, (unary .neg).2 exceeds⟩, ?_,
    ⟨shiftedSize_spelled, value, keeps, tree _ _ _ shiftedSize_spelled value keeps⟩, answer, ?_⟩
  · have quotient : BinaryOp.div.unbounded? Int64.minValue.toInt (-1 : Int64).toInt =
        some (2 ^ 63) := by decide
    refine (binary .div).overflow _ quotient (by decide) ?_
    rintro ⟨shifts, -⟩
    cases shifts
  · exact (text _ _ answer).resolve_left (by decide)

/-- One shifted to the place of the sign has become the least integer. -/
theorem left_shift_drops_bits :
    BinaryOp.shiftLeft.unbounded? (1 : Int64).toInt (63 : Int64).toInt = some (2 ^ 63) ∧
      ¬ Fits (2 ^ 63) ∧ BinaryOp.shiftLeft.apply 1 63 = .ok Int64.minValue ∧
      Evaluator.evaluateStandard nameless "1 << 63" = .ok (.integer Int64.minValue) := by
  refine ⟨by decide, by decide, by decide, by cbv⟩

end BinaryTemplate
