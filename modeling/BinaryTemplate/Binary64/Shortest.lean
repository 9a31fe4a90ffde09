import BinaryTemplate.Binary64

/-!
# The shortest decimal of a float

The decimal with the fewest digits that reads back as a given float. A decimal reads back if it
lies among the reals that round to the float; the two ends of that interval belong to it exactly
if the significand is even. For one digit, two digits and so on the two neighbours of the value
on the grid of that many digits are tested, in exact integer arithmetic. The first grid with a
hit wins, of two hits the nearer, and of two equally near ones the greater. The digits are then
laid out positionally, without an exponent.
-/

namespace BinaryTemplate.Binary64

/-- A positive rational number `numerator / denominator`. -/
structure Ratio where
  numerator : Nat
  denominator : Nat
deriving Repr

def scaled (m : Nat) (e : Int) : Ratio :=
  match e with
  | .ofNat k => ⟨m <<< k, 1⟩
  | .negSucc k => ⟨m, 1 <<< (k + 1)⟩

def decimal (n : Nat) (e : Int) : Ratio :=
  match e with
  | .ofNat k => ⟨n * Nat.pow 10 k, 1⟩
  | .negSucc k => ⟨n, Nat.pow 10 (k + 1)⟩

namespace Ratio

def lt (a b : Ratio) : Bool := a.numerator * b.denominator < b.numerator * a.denominator

def le (a b : Ratio) : Bool := a.numerator * b.denominator ≤ b.numerator * a.denominator

def floorDiv (a b : Ratio) : Nat := a.numerator * b.denominator / (a.denominator * b.numerator)

def add (a b : Ratio) : Ratio :=
  ⟨a.numerator * b.denominator + b.numerator * a.denominator, a.denominator * b.denominator⟩

end Ratio

/-- The value of a finite float, sign aside. -/
def magnitude (x : Binary64) : Ratio := scaled x.significand x.exponent

/-- Whether the reals below the float that round to it reach only half as far as those above:
so it is for the powers of two, where the spacing of floats changes. -/
def isBinadeStart (x : Binary64) : Bool := x.fraction == 0 && 1 < x.exponentField

def lowerEnd (x : Binary64) : Ratio :=
  if x.isBinadeStart then scaled (4 * x.significand - 1) (x.exponent - 2)
  else scaled (2 * x.significand - 1) (x.exponent - 1)

def upperEnd (x : Binary64) : Ratio := scaled (2 * x.significand + 1) (x.exponent - 1)

/-- Whether `r` is among the reals that round to the float. -/
def readsBack (x : Binary64) (r : Ratio) : Bool :=
  if x.significand % 2 = 0 then x.lowerEnd.le r && r.le x.upperEnd
  else x.lowerEnd.lt r && r.lt x.upperEnd

/-- The decimal on the grid `10^e` that reads back, the nearer one if both neighbours do and the
greater one if they are equally near. -/
def onGrid? (x : Binary64) (e : Int) : Option Nat :=
  let below := x.magnitude.floorDiv (decimal 1 e)
  let above := below + 1
  match x.readsBack (decimal below e), x.readsBack (decimal above e) with
  | true, true =>
    -- The nearer neighbour is told by comparing twice the value with the sum of the two.
    if (x.magnitude.add x.magnitude).lt (decimal (below + above) e) then some below else some above
  | true, false => some below
  | false, true => some above
  | false, false => none

/-- The least `k` with `value < 10^k`, searched upwards from `k`. -/
def decimalLength (r : Ratio) : Nat → Int → Int
  | 0, k => k
  | fuel + 1, k => if r.lt (decimal 1 k) then k else decimalLength r fuel (k + 1)

/-- The first grid with a hit, from `digits` digits on. -/
def searchGrids (x : Binary64) (length : Int) : Nat → Nat → Nat × Int
  | 0, digits => (x.magnitude.floorDiv (decimal 1 (length - digits)), length - digits)
  | fuel + 1, digits =>
    match x.onGrid? (length - digits) with
    | some n => (n, length - digits)
    | none => searchGrids x length fuel (digits + 1)

/-- The shortest decimal `n · 10^e` of a positive finite float. The greatest float is below
`10^309` and the least one above `10^-324`, and seventeen digits always suffice. -/
def shortest (x : Binary64) : Nat × Int :=
  x.searchGrids (decimalLength x.magnitude 634 (-324)) 17 1

/-- The digits of `n · 10^e` with a point where one is needed. -/
def positional (n : Nat) (e : Int) : String :=
  let digits := Nat.toDigits 10 n
  match e with
  | .ofNat k => String.ofList (digits ++ List.replicate k '0')
  | .negSucc k =>
    let places := k + 1
    let padded := List.replicate (places + 1 - digits.length) '0' ++ digits
    let fractionDigits := padded.drop (padded.length - places)
    let kept := (fractionDigits.reverse.dropWhile (· == '0')).reverse
    let whole := String.ofList (padded.take (padded.length - places))
    if kept.isEmpty then whole else whole ++ "." ++ String.ofList kept

/-- The text of a float: the shortest decimal that reads back, written positionally. -/
def text (x : Binary64) : String :=
  if x.isNaN then "NaN"
  else
    let unsigned :=
      if x.isInfinite then "inf"
      else if x.significand = 0 then "0"
      else positional x.shortest.1 x.shortest.2
    if x.isNegative then "-" ++ unsigned else unsigned

end BinaryTemplate.Binary64
