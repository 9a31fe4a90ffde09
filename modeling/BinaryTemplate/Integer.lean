/-!
# Signed integers of 64 bits

Every integer of a template and of its expressions has 64 bits and a sign. Results are computed
over the unbounded integers first and then narrowed: `narrow?` answers exactly when nothing is
lost, so an operation that leaves the range is seen as such and never wraps.
-/

namespace BinaryTemplate.Integer

abbrev least : Int := -0x8000000000000000

abbrev greatest : Int := 0x7FFFFFFFFFFFFFFF

/-- Integers of 64 bits without a sign are below this limit. -/
abbrev unsignedLimit : Nat := 0x10000000000000000

/-- The integer of 64 bits with the value `n`, if there is one. -/
def narrow? (n : Int) : Option Int64 :=
  if least ≤ n ∧ n ≤ greatest then some (Int64.ofInt n) else none

theorem toInt_narrow? {n : Int} {k : Int64} (h : narrow? n = some k) : k.toInt = n := by
  unfold narrow? at h
  split at h
  · next inRange =>
    obtain ⟨lower, upper⟩ := inRange
    cases h
    exact Int64.toInt_ofInt_of_le (by simpa [least] using lower)
      (by simp [greatest] at upper; omega)
  · cases h

theorem narrow?_toInt (k : Int64) : narrow? k.toInt = some k := by
  have lower := Int64.le_toInt k
  have upper := Int64.toInt_lt k
  have inRange : least ≤ k.toInt ∧ k.toInt ≤ greatest := by simp [least, greatest]; omega
  simp [narrow?, inRange]

theorem narrow?_eq_some_iff {n : Int} {k : Int64} : narrow? n = some k ↔ n = k.toInt :=
  ⟨fun h => (toInt_narrow? h).symm, fun h => h ▸ narrow?_toInt k⟩

end BinaryTemplate.Integer
