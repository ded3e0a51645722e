import UnitPlane.Proofs.Double.Negation
import UnitPlane.Proofs.Exponent.Fraction

/-!
# `UnitPlane.Proofs.Exponent.Opposite`: opposite doubles are read as opposite exponents

Each denominator is tried in the same way for a double and its opposite: the numerators are
opposite, and as close. What keeps a numerator from being tried is its magnitude, although one more
integer would fit on the negative side. So the search stops at the same denominator, and what it
finds on the one side fits on the other: `map_val_ofFloat?_neg`. The equation is between values,
because the opposite of an exponent need not be an exponent.
-/

set_option autoImplicit false

namespace UnitPlane.Exponent

open Double

/-- Opposite doubles have the same tolerance, which depends on their size alone. -/
theorem tolerance_neg (x : Float) : tolerance (-x) = tolerance x := by
  unfold tolerance
  rw [Double.abs_neg]

/-- Opposite fractions are as far from opposite doubles, in floating point too: division and
subtraction round opposite numbers to opposite numbers. -/
theorem distance_neg (n : ℤ) (d : ℕ) (x : Float) :
    (Float.ofInt (-n) / Float.ofNat d - -x).abs = (Float.ofInt n / Float.ofNat d - x).abs := by
  rw [((ofInt_neg n).div (Float.ofNat d)).abs_sub, Double.neg_div, abs_neg_sub_neg]

/-- Over each denominator the numerator changes its sign with the double, and is as close. Rounding
to the nearest integer takes opposite numbers to opposite integers. -/
theorem atDenominator_neg (x : Float) (d : ℕ) :
    atDenominator (-x) d = (atDenominator x d).map fun p => (-p.1, p.2) := by
  unfold atDenominator
  rw [Double.neg_mul, nearest?_neg]
  cases Rounding.nearest? (x * Float.ofNat d) with
  | none => rfl
  | some n =>
    dsimp only [Option.bind_eq_bind, Option.map_some, Option.bind_some]
    rw [Int.natAbs_neg, distance_neg, tolerance_neg]
    split <;> rfl

/-- The numerators that are tried are small enough to have an opposite, because their magnitude is
compared with the largest integer that fits. -/
theorem natAbs_le_of_atDenominator {x : Float} {d : ℕ} {n : ℤ} {close : Bool}
    (h : atDenominator x d = some (n, close)) : n.natAbs ≤ 2147483647 := by
  unfold atDenominator at h
  obtain ⟨k, -, h⟩ := Option.bind_eq_some_iff.1 h
  split at h
  · cases h
  next hsmall =>
    cases h
    omega

/-- A fraction with the opposite numerator is the opposite fraction, or both are absent. The
smallest integer, which has no opposite, is left out by the bound. -/
theorem map_val_ofFraction?_neg {n : ℤ} (hn : n.natAbs ≤ 2147483647) (d : ℤ) :
    (ofFraction? (-n) d).map val = (ofFraction? n d).map fun p => -p.val := by
  have hfits : Fits32 n ∧ Fits32 (-n) := by
    unfold Fits32
    omega
  -- Both numerators fit, so it depends on the denominator alone whether there is a fraction.
  by_cases hd : Fits32 d ∧ 0 < d
  · obtain ⟨p, hp, hval⟩ := ofFraction?_eq_some hfits.1 hd.1 hd.2
    obtain ⟨p', hp', hval'⟩ := ofFraction?_eq_some hfits.2 hd.1 hd.2
    rw [hp, hp', Option.map_some, Option.map_some, hval, hval', Rat.neg_mkRat]
  · unfold ofFraction?
    rw [dif_neg (fun h => hd h.2), dif_neg (fun h => hd h.2)]
    rfl

/-- The search stops at the same denominator for a double and its opposite, or gives up at the same
one, and what it finds are opposite fractions. -/
theorem map_val_searchFrom_neg (x : Float) (steps d : ℕ) :
    (searchFrom (-x) steps d).map val = (searchFrom x steps d).map fun p => -p.val := by
  -- By induction on the steps that are left. Each of them is the same for both doubles, up to the
  -- sign.
  induction steps generalizing d with
  | zero => rfl
  | succ steps ih =>
    rw [searchFrom, searchFrom, atDenominator_neg]
    cases h : atDenominator x d with
    | none => rfl
    | some p =>
      obtain ⟨n, close⟩ := p
      cases close with
      | true => exact map_val_ofFraction?_neg (natAbs_le_of_atDenominator h) d
      | false => exact ih (d + 1)

/-- Opposite doubles are read as opposite exponents, or both not at all. So the reciprocal of a
power has the opposite exponent, whatever exponent the power has. -/
theorem map_val_ofFloat?_neg (x : Float) :
    (ofFloat? (-x)).map val = (ofFloat? x).map fun p => -p.val := by
  unfold ofFloat?
  rw [isFinite_neg]
  split
  · exact map_val_searchFrom_neg x _ _
  · rfl

end UnitPlane.Exponent
