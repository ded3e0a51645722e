import UnitPlane.Exponent.Fraction
import UnitPlane.Proofs.Double.Tolerance
import UnitPlane.Proofs.Exponent

/-!
# `UnitPlane.Proofs.Exponent.Fraction`: integers read as exponents

A double that is an integer is close to a fraction with the denominator one, which is tried first.
So it is read as exactly that integer, or refused because the integer does not fit:
`ofFloat?_of_integer`. The tolerance plays no part in this. It is never negative, and the integer is
at no distance from the double, so that it is close whatever the tolerance.
-/

set_option autoImplicit false

namespace UnitPlane.Exponent

open Double

/-- The tolerance is not below zero, so whatever is at no distance is within it. It is a billionth
of a size that is at least one, and rounding does not turn this into a negative number. -/
theorem zero_le_tolerance {x : Float} (hx : x.isFinite = true) : 0 ≤ tolerance x := by
  obtain ⟨v, hv⟩ := exists_toRat? hx
  obtain ⟨τ, hτ, hnear⟩ := exists_place?_tolerance hv
  have hsize : 0 ≤ max 1 |v| / 10 ^ 9 := by positivity
  exact (le_iff_place_le (place?_of_toRat? toRat?_zero) hτ).2 (nonneg_of_near hsize hnear)

/-- An integer is at no distance from the fraction with itself as the numerator and the denominator
one: nothing is rounded on the way. -/
theorem distance_eq_zero {x : Float} {n : ℤ} (h : toRat? x = some (n : ℚ)) :
    (Float.ofInt n / Float.ofNat 1 - x).abs = 0 := by
  show (Float.ofInt n / 1 - x).abs = 0
  -- The negative zero is the one integer that is not given back by its numerator, so it is computed
  -- by itself.
  by_cases hx : x = -0
  · subst hx
    obtain rfl : n = 0 := by
      have hzero : toRat? (-0) = some 0 := by
        rw [toRat?, parts_neg_zero]
      rw [hzero] at h
      exact_mod_cast (Option.some.inj h).symm
    decide
  · rw [ofInt_eq_self h hx, Double.div_one, Double.sub_self (isFinite_of_toRat? h)]
    decide

/-- The first denominator that is tried is one, and over it an integer finds itself and is close. It
is given up only where its magnitude does not fit. -/
theorem atDenominator_one {x : Float} {n : ℤ} (h : toRat? x = some (n : ℚ)) :
    atDenominator x 1 = if 2147483647 < n.natAbs then none else some (n, true) := by
  have hnearest : Rounding.nearest? (x * Float.ofNat 1) = some n := by
    show Rounding.nearest? (x * 1) = some n
    rw [Double.mul_one, nearest?_eq h]
  unfold atDenominator
  rw [hnearest]
  show (if 2147483647 < n.natAbs then none
    else some (n, decide ((Float.ofInt n / Float.ofNat 1 - x).abs ≤ tolerance x))) = _
  rw [distance_eq_zero h, decide_eq_true (zero_le_tolerance (isFinite_of_toRat? h))]

/-- A double that is an integer is read as that integer, if it fits. The search ends at its first
step, so no other fraction is ever tried. -/
theorem ofFloat?_of_integer {x : Float} {n : ℤ} (h : toRat? x = some (n : ℚ)) :
    ofFloat? x = if 2147483647 < n.natAbs then none else ofFraction? n 1 := by
  show (if x.isFinite = true then searchFrom x (999 + 1) 1 else none) = _
  rw [if_pos (isFinite_of_toRat? h), searchFrom, atDenominator_one h]
  by_cases hlarge : 2147483647 < n.natAbs
  · rw [if_pos hlarge, if_pos hlarge]
  · rw [if_neg hlarge, if_neg hlarge]
    rfl

/-- Whatever a double that is an integer is read as is that integer. Powers with such exponents
therefore have the exponents that are written. -/
theorem val_of_ofFloat? {x : Float} {n : ℤ} {p : Exponent} (h : toRat? x = some (n : ℚ))
    (hp : ofFloat? x = some p) : p.val = n := by
  rw [ofFloat?_of_integer h] at hp
  split at hp
  · cases hp
  · unfold ofFraction? at hp
    split at hp
    · cases hp
      show mkRat n 1 = n
      rw [Rat.mkRat_one]
    · cases hp

end UnitPlane.Exponent
