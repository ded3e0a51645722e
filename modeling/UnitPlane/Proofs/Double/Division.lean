import UnitPlane.Proofs.Double.Rounded

/-!
# `UnitPlane.Proofs.Double.Division`: quotients by one double

Display values are quotients of one row of doubles by one double, so what matters of division here
is what it keeps of a row. Dividing by a positive double keeps the order of finite doubles, also
where the quotients are infinite, and where the divisor is. A quotient is finite only if the
dividend is and the divisor is not a zero.

* `div_le_div_right`: quotients by a positive double are in the order of the dividends.
* `isFinite_of_div` and `isFinite_div_zero`: what does not have finite quotients.
-/

set_option autoImplicit false

namespace UnitPlane.Double

open Float.Model Float.Model.UnpackedFloat

variable {x y z : Float}

/-- Above zero there are the finite doubles with a plus sign and infinity. -/
theorem toRat?_or_infinity_of_pos (h : 0 < z) :
    (∃ w, toRat? z = some w ∧ 0 < w) ∨ parts z = .infinity .positive := by
  -- Of what is not finite only the positive infinity is above zero.
  cases hfinite : z.isFinite with
  | true =>
    obtain ⟨w, hw⟩ := exists_toRat? hfinite
    exact .inl ⟨w, hw, (pos_iff_of_toRat? hw).1 h⟩
  | false =>
    have hpos := (lt_iff 0 z).1 h
    have hparts : (parts z).isFinite = false := hfinite
    rw [parts_zero] at hpos
    cases hz : parts z with
    | zero s | finite s =>
      rw [hz] at hparts
      cases hparts
    | notANumber =>
      rw [hz] at hpos
      cases hpos
    | infinity s =>
      rw [hz] at hpos
      cases s with
      | positive => exact .inr rfl
      | negative => cases hpos

/-- Quotients by a positive double, which may be infinite, are in the order of the dividends. By a
finite one it is the order of the exact quotients, which rounding keeps. -/
theorem div_le_div_right (hx : x.isFinite = true) (hy : y.isFinite = true) (hxy : x ≤ y)
    (hz : 0 < z) :
    x / z ≤ y / z := by
  obtain ⟨v, hv⟩ := exists_toRat? hx
  obtain ⟨u, hu⟩ := exists_toRat? hy
  have hvu := (le_iff_place_le (place?_of_toRat? hv) (place?_of_toRat? hu)).1 hxy
  -- By a finite number, division is rounding of the exact quotients, and rounding keeps the order.
  rcases toRat?_or_infinity_of_pos hz with ⟨w, hw, hpos⟩ | hinfinite
  · obtain ⟨p, hp, hround⟩ := exists_rounds_div hv hw hpos.ne'
    obtain ⟨q, hq, hround'⟩ := exists_rounds_div hu hw hpos.ne'
    exact (le_iff_place_le hp hq).2 (hround.mono hround' (div_le_div_of_nonneg_right hvu hpos.le))
  · -- Quotients by infinity are zeros, of either sign.
    have hzero {a : Float} (ha : a.isFinite = true) : place? (a / z) = some 0 := by
      have hdiv : a / z = ofParts (UnpackedFloat.div Format.binary64 (parts a) (parts z)) := rfl
      rw [isFinite_iff] at ha
      rw [hdiv, hinfinite]
      cases hparts : parts a with
      | notANumber | infinity s =>
        rw [hparts] at ha
        cases ha
      | zero s | finite s => exact place?_ofParts_zero _
    exact (le_iff_place_le (hzero hx) (hzero hy)).2 le_rfl

/-- Packing does not make finite what is not: infinities and what is not a number keep being so. -/
theorem isFinite_ofParts_of_not {P : UnpackedFloat} (h : P.isFinite = false) :
    (ofParts P).isFinite = false := by
  have hcanonical : CanonicalParts P := by
    cases P with
    | notANumber | infinity s => trivial
    | zero s | finite s => cases h
  show (parts (ofParts P)).isFinite = false
  rwa [parts_ofParts hcanonical]

/-- Only finite doubles have finite quotients. An infinite dividend has infinite quotients, or none
that are numbers. -/
theorem isFinite_of_div (h : (x / y).isFinite = true) : x.isFinite = true := by
  by_contra hx
  have hparts : (parts x).isFinite = false := Bool.eq_false_iff.2 hx
  have hdiv : (UnpackedFloat.div Format.binary64 (parts x) (parts y)).isFinite = false := by
    cases hpx : parts x with
    | zero s | finite s =>
      rw [hpx] at hparts
      cases hparts
    | notANumber => rfl
    | infinity s => cases parts y <;> rfl
  have hquotient : (x / y).isFinite = false := isFinite_ofParts_of_not hdiv
  rw [h] at hquotient
  cases hquotient

/-- No quotient by zero is finite, and the quotient of zero by zero is not a number. -/
theorem isFinite_div_zero (x : Float) : (x / 0).isFinite = false := by
  have hdiv : (UnpackedFloat.div Format.binary64 (parts x) (parts 0)).isFinite = false := by
    rw [parts_zero]
    cases parts x <;> rfl
  exact isFinite_ofParts_of_not hdiv

end UnitPlane.Double
