import UnitPlane.Proofs.Double.Rounded

/-!
# `UnitPlane.Proofs.Double.Tolerance`: the tolerance of a comparison

Doubles are compared up to a billionth, of one for those below one and of themselves for the others.
The double that is compared with is that number but for two roundings: the factor is the double
nearest to a billionth, which is a little more, and the product with the size is rounded once more.
Together they change the tolerance by less than a part in `2 ^ 51`: `exists_place?_tolerance`. So
what is proved of a comparison with a tolerance can be proved over the rational numbers, with a
little room on both sides.
-/

set_option autoImplicit false

namespace UnitPlane.Double

open Float.Model Float.Model.UnpackedFloat

variable {x : Float} {v : ℚ}

/-- The mantissa and the exponent of the double nearest to a billionth, which is how the factor of
the tolerance is kept. -/
theorem toRat?_billionth : toRat? 1e-9 = some (4835703278458517 * 2 ^ (-82 : ℤ)) :=
  toRat?_of_eq_ofParts ⟨by decide, by decide, by decide, by decide, .inl (by decide)⟩
    (by decide)

/-- The nearest double to a billionth is not a billionth. It is a little more, by less than a part
in `2 ^ 53`. -/
theorem billionth_bounds : (1 : ℚ) / 10 ^ 9 < 4835703278458517 * 2 ^ (-82 : ℤ) ∧
    4835703278458517 * 2 ^ (-82 : ℤ) ≤ (1 : ℚ) / 10 ^ 9 * (1 + 1 / 2 ^ 53) := by
  norm_num

/-- The size of a double, but one for those below one. Both branches are exact, so the factor of the
tolerance is the only rounding before the product. -/
theorem toRat?_scale (h : toRat? x = some v) :
    toRat? (if x.abs < 1 then 1 else x.abs) = some (max 1 |v|) := by
  have habs := toRat?_abs h
  have hlt : x.abs < 1 ↔ |v| < 1 := lt_iff_place_lt (place?_of_toRat? habs)
    (place?_of_toRat? toRat?_one)
  by_cases hv : |v| < 1
  · rw [if_pos (hlt.2 hv), max_eq_left hv.le]
    exact toRat?_one
  · rw [if_neg (hlt.not.2 hv), max_eq_right (not_lt.1 hv)]
    exact habs

/-- Such small changes do not take a number below zero. So a tolerance is never negative, whatever
is rounded. -/
theorem nonneg_of_near {τ b : ℚ} (hb : 0 ≤ b) (h : |τ - b| ≤ b / 2 ^ 51) : 0 ≤ τ := by
  have hlow := (abs_le.1 h).1
  have hpart : b / 2 ^ 51 ≤ b := div_le_self hb (by norm_num)
  linarith

/-- The tolerance is a billionth of the size, but for the roundings of the factor and of the
product. -/
theorem exists_place?_tolerance (h : toRat? x = some v) :
    ∃ τ, place? (1e-9 * (if x.abs < 1 then 1 else x.abs)) = some τ ∧
      |τ - max 1 |v| / 10 ^ 9| ≤ max 1 |v| / 10 ^ 9 / 2 ^ 51 := by
  have hscale := toRat?_scale h
  obtain ⟨τ, hτ, hround⟩ := exists_rounds_mul toRat?_billionth hscale
  obtain ⟨hlow, hhigh⟩ := billionth_bounds
  refine ⟨τ, hτ, ?_⟩
  have hM : (1 : ℚ) ≤ max 1 |v| := le_max_left 1 |v|
  have hplace : max 1 |v| < overflow := by
    refine max_lt ?_ (abs_lt_overflow h)
    exact lt_of_lt_of_le (by norm_num) (pow_le_pow_right₀ one_le_two (show 1 ≤ 1024 by norm_num))
  -- From here on it is only used that the size is at least one and that the factor is near a
  -- billionth.
  generalize max 1 |v| = M at hround hM hplace ⊢
  generalize (4835703278458517 * 2 ^ (-82 : ℤ) : ℚ) = c at hround hlow hhigh
  have hlow := mul_le_mul_of_nonneg_right hlow.le (zero_le_one.trans hM)
  have hhigh := mul_le_mul_of_nonneg_right hhigh (zero_le_one.trans hM)
  -- A product with a number below a half is not rounded to infinity.
  have hfinite : c * M ≤ 2 ^ 1023 := by
    have htwice : overflow = 2 * 2 ^ 1023 := pow_succ' 2 1023
    rw [htwice] at hplace
    generalize (2 : ℚ) ^ 1023 = top at hplace ⊢
    linarith
  have hround := hround.roundsTo (by linarith)
  have hmoved := hround.abs_sub_le (by linarith) (hround.lt_overflow hfinite)
  have hsmallest := half_smallest_le
  rw [abs_le] at hmoved ⊢
  constructor <;> linarith

end UnitPlane.Double
