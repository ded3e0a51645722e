import UnitPlane.Proofs.Double.Closest

/-!
# `UnitPlane.Proofs.Double.Conversion`: a product divided by its factor

A double is multiplied by a positive scale, and the product divided by the scale. If the product is
finite, so is the quotient, up to the largest double: products with that are not rounded up. The
quotient is the double closest to the exact one, which the first double is near to; so it is at most
twice as far from the first double as the product was moved. That is next to nothing where the
product has its usual precision. Below, where doubles have fewer digits, the quotient may lose all
of them.

* `RoundsTo.div_le_largest`: the exact quotient is not beyond the largest double.
* `exists_mul_div`: the quotient is a double, the one closest to the exact quotient.
* `Regained` and `regained_of_rounds`: how much of the first double is left.
-/

set_option autoImplicit false

namespace UnitPlane.Double

open Float.Model Float.Model.UnpackedFloat

variable {x s : Float} {M S P B q p : ℚ}

/-! ### The largest double -/

/-- The largest double: all 53 bits are set, at the largest exponent. -/
def largest : ℚ := ((2 ^ 53 - 1 : ℕ) : ℚ) * 2 ^ (971 : ℤ)

/-- The largest double is below the place that infinity is given, by one unit of its last place. -/
theorem largest_lt_overflow : largest < overflow :=
  Canonical.value_lt ⟨by norm_num, by norm_num, by norm_num, le_rfl, .inl (by norm_num)⟩

/-- The largest double is not negative. -/
theorem largest_nonneg : 0 ≤ largest := by
  unfold largest
  positivity

/-- The place of infinity is what the largest exponent would have with one more bit. -/
theorem overflow_eq_mul : overflow = ((2 ^ 53 : ℕ) : ℚ) * 2 ^ (971 : ℤ) := by
  unfold overflow
  rw [Nat.cast_pow, Nat.cast_ofNat, ← zpow_natCast, ← zpow_natCast, ← zpow_add₀ (by norm_num)]
  rfl

/-- No double is further from zero than the largest one. -/
theorem abs_le_largest (h : toRat? x = some M) : |M| ≤ largest := by
  have habs := toRat?_abs h
  rcases (abs_nonneg M).eq_or_lt with hzero | hpos
  · exact hzero ▸ largest_nonneg
  · refine le_pred_of_lt (n := 2 ^ 53) (by norm_num) habs hpos ?_
    rw [← overflow_eq_mul]
    exact abs_lt_overflow h

/-- Half of the smallest double is at most half of any positive one. So what rounding moves the
smallest numbers by is no more than half of the scale. -/
theorem half_smallest_le_half (hs : toRat? s = some S) (hS : 0 < S) :
    (2 : ℚ) ^ (-1075 : ℤ) ≤ S / 2 := by
  obtain ⟨n, rfl⟩ := exists_multiple hs hS
  have hunit : (2 : ℚ) ^ (-1074 : ℤ) = 2 * 2 ^ (-1075 : ℤ) := by
    rw [show (-1074 : ℤ) = 1 + -1075 from rfl, zpow_add₀ (by norm_num), zpow_one]
  have hpos : (0 : ℚ) < 2 ^ (-1075 : ℤ) := by positivity
  have hn : 0 < n := Nat.pos_of_ne_zero fun h0 => by simp [h0] at hS
  have hone : (1 : ℚ) ≤ n := by exact_mod_cast hn
  rw [hunit]
  linarith [mul_le_mul_of_nonneg_right hone hpos.le]

/-- Numbers of 53 bits before the point have their last place there. The binade that a number lies
in decides its last place. -/
theorem LastPlace.eq_of_units {z : ℚ} {t e : ℤ} (h : LastPlace (z * 2 ^ e) t) (he : -1074 ≤ e)
    (hlow : 2 ^ 52 ≤ z) (hhigh : z < 2 ^ 53) : t = e := by
  have hpos : (0 : ℚ) < 2 ^ e := by positivity
  have hlower : (2 : ℚ) ^ (52 + e) ≤ z * 2 ^ e := by
    rw [zpow_add₀ (by norm_num), zpow_ofNat]
    exact mul_le_mul_of_nonneg_right hlow hpos.le
  have hupper : z * 2 ^ e < (2 : ℚ) ^ (53 + e) := by
    rw [zpow_add₀ (by norm_num), zpow_ofNat]
    exact mul_lt_mul_of_pos_right hhigh hpos
  have hge : 52 + e < 53 + t := (zpow_lt_zpow_iff_right₀ one_lt_two).1 (hlower.trans_lt h.lt)
  rcases h.normal with hnormal | rfl
  · have hle : 52 + t < 53 + e := (zpow_lt_zpow_iff_right₀ one_lt_two).1 (hnormal.trans_lt hupper)
    omega
  · omega

/-- A number more than a half of its last place below the next multiple is not rounded up to it. It
goes to the multiple below, and so not beyond itself. -/
theorem RoundsTo.le_of_lt_sub_half {z : ℚ} {e : ℤ} {n : ℕ} (h : RoundsTo (z * 2 ^ e) p)
    (he : -1074 ≤ e) (hlow : 2 ^ 52 ≤ z) (hhigh : z < 2 ^ 53) (hhalf : z < n - 1 / 2)
    (hone : n - 1 ≤ z) : p ≤ z * 2 ^ e := by
  obtain ⟨t, r, hlast, hr, hp⟩ := h
  have hpos : (0 : ℚ) < 2 ^ t := by positivity
  obtain rfl := hlast.eq_of_units he hlow hhigh
  rw [mul_div_cancel_right₀ _ hpos.ne'] at hr
  have hlt : (r : ℚ) < n := by linarith [hr.low]
  have hle : (r : ℚ) + 1 ≤ n := by exact_mod_cast hlt
  rw [hp]
  exact (min_le_left _ _).trans (mul_le_mul_of_nonneg_right (by linarith) hpos.le)

/-- A product with the largest double is not rounded up: the mantissas of two doubles differ by more
than a half of the last place of their product. -/
theorem RoundsTo.le_of_largest_mul {m : ℕ} {e : ℤ} (hc : Canonical m e)
    (h : RoundsTo (largest * (m * 2 ^ e)) p) : p ≤ largest * (m * 2 ^ e) := by
  have hvalue := fullMantissa_mul hc.pos hc.lt e
  obtain ⟨hlow, hhigh⟩ := le_fullMantissa hc.pos hc.lt
  generalize fullMantissa m = n at hvalue hlow hhigh
  obtain ⟨k, hk⟩ : ∃ k : ℤ, (m.log2 : ℤ) - 52 + e = k := ⟨_, rfl⟩
  have hkle : -1126 ≤ k := by have := hc.le_exponent; omega
  rw [hk] at hvalue
  rw [← hvalue] at h ⊢
  rcases hlow.eq_or_lt with rfl | hlow
  · -- A power of two leaves the mantissa as it is.
    have hproduct : largest * (((2 ^ 52 : ℕ) : ℚ) * 2 ^ k) =
        ((2 ^ 53 - 1 : ℕ) : ℚ) * 2 ^ (1023 + k) := by
      unfold largest
      rw [show (1023 + k : ℤ) = 971 + (52 + k) by ring, zpow_add₀ (by norm_num),
        zpow_add₀ (by norm_num), zpow_ofNat 2 52, Nat.cast_pow, Nat.cast_ofNat, mul_assoc]
    rw [hproduct] at h ⊢
    exact h.le (by norm_num) (by omega) le_rfl
  · have hproduct : largest * ((n : ℚ) * 2 ^ k) = (n - n / 2 ^ 53) * 2 ^ (1024 + k) := by
      unfold largest
      rw [show (1024 + k : ℤ) = 971 + (53 + k) by ring, zpow_add₀ (by norm_num),
        zpow_add₀ (by norm_num), zpow_ofNat 2 53, Nat.cast_sub (by norm_num), Nat.cast_pow,
        Nat.cast_ofNat, Nat.cast_one]
      generalize (2 : ℚ) ^ (971 : ℤ) = c
      field_simp
      exact mul_comm _ _
    have hn : (2 : ℚ) ^ 52 + 1 ≤ n := by exact_mod_cast hlow
    have hn' : (n : ℚ) ≤ 2 ^ 53 := by exact_mod_cast hhigh.le
    -- In units of its last place it is more than a half below the mantissa, and less than one.
    obtain ⟨hunits, htop, hhalf, hone⟩ : (2 : ℚ) ^ 52 ≤ n - n / 2 ^ 53 ∧
        (n : ℚ) - n / 2 ^ 53 < 2 ^ 53 ∧
        (n : ℚ) - n / 2 ^ 53 < n - 1 / 2 ∧ (n : ℚ) - 1 ≤ n - n / 2 ^ 53 := by
      generalize (n : ℚ) = N at hn hn'
      norm_num at hn hn' ⊢
      refine ⟨?_, ?_, ?_, ?_⟩ <;> linarith
    obtain ⟨e', he'⟩ : ∃ e' : ℤ, 1024 + k = e' := ⟨_, rfl⟩
    rw [hproduct, he'] at h ⊢
    exact h.le_of_lt_sub_half (by omega) hunits htop hhalf hone

/-- A finite product divided by one of its factors is not beyond the largest double. So the quotient
is finite whenever the product is. -/
theorem RoundsTo.div_le_largest (hx : toRat? x = some M) (hM : 0 ≤ M) (hs : toRat? s = some S)
    (hS : 0 < S) (h : RoundsTo (M * S) p) (hp : p < overflow) : p / S ≤ largest := by
  rw [div_le_iff₀ hS]
  rcases hM.eq_or_lt with rfl | hM
  · rw [zero_mul] at h
    exact (h.mono roundsTo_zero le_rfl).trans (mul_nonneg largest_nonneg hS.le)
  -- Only the largest double itself needs the rounding to be looked at closely.
  rcases (abs_of_pos hM ▸ abs_le_largest hx).eq_or_lt with rfl | hlt
  · obtain ⟨m, e, hm, hparts, rfl⟩ := exists_parts_of_pos hs hS
    exact h.le_of_largest_mul (canonical_of_parts hparts)
  · -- Below the largest double there is room for half of the last place of the product.
    have hpred := le_pred_of_lt (n := 2 ^ 53 - 1) (by norm_num) hx hM hlt
    have hhigh := (abs_le.1 (h.abs_sub_le (mul_nonneg hM.le hS.le) hp)).2
    have hsmall := half_smallest_le_half hs hS
    have hpow : (2 : ℚ) ^ 52 ≤ 2 ^ (971 : ℤ) := by
      rw [← zpow_natCast]
      exact zpow_le_zpow_right₀ one_le_two (by norm_num)
    unfold largest
    generalize (2 : ℚ) ^ (971 : ℤ) = c at hpow hpred
    generalize (2 : ℚ) ^ (-1075 : ℤ) = d at hhigh hsmall
    have hproduct : M * S ≤ ((2 ^ 53 - 1 - 1 : ℕ) : ℚ) * (c * S) := by
      rw [← mul_assoc]
      exact mul_le_mul_of_nonneg_right hpred hS.le
    have hroom : 2 ^ 52 * S ≤ c * S := mul_le_mul_of_nonneg_right hpow hS.le
    rw [mul_assoc]
    generalize c * S = t at hproduct hroom
    norm_num at hproduct hhigh ⊢
    linarith

/-- The largest double is not rounded beyond itself, so nothing up to it is rounded to infinity. -/
theorem RoundsTo.lt_overflow_of_le_largest (h : RoundsTo q p) (hq : q ≤ largest) : p < overflow :=
  (h.le (by norm_num) (by norm_num) hq).trans_lt largest_lt_overflow

/-! ### The product and the quotient -/

/-- A finite product can be divided by its factor again. The product and the quotient are each the
exact one rounded, which is all that is used of them below. -/
theorem exists_mul_div (hx : toRat? x = some M) (hs : toRat? s = some S) (hS : 0 < S)
    (hp : toRat? (x * s) = some P) :
    ∃ B, toRat? (x * s / s) = some B ∧ Rounds (M * S) P ∧ Rounds (P / S) B := by
  obtain ⟨p, hplace, hproduct⟩ := exists_rounds_mul hx hs
  obtain rfl : p = P := Option.some.inj (hplace.symm.trans (place?_of_toRat? hp))
  obtain ⟨B, hB, hquotient⟩ := exists_rounds_div hp hs hS.ne'
  refine ⟨B, toRat?_of_abs_lt hB ?_, hproduct, hquotient⟩
  have habs := hproduct.abs
  rw [abs_mul, abs_of_pos hS] at habs
  refine hquotient.abs.lt_overflow_of_le_largest ?_
  rw [abs_div, abs_of_pos hS]
  exact habs.div_le_largest (toRat?_abs hx) (abs_nonneg M) hs hS (abs_lt_overflow hp)

/-- How much of a double `M` is left in the quotient `B`, when `P` is its product with the scale
`S`. -/
structure Regained (M S P B : ℚ) : Prop where
  scale_pos : 0 < S
  /-- Nearly all of it, where the product is more than a few bits of the smallest doubles. -/
  near : 2 ^ (-1044 : ℤ) ≤ |M| * S → |B - M| ≤ |M| / 10 ^ 9
  /-- Nothing, where the product is below half of the smallest double. -/
  lost : |M| * S < 2 ^ (-1075 : ℤ) → B = 0
  /-- What is lost is at most twice what the product was moved by. -/
  loss_le : |B - M| * S ≤ 2 * |P - M * S|
  /-- Unless the double itself is one of the smallest, all that is lost was lost in the product. -/
  loss_near : 2 ^ (-1022 : ℤ) ≤ |M| → |(|B - M| - |P / S - M|)| ≤ |M| / 2 ^ 51

/-- A product is not rounded to more than twice itself, since zero is a double: the rounded number
is no further from the exact one than zero is. -/
theorem Rounds.abs_le_two_mul (h : Rounds q p) (hp : |p| < overflow) : |p| ≤ 2 * |q| := by
  have hzero := h.abs_sub_le_abs_sub hp toRat?_zero
  rw [zero_sub, abs_neg] at hzero
  linarith [abs_sub_abs_le_abs_sub p q]

/-- What is below half of the smallest double is rounded to zero, the nearest double there is. -/
theorem Rounds.eq_zero_of_lt_half (h : Rounds q p) (hq : |q| < 2 ^ (-1075 : ℤ)) : p = 0 := by
  have hle := h.abs.le_of_lt_half (n := 0) (by norm_num) ?_
  · simpa using hle
  · rw [show (-1074 : ℤ) = 1 + -1075 from rfl, zpow_add₀ (by norm_num)]
    simpa using hq

/-- How much of a double is left follows from the two roundings alone: what each moves its number
by, and that no double is closer to the exact quotient, the first one included. -/
theorem regained_of_rounds (hx : toRat? x = some M) (hS : 0 < S) (hp : toRat? (x * s) = some P)
    (hb : toRat? (x * s / s) = some B) (hproduct : Rounds (M * S) P)
    (hquotient : Rounds (P / S) B) :
    Regained M S P B := by
  have hmoved := hproduct.abs_sub_le (abs_lt_overflow hp)
  have hdivided := hquotient.abs_sub_le (abs_lt_overflow hb)
  -- The quotient is at least as close to the exact one as the first double is.
  have hclosest := hquotient.abs_sub_le_abs_sub (abs_lt_overflow hb) hx
  have htriangle := abs_sub_le B (P / S) M
  have hscaled : |P / S - M| * S = |P - M * S| := by
    rw [← abs_of_pos hS, ← abs_mul, abs_of_pos hS, sub_mul, div_mul_cancel₀ P hS.ne']
  rw [abs_mul, abs_of_pos hS] at hmoved
  rw [abs_sub_comm M] at hclosest
  have hloss : |B - M| * S ≤ 2 * |P - M * S| := by
    rw [← hscaled, ← mul_assoc]
    exact mul_le_mul_of_nonneg_right (by linarith) hS.le
  refine ⟨hS, fun hlarge => ?_, fun hsmall => ?_, hloss, fun hnormal => ?_⟩
  -- Thirty-one bits above half of the smallest double, what is lost is below a billionth.
  · have hunit : (2 : ℚ) ^ (-1044 : ℤ) = 2 ^ 31 * 2 ^ (-1075 : ℤ) := by
      rw [show (-1044 : ℤ) = 31 + -1075 from rfl, zpow_add₀ (by norm_num), zpow_ofNat]
    rw [hunit] at hlarge
    generalize (2 : ℚ) ^ (-1075 : ℤ) = d at hmoved hlarge
    have hnonneg : 0 ≤ |M| * S := mul_nonneg (abs_nonneg M) hS.le
    refine le_of_mul_le_mul_right ?_ hS
    rw [div_mul_eq_mul_div]
    generalize |M| * S = t at hmoved hlarge hnonneg ⊢
    norm_num at hmoved hlarge ⊢
    linarith
  · rw [← abs_of_pos hS, ← abs_mul] at hsmall
    rw [hproduct.eq_zero_of_lt_half hsmall, zero_div] at hquotient
    exact hquotient.eq_zero_of_lt_half (by rw [abs_zero]; positivity)
  · have hdouble := hproduct.abs_le_two_mul (abs_lt_overflow hp)
    rw [abs_mul, abs_of_pos hS] at hdouble
    have hquotientSize : |P / S| ≤ 2 * |M| := by
      rw [abs_div, abs_of_pos hS, div_le_iff₀ hS, mul_assoc]
      exact hdouble
    have hunit : (2 : ℚ) ^ (-1022 : ℤ) = 2 ^ 53 * 2 ^ (-1075 : ℤ) := by
      rw [show (-1022 : ℤ) = 53 + -1075 from rfl, zpow_add₀ (by norm_num), zpow_ofNat]
    rw [hunit] at hnormal
    generalize (2 : ℚ) ^ (-1075 : ℤ) = d at hdivided hnormal
    have hdifference := abs_abs_sub_abs_le (B - M) (P / S - M)
    rw [sub_sub_sub_cancel_right] at hdifference
    refine hdifference.trans (hdivided.trans ?_)
    norm_num at hnormal ⊢
    linarith [abs_nonneg M]

end UnitPlane.Double
