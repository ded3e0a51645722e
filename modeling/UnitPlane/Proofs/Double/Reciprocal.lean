import UnitPlane.Proofs.Double.Quotient

/-!
# `UnitPlane.Proofs.Double.Reciprocal`: reciprocals of reciprocals

The doubles reach further down than the reciprocals of the doubles reach up: the reciprocal of a
double of `2 ^ -1024` or less is too large. The reciprocal of one of the three largest doubles is
rounded to `2 ^ -1024`, so it has no reciprocal either. All positive doubles between have a positive
reciprocal, and that has one too.

* `parts_one_div_of_le` and `exists_one_div_of_lt`: the reciprocal of a positive double.
* `one_div_one_div_of_le`, `parts_one_div_one_div_of_ge` and `exists_one_div_one_div`: the
  reciprocal of the reciprocal, in the three cases.
-/

set_option autoImplicit false

namespace UnitPlane.Double

open Float.Model Float.Model.UnpackedFloat

variable {x : Float} {v w p : ℚ}

/-! ### Places of positive doubles -/

/-- Only infinity has its place: every finite double is below it. -/
theorem parts_of_place?_eq_overflow (h : place? x = some overflow) :
    parts x = .infinity .positive := by
  have htop := overflow_pos
  have hcx := canonicalParts_parts x
  unfold place? at h
  -- No zero and no finite number is placed so far out, and the negative infinity is on the other
  -- side.
  cases hx : parts x with
  | notANumber =>
    rw [hx] at h
    cases h
  | infinity s =>
    rw [hx] at h
    have hplace : signed s overflow = overflow := Option.some.inj h
    cases s with
    | positive => rfl
    | negative =>
      have hneg : -overflow = overflow := hplace
      linarith
  | zero s =>
    rw [hx] at h
    have hzero : 0 = overflow := Option.some.inj h
    linarith
  | finite s m e hm =>
    rw [hx] at h hcx
    have hplace : signed s (m * 2 ^ e) = overflow := Option.some.inj h
    have hpos := Canonical.value_pos hcx
    have hlt := Canonical.value_lt hcx
    cases s with
    | positive => exact absurd hplace hlt.ne
    | negative =>
      have hneg : -(m * 2 ^ e : ℚ) = overflow := hplace
      linarith

/-- A double is above zero just when its number is. -/
theorem pos_iff_of_toRat? (h : toRat? x = some v) : 0 < x ↔ 0 < v :=
  lt_iff_place_lt (place?_of_toRat? toRat?_zero) (place?_of_toRat? h)

/-! ### Positive doubles -/

/-- `2 ^ -1024` in units of the smallest double. It is one of the doubles with fewer than 53
bits. -/
theorem smallest_mul_eq : ((2 ^ 50 : ℕ) : ℚ) * 2 ^ (-1074 : ℤ) = 2 ^ (-1024 : ℤ) := by
  rw [Nat.cast_pow, Nat.cast_ofNat, ← zpow_natCast, ← zpow_add₀ (by norm_num)]
  rfl

/-- The last place of the largest doubles times that of the smallest ones. With this, products of a
largest and a smallest double are compared as natural numbers. -/
theorem largest_mul_smallest : (2 : ℚ) ^ (971 : ℤ) * 2 ^ (-1074 : ℤ) = 1 / 2 ^ 103 := by
  rw [← zpow_add₀ (by norm_num)]
  norm_num

/-- A positive double is a multiple of the smallest one. -/
theorem exists_multiple (h : toRat? x = some v) (hv : 0 < v) :
    ∃ n : ℕ, v = n * 2 ^ (-1074 : ℤ) := by
  obtain ⟨m, e, hm, hx, rfl⟩ := exists_parts_of_pos h hv
  have he := (canonical_of_parts hx).le_exponent
  refine ⟨m * 2 ^ (e + 1074).toNat, ?_⟩
  rw [Nat.cast_mul, Nat.cast_pow, Nat.cast_ofNat, mul_assoc, ← zpow_natCast,
    ← zpow_add₀ (by norm_num)]
  congr 2
  omega

/-- The double next above `2 ^ -1024`: all larger doubles are at least this. -/
theorem next_le_of_lt (h : toRat? x = some v) (hv : 2 ^ (-1024 : ℤ) < v) :
    ((2 ^ 50 + 1 : ℕ) : ℚ) * 2 ^ (-1074 : ℤ) ≤ v := by
  obtain ⟨n, rfl⟩ := exists_multiple h (lt_trans (by positivity) hv)
  have hpos : (0 : ℚ) < 2 ^ (-1074 : ℤ) := by positivity
  rw [← smallest_mul_eq] at hv
  have hlt : 2 ^ 50 < n := by exact_mod_cast lt_of_mul_lt_mul_right hv hpos.le
  exact mul_le_mul_of_nonneg_right (by exact_mod_cast hlt) hpos.le

/-- The double next below one of the largest binade: all smaller doubles are at most this. -/
theorem le_pred_of_lt {n : ℕ} (hn : 2 ^ 52 < n) (h : toRat? x = some v) (hpos : 0 < v)
    (hv : v < (n : ℚ) * 2 ^ (971 : ℤ)) : v ≤ ((n - 1 : ℕ) : ℚ) * 2 ^ (971 : ℤ) := by
  obtain ⟨m, e, hm, hx, rfl⟩ := exists_parts_of_pos h hpos
  have hc := canonical_of_parts hx
  have hpow : (0 : ℚ) < 2 ^ (971 : ℤ) := by positivity
  -- With a smaller exponent the double is below the whole binade. With the largest one the
  -- mantissas are compared.
  rcases hc.exponent_le.lt_or_eq with he | rfl
  · have hm : (m : ℚ) ≤ 2 ^ 53 := by exact_mod_cast hc.lt.le
    have hexponent : (2 : ℚ) ^ e ≤ 2 ^ (970 : ℤ) := zpow_le_zpow_right₀ (by norm_num) (by omega)
    calc (m * 2 ^ e : ℚ) ≤ 2 ^ 53 * 2 ^ (970 : ℤ) :=
          mul_le_mul hm hexponent (by positivity) (by positivity)
      _ = ((2 ^ 52 : ℕ) : ℚ) * 2 ^ (971 : ℤ) := by
          rw [show (971 : ℤ) = 970 + 1 from rfl, zpow_add_one₀ (by norm_num), Nat.cast_pow,
            Nat.cast_ofNat, pow_succ, mul_assoc, mul_comm (2 : ℚ)]
      _ ≤ ((n - 1 : ℕ) : ℚ) * 2 ^ (971 : ℤ) :=
          mul_le_mul_of_nonneg_right (Nat.cast_le.2 (Nat.le_sub_one_of_lt hn)) hpow.le
  · have hlt : m < n := by exact_mod_cast lt_of_mul_lt_mul_right hv hpow.le
    exact mul_le_mul_of_nonneg_right (by exact_mod_cast Nat.le_sub_one_of_lt hlt) hpow.le

/-! ### Reciprocals -/

/-- The double one is the number one. -/
theorem toRat?_one : toRat? 1 = some 1 := by
  unfold toRat?
  rw [parts_one]
  norm_num [Sign.apply]

/-- The reciprocal of a positive double is the exact reciprocal rounded. -/
theorem exists_roundsTo_one_div (h : toRat? x = some v) (hv : 0 < v) :
    ∃ p, place? (1 / x) = some p ∧ RoundsTo (1 / v) p :=
  exists_roundsTo_div toRat?_one one_pos h hv

/-- The reciprocal of a double of `2 ^ -1024` or less is infinite. The exact reciprocal is at least
`2 ^ 1024`, which rounds to infinity. -/
theorem parts_one_div_of_le (h : toRat? x = some v) (hpos : 0 < v) (hv : v ≤ 2 ^ (-1024 : ℤ)) :
    parts (1 / x) = .infinity .positive := by
  obtain ⟨p, hp, hround⟩ := exists_roundsTo_one_div h hpos
  -- The quotient is at least the bound beyond which nothing is finite.
  have hlarge : ((2 ^ 52 : ℕ) : ℚ) * 2 ^ (972 : ℤ) = overflow := by
    unfold overflow
    rw [Nat.cast_pow, Nat.cast_ofNat, ← zpow_natCast, ← zpow_natCast, ← zpow_add₀ (by norm_num)]
    rfl
  have hquotient : ((2 ^ 52 : ℕ) : ℚ) * 2 ^ (972 : ℤ) ≤ 1 / v := by
    rw [le_div_iff₀ hpos, hlarge]
    calc overflow * v ≤ overflow * 2 ^ (-1024 : ℤ) := mul_le_mul_of_nonneg_left hv overflow_pos.le
      _ = 1 := by
          unfold overflow
          rw [← zpow_natCast, ← zpow_add₀ (by norm_num)]
          norm_num
  have hge := hround.ge (by norm_num) (by norm_num) hquotient
  rw [hlarge, min_self] at hge
  obtain ⟨t, r, -, -, hmin⟩ := hround
  have heq : p = overflow := le_antisymm (hmin ▸ min_le_right _ _) hge
  exact parts_of_place?_eq_overflow (heq ▸ hp)

/-- The reciprocal of a larger double is a positive double, the exact reciprocal rounded. It is
neither zero nor infinite. -/
theorem exists_one_div_of_lt (h : toRat? x = some v) (hv : 2 ^ (-1024 : ℤ) < v) :
    ∃ w, toRat? (1 / x) = some w ∧ 0 < w ∧ RoundsTo (1 / v) w := by
  have hpos : 0 < v := lt_trans (by positivity) hv
  obtain ⟨w, hw, hround⟩ := exists_roundsTo_one_div h hpos
  have hlow : 0 < w := by
    -- Every double is below the place of infinity, so the reciprocal is above a double.
    have hquotient : ((1 : ℕ) : ℚ) * 2 ^ (-1024 : ℤ) ≤ 1 / v := by
      obtain ⟨m, e, hm, hx, rfl⟩ := exists_parts_of_pos h hpos
      rw [le_div_iff₀ hpos, Nat.cast_one, one_mul]
      calc (2 : ℚ) ^ (-1024 : ℤ) * (m * 2 ^ e) ≤ 2 ^ (-1024 : ℤ) * overflow :=
            mul_le_mul_of_nonneg_left (canonical_of_parts hx).value_lt.le (by positivity)
        _ = 1 := by
            unfold overflow
            rw [← zpow_natCast, ← zpow_add₀ (by norm_num)]
            norm_num
    have hge := hround.ge (by norm_num) (by norm_num) hquotient
    exact lt_of_lt_of_le (lt_min (by positivity) overflow_pos) hge
  -- The next double above the bound has a reciprocal that is below the largest double.
  have hhigh : w < overflow := by
    have hc : Canonical (2 ^ 53 - 1) 971 :=
      ⟨by norm_num, by norm_num, by norm_num, le_rfl, .inl (by norm_num)⟩
    refine lt_of_le_of_lt (hround.le hc.lt hc.le_exponent ?_) hc.value_lt
    rw [div_le_iff₀ hpos]
    refine le_trans ?_ (mul_le_mul_of_nonneg_left (next_le_of_lt h hv) hc.value_pos.le)
    rw [mul_mul_mul_comm, largest_mul_smallest]
    norm_num
  exact ⟨w, toRat?_of_abs_lt hw (by rwa [abs_of_pos hlow]), hlow, hround⟩

/-! ### Reciprocals of reciprocals -/

/-- One divided by infinity is zero. -/
theorem one_div_of_infinity (h : parts x = .infinity .positive) : 1 / x = 0 := by
  have hdiv : 1 / x = ofParts (UnpackedFloat.div Format.binary64 (parts 1) (parts x)) := rfl
  have hzero : UnpackedFloat.div Format.binary64 (parts 1) (.infinity .positive) =
      .zero .positive := by
    rw [parts_one]
    rfl
  rw [hdiv, h, hzero, ← parts_zero, ofParts_parts]

/-- One divided by zero is infinity. -/
theorem parts_one_div_zero : parts (1 / 0) = .infinity .positive := by
  have hdiv : (1 / 0 : Float) = ofParts (UnpackedFloat.div Format.binary64 (parts 1) (parts 0)) :=
    rfl
  rw [hdiv, parts_one, parts_zero]
  rfl

/-- Below, the reciprocal is infinite, and one divided by that is zero. -/
theorem one_div_one_div_of_le (h : toRat? x = some v) (hpos : 0 < v) (hv : v ≤ 2 ^ (-1024 : ℤ)) :
    1 / (1 / x) = 0 :=
  one_div_of_infinity (parts_one_div_of_le h hpos hv)

/-- Above, the reciprocal is so small that it has no finite reciprocal itself: it is rounded down to
`2 ^ -1024`. -/
theorem parts_one_div_one_div_of_ge (h : toRat? x = some v)
    (hv : ((2 ^ 53 - 3 : ℕ) : ℚ) * 2 ^ (971 : ℤ) ≤ v) :
    parts (1 / (1 / x)) = .infinity .positive := by
  have hlarge : (2 : ℚ) ^ (-1024 : ℤ) < ((2 ^ 53 - 3 : ℕ) : ℚ) * 2 ^ (971 : ℤ) :=
    lt_of_lt_of_le (zpow_lt_zpow_right₀ (by norm_num) (by norm_num))
      (le_mul_of_one_le_left (by positivity) (by norm_num))
  obtain ⟨w, hw, hpos, hround⟩ := exists_one_div_of_lt h (lt_of_lt_of_le hlarge hv)
  refine parts_one_div_of_le hw hpos ?_
  -- The first quotient is so small that rounding takes it down to where its inverse overflows.
  have hle := hround.le_of_lt_half (n := 2 ^ 50) (by norm_num) ?_
  · rwa [smallest_mul_eq] at hle
  · have hvpos : 0 < v := lt_of_lt_of_le (by positivity) hv
    rw [div_lt_iff₀ hvpos]
    refine lt_of_lt_of_le ?_ (mul_le_mul_of_nonneg_left hv (by positivity))
    rw [mul_mul_mul_comm, mul_comm ((2 : ℚ) ^ (-1074 : ℤ)), largest_mul_smallest]
    norm_num

/-- Between, the reciprocal and its reciprocal are positive doubles, because the reciprocal of the
next smaller double is rounded up, away from `2 ^ -1024`. -/
theorem exists_one_div_one_div (h : toRat? x = some v) (hlow : 2 ^ (-1024 : ℤ) < v)
    (hhigh : v < ((2 ^ 53 - 3 : ℕ) : ℚ) * 2 ^ (971 : ℤ)) :
    ∃ u, toRat? (1 / (1 / x)) = some u ∧ 0 < u := by
  have hvpos : 0 < v := lt_trans (by positivity) hlow
  obtain ⟨w, hw, -, hround⟩ := exists_one_div_of_lt h hlow
  -- The first quotient is rounded up to where its inverse does not overflow.
  have hge := hround.ge_of_half_lt (n := 2 ^ 50) (by norm_num) ?_
  · have hgt : 2 ^ (-1024 : ℤ) < w := by
      refine lt_of_lt_of_le ?_ hge
      rw [← smallest_mul_eq]
      exact mul_lt_mul_of_pos_right (by norm_num) (by positivity)
    obtain ⟨u, hu, hpos, -⟩ := exists_one_div_of_lt hw hgt
    exact ⟨u, hu, hpos⟩
  · have hnext := le_pred_of_lt (by norm_num) h hvpos hhigh
    rw [lt_div_iff₀ hvpos]
    refine lt_of_le_of_lt (mul_le_mul_of_nonneg_left hnext (by positivity)) ?_
    rw [mul_mul_mul_comm, mul_comm ((2 : ℚ) ^ (-1074 : ℤ)), largest_mul_smallest]
    norm_num

/-- One divided by its reciprocal is a positive double just for the positive doubles between the two
bounds. So these are the sizes that a display unit may have. -/
theorem one_div_one_div_iff (h : toRat? x = some v) (hpos : 0 < v) :
    (1 / (1 / x)).isFinite = true ∧ 0 < 1 / (1 / x) ↔
      2 ^ (-1024 : ℤ) < v ∧ v < ((2 ^ 53 - 3 : ℕ) : ℚ) * 2 ^ (971 : ℤ) := by
  constructor
  · rintro ⟨hfinite, hlow⟩
    refine ⟨not_le.1 fun hv => ?_, not_le.1 fun hv => ?_⟩
    · rw [one_div_one_div_of_le h hpos hv] at hlow
      exact lt_irrefl 0 ((pos_iff_of_toRat? toRat?_zero).1 hlow)
    · rw [isFinite_iff, parts_one_div_one_div_of_ge h hv] at hfinite
      cases hfinite
  · rintro ⟨hlow, hhigh⟩
    obtain ⟨u, hu, hupos⟩ := exists_one_div_one_div h hlow hhigh
    exact ⟨isFinite_of_toRat? hu, (pos_iff_of_toRat? hu).2 hupos⟩

end UnitPlane.Double
