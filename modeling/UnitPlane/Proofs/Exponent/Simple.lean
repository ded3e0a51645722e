import UnitPlane.Proofs.Double.Closest
import UnitPlane.Proofs.Double.Tolerance
import UnitPlane.Proofs.Exponent.Exact
import UnitPlane.Proofs.Exponent.Fraction

/-!
# `UnitPlane.Proofs.Exponent.Simple`: fractions that are read back

The double closest to a fraction is tried over one denominator after another. Over that of the
fraction itself it is always close, so it is read as this fraction or as one with a smaller
denominator. That a smaller one is close depends on the distance between the two fractions alone,
but for rounding: the numerator that is tried is the best one, and what is computed for its distance
is off by a few units of the last place.

The tolerance is a billionth of the number. Two fractions are apart by one over the product of their
denominators, so below a size that depends on the denominator there is no smaller one within it.

* `Approximates.exists_atDenominator`: what one step of the search finds.
* `searchFrom_eq`: the search stops at the first denominator that is close.
* `ofFloat?_of_closest`: what the double closest to a fraction is read as.
* `ofFloat?_large_half`: a number and a half that is read as an integer.
-/

set_option autoImplicit false

namespace UnitPlane.Exponent

open Double

variable {x : Float} {n k : ℤ} {d e steps first : ℕ}

/-- The size of a number, but one for those below one. A billionth of this is the tolerance, so that
small numbers are not held to a smaller tolerance than one is. -/
def size (q : ℚ) : ℚ := max 1 |q|

/-- No size is below one. -/
theorem one_le_size (q : ℚ) : 1 ≤ size q := le_max_left 1 |q|

/-- No size is below the magnitude of the number. -/
theorem abs_le_size (q : ℚ) : |q| ≤ size q := le_max_right 1 |q|

/-- A double that is as near to a fraction as rounding leaves it, where the numbers of the fraction
are among those that are searched. -/
structure Approximates (x : Float) (n : ℤ) (d : ℕ) : Prop where
  pos : 0 < d
  le : d ≤ maxDenominator
  natAbs_le : n.natAbs ≤ 2147483647
  near : ∃ v, toRat? x = some v ∧ |v - n / d| ≤ |(n / d : ℚ)| / 2 ^ 53 + 2 ^ (-1075 : ℤ)

/-- The double closest to a fraction is as near to it as rounding leaves it. This is the only place
where it counts that no double is closer. -/
theorem approximates_of_closest (h : Closest (n / d) x) (hpos : 0 < d) (hle : d ≤ maxDenominator)
    (hn : n.natAbs ≤ 2147483647) : Approximates x n d :=
  ⟨hpos, hle, hn, h.exists_near (by omega) hpos (by unfold maxDenominator at hle; omega)⟩

/-! ### One denominator -/

namespace Approximates

/-- The size of the fraction is a usual one, and over a smaller denominator its numerator is not
larger. All roundings below are bounded by these numbers. -/
theorem bounds (h : Approximates x n d) :
    size (n / d) ≤ 2 ^ 31 ∧
      ∀ e ≤ d, |(n / d : ℚ)| * e ≤ n.natAbs ∧ size (n / d) * e ≤ 2 ^ 31 := by
  have hpos : (0 : ℚ) < d := by exact_mod_cast h.pos
  have hd : (d : ℚ) ≤ 1000 := by exact_mod_cast h.le
  have hn : (n.natAbs : ℚ) ≤ 2 ^ 31 := by
    have := h.natAbs_le
    exact_mod_cast this.trans (by norm_num)
  have hquotient : |(n / d : ℚ)| * d = n.natAbs := by
    rw [abs_div, abs_of_pos hpos, div_mul_cancel₀ _ hpos.ne', Nat.cast_natAbs, Int.cast_abs]
  -- A smaller denominator makes the numerator smaller.
  have hnumerator {e : ℕ} (he : e ≤ d) : |(n / d : ℚ)| * e ≤ n.natAbs := by
    rw [← hquotient]
    exact mul_le_mul_of_nonneg_left (by exact_mod_cast he) (abs_nonneg _)
  have hsize {e : ℕ} (he : e ≤ d) : size (n / d) * e ≤ 2 ^ 31 := by
    have he' : (e : ℚ) ≤ 1000 := le_trans (by exact_mod_cast he) hd
    unfold size
    rw [max_mul_of_nonneg _ _ (Nat.cast_nonneg e), one_mul]
    exact max_le (he'.trans (by norm_num)) ((hnumerator he).trans hn)
  have hone := hsize h.pos
  rw [Nat.cast_one, mul_one] at hone
  exact ⟨hone, fun e he => ⟨hnumerator he, hsize he⟩⟩

/-- The product with a denominator is as near to that with the fraction, but for one more rounding.
Both are compared after they are divided by the denominator, so that one bound serves for all
denominators. -/
theorem exists_product (h : Approximates x n d) (hpos : 0 < e) (hle : e ≤ d) :
    ∃ p, toRat? (x * Float.ofNat e) = some p ∧
      |p / e - n / d| ≤ size (n / d) * (1 / 2 ^ 52 + 1 / 2 ^ 90) := by
  obtain ⟨v, hv, hnear⟩ := h.near
  obtain ⟨hsize, -⟩ := h.bounds
  have hM := one_le_size (n / d)
  have hQ := abs_le_size (n / d)
  have he : (1 : ℚ) ≤ e := by exact_mod_cast hpos
  have he' : (e : ℚ) ≤ 1000 := by exact_mod_cast hle.trans h.le
  have hepos : (0 : ℚ) < e := by linarith
  have hnat : e ≤ 2 ^ 53 := (hle.trans h.le).trans (by unfold maxDenominator; norm_num)
  have htiny := half_smallest_le
  have htinypos : (0 : ℚ) < 2 ^ (-1075 : ℤ) := by positivity
  obtain ⟨p, hp, hround⟩ := exists_rounds_mul hv (toRat?_ofNat hnat)
  generalize (n / d : ℚ) = q at *
  generalize size q = M at *
  -- The double itself is hardly larger than the fraction, so the product is far below the largest
  -- double.
  have hvabs : |v| ≤ M * (1 + 1 / 2 ^ 50) := by
    have := abs_sub_abs_le_abs_sub v q
    linarith
  have husual : |v * e| ≤ 2 ^ 1023 := by
    rw [abs_mul, abs_of_pos hepos]
    calc |v| * e ≤ 2 ^ 32 * 1000 := mul_le_mul (by linarith) he' hepos.le (by norm_num)
      _ ≤ 2 ^ 50 := by norm_num
      _ ≤ 2 ^ 1023 := pow_le_pow_right₀ one_le_two (by norm_num)
  obtain ⟨hfinite, hmoved⟩ := hround.near husual
  refine ⟨p, toRat?_of_abs_lt hp hfinite, ?_⟩
  generalize (2 : ℚ) ^ (-1075 : ℤ) = t at *
  -- Dividing by the denominator takes the rounding of the product back to the size of the double.
  have hquotient : |p / e - v| ≤ |v| / 2 ^ 53 + t := by
    have hdiv : p / e - v = (p - v * e) / e := by
      rw [sub_div, mul_div_cancel_right₀ _ hepos.ne']
    rw [hdiv, abs_div, abs_of_pos hepos, div_le_iff₀ hepos]
    rw [abs_mul, abs_of_pos hepos] at hmoved
    nlinarith
  have htriangle := abs_sub_le (p / e) v q
  linarith

/-- The numerator that is tried is the best one for a number that is the fraction but for rounding,
and not far from that of the fraction. The nearest integer is at most a half away from the
product. -/
theorem exists_numerator (h : Approximates x n d) (hpos : 0 < e) (hle : e ≤ d) :
    ∃ (k : ℤ) (P : ℚ), Rounding.nearest? (x * Float.ofNat e) = some k ∧
      |P - n / d| ≤ size (n / d) * (1 / 2 ^ 52 + 1 / 2 ^ 90) ∧
      |(k : ℚ) - n / d * e| < 3 / 4 ∧ ∀ j : ℤ, |k / e - P| ≤ |j / e - P| := by
  obtain ⟨p, hp, hproduct⟩ := h.exists_product hpos hle
  have hsize := (h.bounds.2 e hle).2
  have hepos : (0 : ℚ) < e := by exact_mod_cast hpos
  obtain ⟨k, hk⟩ := exists_nearest? hp
  -- The integer is the nearest one to a product that is rounded a little.
  obtain ⟨p', hp', hlow, hhigh⟩ := near_of_nearest?_eq_some hk
  obtain rfl := Option.some.inj (hp.symm.trans hp')
  have hhalf : |(k : ℚ) - p| ≤ 1 / 2 := abs_le.2 ⟨by linarith, by linarith⟩
  refine ⟨k, p / e, hk, hproduct, ?_, fun j => ?_⟩
  · -- The numerator is below `2 ^ 31`, so what is moved is far less than the fourth that is left.
    have hmoved : |p - n / d * e| ≤ size (n / d) * e * (1 / 2 ^ 52 + 1 / 2 ^ 90) :=
      calc |p - n / d * e| = |p / e - n / d| * e := by
            rw [← abs_of_pos hepos, ← abs_mul, abs_of_pos hepos, sub_mul,
              div_mul_cancel₀ _ hepos.ne']
        _ ≤ size (n / d) * (1 / 2 ^ 52 + 1 / 2 ^ 90) * e :=
          mul_le_mul_of_nonneg_right hproduct hepos.le
        _ = size (n / d) * e * (1 / 2 ^ 52 + 1 / 2 ^ 90) := by ring
    have htriangle := abs_sub_le (k : ℚ) p (n / d * e)
    linarith
  · rw [← sub_div, ← sub_div, abs_div, abs_div]
    exact div_le_div_of_nonneg_right (abs_sub_le_of_le_half hhalf j) (abs_nonneg _)

/-- A numerator that is not far from that of the fraction is not larger, because the next integer
would be a fourth farther away. So it fits if the numerator of the fraction does. -/
theorem natAbs_le_of_near (h : Approximates x n d) (hle : e ≤ d)
    (hk : |(k : ℚ) - n / d * e| < 3 / 4) :
    k.natAbs ≤ n.natAbs := by
  have hnumerator := (h.bounds.2 e hle).1
  have hlt : (k.natAbs : ℚ) < n.natAbs + 1 := by
    have := abs_sub_abs_le_abs_sub (k : ℚ) (n / d * e)
    rw [abs_mul, Nat.abs_cast] at this
    rw [Nat.cast_natAbs, Int.cast_abs]
    linarith
  exact Nat.lt_succ_iff.1 (by exact_mod_cast hlt)

/-- Over the denominator of the fraction the numerator that is tried is that of the fraction,
because no other integer is that near to it. -/
theorem eq_of_near (h : Approximates x n d) (hk : |(k : ℚ) - n / d * d| < 3 / 4) : k = n := by
  have hpos : (0 : ℚ) < d := by exact_mod_cast h.pos
  rw [div_mul_cancel₀ _ hpos.ne'] at hk
  have hlt : |((k - n : ℤ) : ℚ)| < 1 := by
    push_cast
    linarith
  exact sub_eq_zero.1 (Int.abs_lt_one_iff.1 (by exact_mod_cast hlt))

/-- What is computed for the distance of a fraction that is not far is off by a few units of the
last place: the quotient, the double and the difference of both have been rounded once each. -/
theorem exists_distance (h : Approximates x n d) (hk : k.natAbs ≤ n.natAbs) (hpos : 0 < e)
    (hle : e ≤ d) (hfar : |(k / e - n / d : ℚ)| ≤ 3 / 4) :
    ∃ ε, place? (Float.ofInt k / Float.ofNat e - x).abs = some ε ∧
      |ε - abs (k / e - n / d : ℚ)| ≤ size (n / d) * (1 / 2 ^ 51 + 1 / 2 ^ 90) := by
  obtain ⟨v, hv, hnear⟩ := h.near
  obtain ⟨hsize, -⟩ := h.bounds
  have hsmall : k.natAbs ≤ 2 ^ 53 := (hk.trans h.natAbs_le).trans (by norm_num)
  have hnat : e ≤ 2 ^ 53 := (hle.trans h.le).trans (by unfold maxDenominator; norm_num)
  obtain ⟨w, hw, -, hquotient⟩ := toRat?_ofInt_div hsmall hpos hnat
  obtain ⟨ε, hε, hround⟩ := exists_rounds_sub hw hv
  have hM := one_le_size (n / d)
  have hQ := abs_le_size (n / d)
  have htiny := half_smallest_le
  have htinypos : (0 : ℚ) < 2 ^ (-1075 : ℤ) := by positivity
  refine ⟨|ε|, place?_abs hε, (abs_abs_sub_abs_le _ _).trans ?_⟩
  generalize (n / d : ℚ) = q at *
  generalize size q = M at *
  generalize (k / e : ℚ) = z at *
  have hz : |z| ≤ M * 2 := by
    have := abs_sub_abs_le_abs_sub z q
    linarith
  -- The difference that is rounded is the distance but for the roundings of its two parts.
  have hdifference : |(w - v) - (z - q)| ≤
      (|z| / 2 ^ 53 + 2 ^ (-1075 : ℤ)) + (|q| / 2 ^ 53 + 2 ^ (-1075 : ℤ)) := by
    rw [sub_sub_sub_comm]
    exact (abs_sub _ _).trans (add_le_add hquotient hnear)
  have hwv : |w - v| ≤ M := by
    have := abs_sub_abs_le_abs_sub (w - v) (z - q)
    linarith
  have husual : |w - v| ≤ 2 ^ 1023 :=
    (hwv.trans hsize).trans (pow_le_pow_right₀ one_le_two (by norm_num))
  have hmoved := (hround.near husual).2
  have htriangle := abs_sub_le ε (w - v) (z - q)
  linarith

/-- The tolerance is a billionth of the size, but for rounding. The size of the double stands for
that of the fraction, from which it differs by no more than the double does. -/
theorem exists_tolerance (h : Approximates x n d) :
    ∃ τ, place? (tolerance x) = some τ ∧ |τ - size (n / d) / 10 ^ 9| ≤ size (n / d) / 10 ^ 20 := by
  obtain ⟨v, hv, hnear⟩ := h.near
  obtain ⟨τ, hτ, hrounded⟩ := exists_place?_tolerance hv
  refine ⟨τ, hτ, ?_⟩
  have hM := one_le_size (n / d)
  have hQ := abs_le_size (n / d)
  have htiny := half_smallest_le
  -- The tolerance depends on the double, which is near the fraction, and not on the fraction
  -- itself.
  have hsize : |max 1 |v| - size (n / d)| ≤ |v - n / d| := by
    unfold size
    rw [max_comm 1 |v|, max_comm 1 |(n / d : ℚ)|]
    exact (abs_max_sub_max_le_abs _ _ _).trans (abs_abs_sub_abs_le _ _)
  generalize (n / d : ℚ) = q at *
  generalize size q = M at *
  generalize max 1 |v| = V at *
  have hV := abs_le.1 (hsize.trans hnear)
  rw [abs_le] at hrounded ⊢
  constructor <;> linarith

/-- Over a denominator up to its own, a fraction is close only if it is within a billionth of the
size, and the one that is tried is close if any is. Over its own denominator the fraction itself is
tried. Both bounds leave a margin for what rounding may do. -/
theorem exists_atDenominator (h : Approximates x n d) (hpos : 0 < e) (hle : e ≤ d) :
    ∃ k close, atDenominator x e = some (k, close) ∧ k.natAbs ≤ n.natAbs ∧ (e = d → k = n) ∧
      (close = true → |(k / e - n / d : ℚ)| ≤ (1 / 10 ^ 9 + 1 / 10 ^ 15) * size (n / d)) ∧
      ∀ j : ℤ, |(j / e - n / d : ℚ)| ≤ (1 / 10 ^ 9 - 1 / 10 ^ 15) * size (n / d) →
        close = true := by
  obtain ⟨k, P, hk, hP, hnear, hbest⟩ := h.exists_numerator hpos hle
  have hkn := h.natAbs_le_of_near hle hnear
  have he : (1 : ℚ) ≤ e := by exact_mod_cast hpos
  -- The distance of the fraction that is tried is that of its numerator, divided by the
  -- denominator.
  have hfar : |(k / e - n / d : ℚ)| ≤ 3 / 4 := by
    have hdiv : (k / e - n / d : ℚ) = (k - n / d * e) / e := by
      rw [sub_div, mul_div_cancel_right₀ _ (by linarith)]
    rw [hdiv, abs_div, abs_of_pos (by linarith : (0 : ℚ) < e)]
    exact (div_le_self (abs_nonneg _) he).trans hnear.le
  have hM := one_le_size (n / d)
  obtain ⟨ε, hε, hdistance⟩ := h.exists_distance hkn hpos hle hfar
  obtain ⟨τ, hτ, htolerance⟩ := h.exists_tolerance
  have hclose : (Float.ofInt k / Float.ofNat e - x).abs ≤ tolerance x ↔ ε ≤ τ :=
    le_iff_place_le hε hτ
  refine ⟨k, decide ((Float.ofInt k / Float.ofNat e - x).abs ≤ tolerance x), ?_, hkn, ?_, ?_, ?_⟩
  · unfold atDenominator
    rw [hk]
    have := h.natAbs_le
    exact if_neg (by omega)
  · rintro rfl
    exact h.eq_of_near hnear
  · intro hpass
    have hle := hclose.1 (of_decide_eq_true hpass)
    have hlow := (abs_le.1 hdistance).1
    have hhigh := (abs_le.1 htolerance).2
    linarith
  · intro j hj
    refine decide_eq_true (hclose.2 ?_)
    -- The numerator that is tried is as good as the other, but for the rounding of the product.
    have hbetter : |(k / e - n / d : ℚ)| ≤ |(j / e - n / d : ℚ)| + 2 * |P - n / d| := by
      have hk := abs_sub_le (k / e : ℚ) P (n / d)
      have hj := abs_sub_le (j / e : ℚ) (n / d) P
      rw [abs_sub_comm (n / d : ℚ) P] at hj
      have := hbest j
      linarith
    have hhigh := (abs_le.1 hdistance).2
    have hlow := (abs_le.1 htolerance).1
    linarith

end Approximates

/-! ### The search -/

/-- The search stops at the first denominator that is close, if it is started with enough steps to
get there. At all denominators before that it finds a numerator that is not close, and goes on. -/
theorem searchFrom_eq (hbefore : ∀ e, first ≤ e → e < d → ∃ j, atDenominator x e = some (j, false))
    (hd : atDenominator x d = some (k, true)) (hle : first ≤ d) (hsteps : d < first + steps) :
    searchFrom x steps first = ofFraction? k d := by
  induction steps generalizing first with
  | zero => omega
  | succ steps ih =>
    rw [searchFrom]
    -- The search has got there, or it goes on to the next denominator.
    rcases hle.eq_or_lt with rfl | hlt
    · rw [hd]
    · obtain ⟨j, hj⟩ := hbefore first le_rfl hlt
      rw [hj]
      exact ih (fun e he => hbefore e (by omega)) hlt (by omega)

/-- The first close denominator is at most that of the fraction, and the double is read as what is
tried there. At all denominators before it something is tried that is not close. -/
theorem Approximates.exists_first (h : Approximates x n d) :
    ∃ (p : Exponent) (k : ℤ) (e : ℕ), ofFloat? x = some p ∧ p.val = k / e ∧ 0 < e ∧ e ≤ d ∧
      atDenominator x e = some (k, true) ∧
      ∀ i, 0 < i → i < e → ∃ j, atDenominator x i = some (j, false) := by
  classical
  -- The denominator of the fraction itself is close, so there is a first one that is.
  have hown : 0 < d ∧ ∃ k, atDenominator x d = some (k, true) := by
    obtain ⟨k, close, hk, -, hself, -, hclose⟩ := h.exists_atDenominator h.pos le_rfl
    have hM := one_le_size (n / d)
    rw [hself rfl] at hk
    refine ⟨h.pos, n, hk.trans ?_⟩
    rw [hclose n (by rw [sub_self, abs_zero]; linarith)]
  have hexists : ∃ e, 0 < e ∧ ∃ k, atDenominator x e = some (k, true) := ⟨d, hown⟩
  obtain ⟨hpos, k, hk⟩ := Nat.find_spec hexists
  have hle : Nat.find hexists ≤ d := Nat.find_min' hexists hown
  have hbefore (i : ℕ) (hi : 0 < i) (hlt : i < Nat.find hexists) :
      ∃ j, atDenominator x i = some (j, false) := by
    obtain ⟨j, close, hj, -⟩ := h.exists_atDenominator hi (hlt.le.trans hle)
    cases close with
    | false => exact ⟨j, hj⟩
    | true => exact absurd ⟨hi, j, hj⟩ (Nat.find_min hexists hlt)
  generalize Nat.find hexists = e at *
  obtain ⟨k', close, hk', hkn, -⟩ := h.exists_atDenominator hpos hle
  obtain ⟨rfl, -⟩ := Prod.mk.inj (Option.some.inj (hk.symm.trans hk'))
  have hmax := hle.trans h.le
  have hnatAbs := hkn.trans h.natAbs_le
  unfold maxDenominator at hmax
  obtain ⟨p, hp, hval⟩ := ofFraction?_eq_some (n := k) (d := e) (by unfold Fits32; omega)
    (by unfold Fits32; omega) (by omega)
  refine ⟨p, k, e, ?_, ?_, hpos, hle, hk, hbefore⟩
  · obtain ⟨v, hv, -⟩ := h.near
    unfold ofFloat?
    rw [if_pos (isFinite_of_toRat? hv), searchFrom_eq hbefore hk hpos
      (by unfold maxDenominator; omega), hp]
  · rw [hval, Int.toNat_natCast, Rat.mkRat_eq_div]

/-! ### Two fractions -/

/-- A fraction in lowest terms has no smaller denominator: its own divides every other. -/
theorem le_of_div_eq_div (hcoprime : n.gcd d = 1) (hpos : 0 < e) (hd : 0 < d)
    (h : (k / e : ℚ) = n / d) :
    d ≤ e := by
  rw [div_eq_div_iff (by positivity) (by positivity)] at h
  have hdvd : (d : ℤ) ∣ n * e := ⟨k, by rw [mul_comm (d : ℤ)]; exact_mod_cast h.symm⟩
  have hdvd' : (d : ℤ) ∣ e := Int.dvd_of_dvd_mul_right_of_gcd_one hdvd (by rwa [Int.gcd_comm])
  exact Nat.le_of_dvd hpos (Int.natCast_dvd_natCast.1 hdvd')

/-- Two different fractions are apart by at least one over the product of their denominators,
because over this product their numerators are different integers. -/
theorem le_abs_div_sub_div (hpos : 0 < e) (hd : 0 < d) (h : (k / e : ℚ) ≠ n / d) :
    1 / (e * d : ℚ) ≤ |(k / e - n / d : ℚ)| := by
  have he : (0 : ℚ) < e := by exact_mod_cast hpos
  have hd' : (0 : ℚ) < d := by exact_mod_cast hd
  have hne : k * d - e * n ≠ 0 := by
    intro hzero
    refine h ((div_eq_div_iff he.ne' hd'.ne').2 ?_)
    rw [mul_comm (n : ℚ)]
    exact_mod_cast sub_eq_zero.1 hzero
  have hone : (1 : ℚ) ≤ |((k * d - e * n : ℤ) : ℚ)| := by exact_mod_cast Int.one_le_abs hne
  rw [div_sub_div _ _ he.ne' hd'.ne', abs_div, abs_of_pos (mul_pos he hd')]
  push_cast at hone
  exact div_le_div_of_nonneg_right hone (mul_pos he hd').le

/-- Numbers below a size that depends on the denominator have no fraction with a smaller one near to
them. Here the distance of two fractions is larger than a billionth of the size. -/
theorem far_of_small (hcoprime : n.gcd d = 1) (hd : 0 < d) (hle : d ≤ 1000)
    (hsmall : n.natAbs * (d - 1) ≤ 999999000) (hpos : 0 < e) (hlt : e < d) :
    (1 / 10 ^ 9 + 1 / 10 ^ 15) * size (n / d) < |(k / e - n / d : ℚ)| := by
  have hne : (k / e : ℚ) ≠ n / d := fun h => absurd (le_of_div_eq_div hcoprime hpos hd h) (by omega)
  refine lt_of_lt_of_le ?_ (le_abs_div_sub_div hpos hd hne)
  have he : (0 : ℚ) < e := by exact_mod_cast hpos
  have hd' : (0 : ℚ) < d := by exact_mod_cast hd
  rw [lt_div_iff₀ (mul_pos he hd')]
  have hproduct : |(n : ℚ)| * e ≤ 999999000 := by
    rw [← Int.cast_abs, ← Nat.cast_natAbs]
    have : n.natAbs * e ≤ 999999000 := (Nat.mul_le_mul_left _ (by omega)).trans hsmall
    exact_mod_cast this
  have hdenominators : (e : ℚ) * d ≤ 999000 := by
    have : e * d ≤ 999 * 1000 := Nat.mul_le_mul (by omega) hle
    exact_mod_cast this
  -- Times both denominators the size is the numerator times one of them, or too small to matter.
  have hscaled : size (n / d) * (e * d) ≤ 999999000 := by
    unfold size
    rw [max_mul_of_nonneg _ _ (mul_pos he hd').le, one_mul]
    refine max_le (hdenominators.trans (by norm_num)) ?_
    rw [abs_div, abs_of_pos hd', mul_comm (e : ℚ), ← mul_assoc, div_mul_cancel₀ _ hd'.ne']
    exact hproduct
  linarith

/-! ### What is read -/

/-- Half of an integer that fits is a double, so the double closest to it is the number itself. -/
theorem toRat?_of_closest_half (h : Closest (n / 2) x) (hn : n.natAbs ≤ 2147483647) :
    toRat? x = some (n / 2 : ℚ) := by
  obtain ⟨w, hw, hround, -⟩ := toRat?_ofInt_div (n := n) (d := 2) (by omega) (by norm_num)
    (by norm_num)
  rw [Nat.cast_ofNat] at hround
  have hvalue : |(n / 2 : ℚ)| = n.natAbs * 2 ^ (-1 : ℤ) := by
    rw [abs_div, abs_two, ← Int.cast_abs, ← Nat.cast_natAbs, zpow_neg_one, div_eq_mul_inv]
  have hsmall : (n.natAbs : ℚ) ≤ 2147483647 := by exact_mod_cast hn
  have htop : |(n / 2 : ℚ)| ≤ overflow :=
    calc |(n / 2 : ℚ)| ≤ 2 ^ 31 := by rw [hvalue, zpow_neg_one]; linarith
      _ ≤ overflow := pow_le_pow_right₀ one_le_two (by norm_num)
  obtain rfl := hround.eq_self hvalue (by omega) (by norm_num) htop
  exact h.toRat?_eq hw

/-- Between two integers the nearest one is at a distance of a half, whichever of the two is taken,
and it is not larger than twice the number. -/
theorem exists_nearest_half (hx : toRat? x = some (n / 2 : ℚ)) (hodd : n % 2 = 1) :
    ∃ k : ℤ, Rounding.nearest? x = some k ∧ k.natAbs ≤ n.natAbs ∧ |(k - n / 2 : ℚ)| = 1 / 2 := by
  obtain ⟨k, hk⟩ := exists_nearest? hx
  obtain ⟨v, hv, hlow, hhigh⟩ := near_of_nearest?_eq_some hk
  obtain rfl := Option.some.inj (hx.symm.trans hv)
  have hlow' : 2 * k - 1 ≤ n := by exact_mod_cast (by linarith : (2 * k - 1 : ℚ) ≤ n)
  have hhigh' : n ≤ 2 * k + 1 := by exact_mod_cast (by linarith : (n : ℚ) ≤ 2 * k + 1)
  refine ⟨k, hk, by omega, ?_⟩
  -- An odd number is one more or one less than twice the integer that is taken.
  rcases (by omega : 2 * k = n + 1 ∨ 2 * k = n - 1) with h | h
  · have hk2 : (2 * k : ℚ) = n + 1 := by exact_mod_cast h
    rw [show (k - n / 2 : ℚ) = 1 / 2 by linarith]
    norm_num
  · have hk2 : (2 * k : ℚ) = n - 1 := by exact_mod_cast h
    rw [show (k - n / 2 : ℚ) = -(1 / 2) by linarith]
    norm_num

/-- A distance of a half is within the tolerance just for numbers above half a billion. There is no
odd number so close to a billion that rounding the tolerance would make a difference. -/
theorem half_le_tolerance_iff {τ : ℚ} (hodd : n % 2 = 1)
    (hτ : |τ - max 1 |(n / 2 : ℚ)| / 10 ^ 9| ≤ max 1 |(n / 2 : ℚ)| / 10 ^ 9 / 2 ^ 51) :
    1 / 2 ≤ τ ↔ 10 ^ 9 < n.natAbs := by
  have hnat : |(n / 2 : ℚ)| = n.natAbs / 2 := by
    rw [abs_div, abs_two, ← Int.cast_abs, ← Nat.cast_natAbs]
  rw [hnat] at hτ
  obtain ⟨hbelow, habove⟩ := abs_le.1 hτ
  constructor
  · intro hle
    by_contra hgt
    -- An odd number that is not above a billion is below it.
    have hlt : n.natAbs + 1 ≤ 10 ^ 9 := by omega
    have hlt' : (n.natAbs + 1 : ℚ) ≤ 10 ^ 9 := by exact_mod_cast hlt
    have hmax : max 1 ((n.natAbs : ℚ) / 2) ≤ (10 ^ 9 - 1) / 2 := max_le (by norm_num) (by linarith)
    linarith
  · intro hgt
    have hgt' : (10 ^ 9 + 1 : ℚ) ≤ n.natAbs := by exact_mod_cast hgt
    have hmax := le_max_right 1 ((n.natAbs : ℚ) / 2)
    linarith

/-- A number between two integers is close to one of them just when it is above half a billion. Then
the search ends at the denominator one and does not get to the denominator two. -/
theorem atDenominator_one_of_half (hx : toRat? x = some (n / 2 : ℚ)) (hodd : n % 2 = 1)
    (hn : n.natAbs ≤ 2147483647) :
    ∃ k, atDenominator x 1 = some (k, decide (10 ^ 9 < n.natAbs)) := by
  obtain ⟨k, hk, hkn, hhalf⟩ := exists_nearest_half hx hodd
  have hsmall := hkn.trans hn
  obtain ⟨ε, hε, hround⟩ := exists_rounds_sub (toRat?_ofInt (k := k) (by omega)) hx
  -- The difference is a half, so it is not rounded.
  have hexact : ε = k - n / 2 := by
    refine hround.eq_self (n := 1) (k := -1) (by rw [hhalf]; norm_num) (by norm_num)
      (by norm_num) ?_
    rw [hhalf]
    exact le_trans (by norm_num) (one_le_pow₀ one_le_two : (1 : ℚ) ≤ 2 ^ 1024)
  have hdistance : place? (Float.ofInt k / Float.ofNat 1 - x).abs = some (1 / 2) := by
    show place? (Float.ofInt k / 1 - x).abs = _
    rw [Double.div_one, place?_abs hε, hexact, hhalf]
  obtain ⟨τ, hτ, htolerance⟩ := exists_place?_tolerance hx
  have hclose : (Float.ofInt k / Float.ofNat 1 - x).abs ≤ tolerance x ↔ 10 ^ 9 < n.natAbs :=
    (le_iff_place_le hdistance hτ).trans (half_le_tolerance_iff hodd htolerance)
  have hproduct : x * Float.ofNat 1 = x := Double.mul_one x
  refine ⟨k, ?_⟩
  unfold atDenominator
  rw [hproduct, hk]
  show (if 2147483647 < k.natAbs then none
    else some (k, decide ((Float.ofInt k / Float.ofNat 1 - x).abs ≤ tolerance x))) = _
  rw [if_neg (by omega), decide_eq_decide.2 hclose]

/-- What the double closest to a fraction in lowest terms is read as. It is the fraction, or one
with a smaller denominator that is within a billionth of its size. Which of the two it is depends on
how far all fractions with smaller denominators are away. -/
structure ReadBack (x : Float) (n : ℤ) (d : ℕ) (p : Exponent) : Prop where
  eq_or_lt : p.val = n / d ∨ p.den < d
  near : |p.val - n / d| ≤ (1 / 10 ^ 9 + 1 / 10 ^ 15) * size (n / d)
  /-- The fraction is read just when the search goes past all smaller denominators. -/
  eq_iff : p.val = n / d ↔ ∀ e, 0 < e → e < d → ∃ k, atDenominator x e = some (k, false)
  /-- It does so if all fractions with smaller denominators are farther away than that. -/
  eq_of_far : (∀ (k : ℤ) (e : ℕ), 0 < e → e < d →
    (1 / 10 ^ 9 + 1 / 10 ^ 15) * size (n / d) < |(k / e - n / d : ℚ)|) → p.val = n / d
  /-- It does not if one of them is nearer. -/
  ne_of_near : (∃ (k : ℤ) (e : ℕ), 0 < e ∧ e < d ∧
    |(k / e - n / d : ℚ)| ≤ (1 / 10 ^ 9 - 1 / 10 ^ 15) * size (n / d)) → p.val ≠ n / d
  eq_of_small : n.natAbs * (d - 1) ≤ 999999000 → p.val = n / d
  half_iff : d = 2 → (p.val = n / d ↔ n.natAbs < 10 ^ 9)

/-- The double closest to a fraction in lowest terms is read as an exponent, and which it is depends
on the fractions with smaller denominators. Up to a size that depends on the denominator it is the
fraction, and halves are read back just below half a billion. -/
theorem ofFloat?_of_closest (hcoprime : n.gcd d = 1) (hpos : 0 < d) (hle : d ≤ 1000)
    (hn : n.natAbs ≤ 2147483647) (h : Closest (n / d) x) :
    ∃ p, ofFloat? x = some p ∧ ReadBack x n d p := by
  have happrox := approximates_of_closest h hpos hle hn
  obtain ⟨p, k, e, hp, hval, he, hed, hk, hbefore⟩ := happrox.exists_first
  obtain ⟨k', close, hk', -, hself, hnear, -⟩ := happrox.exists_atDenominator he hed
  obtain ⟨rfl, rfl⟩ := Prod.mk.inj (Option.some.inj (hk.symm.trans hk'))
  have hnear := hnear rfl
  -- In lowest terms the fraction is not one with the smaller denominator where the search may stop.
  have hown : p.val = n / d ↔ e = d := by
    rw [hval]
    refine ⟨fun heq => le_antisymm hed (le_of_div_eq_div hcoprime he hpos heq), fun heq => ?_⟩
    rw [hself heq, heq]
  have hden : p.den ≤ e := by
    have hdvd : ((Rat.divInt k e).den : ℤ) ∣ e := Rat.den_dvd k e
    rw [Rat.divInt_eq_div, Int.cast_natCast, ← hval] at hdvd
    exact Nat.le_of_dvd he (Int.natCast_dvd_natCast.1 hdvd)
  have hiff : p.val = n / d ↔ ∀ i, 0 < i → i < d → ∃ j, atDenominator x i = some (j, false) := by
    rw [hown]
    refine ⟨fun heq i hi hid => hbefore i hi (heq ▸ hid), fun hall =>
      hed.eq_of_not_lt fun hlt => ?_⟩
    obtain ⟨j, hj⟩ := hall e he hlt
    rw [hk] at hj
    cases hj
  have hfar (hall : ∀ (j : ℤ) (i : ℕ), 0 < i → i < d →
      (1 / 10 ^ 9 + 1 / 10 ^ 15) * size (n / d) < |(j / i - n / d : ℚ)|) : p.val = n / d :=
    hown.2 (hed.eq_of_not_lt fun hlt => absurd hnear (not_le.2 (hall k e he hlt)))
  refine ⟨p, hp, ?_⟩
  constructor
  case eq_or_lt => exact hed.eq_or_lt.imp hown.2 fun hlt => lt_of_le_of_lt hden hlt
  case near =>
    rw [hval]
    exact hnear
  case eq_iff => exact hiff
  case eq_of_far => exact hfar
  case ne_of_near =>
    rintro ⟨j, i, hi, hid, hj⟩ heq
    obtain ⟨m, hm⟩ := hiff.1 heq i hi hid
    obtain ⟨m', close, hm', -, -, -, hclose⟩ := happrox.exists_atDenominator hi hid.le
    rw [hclose j hj, hm] at hm'
    cases hm'
  case eq_of_small =>
    exact fun hsmall => hfar fun j i hi hid => far_of_small hcoprime hpos hle hsmall hi hid
  case half_iff =>
    rintro rfl
    have hodd : n % 2 = 1 :=
      Int.odd_iff.1 (Int.isCoprime_two_right.1 (Int.isCoprime_iff_gcd_eq_one.2 hcoprime))
    obtain ⟨j, hj⟩ := atDenominator_one_of_half (toRat?_of_closest_half h hn) hodd hn
    rw [hiff]
    constructor
    · intro hall
      obtain ⟨m, hm⟩ := hall 1 one_pos one_lt_two
      rw [hj] at hm
      have hle := of_decide_eq_false (Prod.mk.inj (Option.some.inj hm)).2
      omega
    · intro hlt i hi hid
      obtain rfl : i = 1 := by omega
      exact ⟨j, by rw [hj, decide_eq_false (by omega)]⟩

/-- One third is read back from the quotient of one by three, although this quotient is rounded. -/
theorem ofFloat?_of_closest_third :
    ∃ p, ofFloat? (Float.ofInt 1 / Float.ofNat 3) = some p ∧ p.val = 1 / 3 := by
  have hclosest : Closest ((1 : ℤ) / (3 : ℕ)) (Float.ofInt 1 / Float.ofNat 3) :=
    closest_div (by decide) (by decide) (by decide)
  obtain ⟨p, hp, hread⟩ := ofFloat?_of_closest (by decide) (by decide) (by decide)
    (by decide) hclosest
  have hval := hread.eq_of_small (by decide)
  push_cast at hval
  exact ⟨p, hp, hval⟩

/-- A billion and a half is a double, and it is in lowest terms with the denominator two, but it is
read as the integer above it. -/
theorem ofFloat?_large_half :
    Int.gcd 2000000001 (2 : ℕ) = 1 ∧ Closest ((2000000001 : ℤ) / (2 : ℕ)) 1000000000.5 ∧
      (ofFloat? 1000000000.5).map val = some 1000000001 := by
  have hvalue : toRat? 1000000000.5 = some (2000000001 / 2) := by
    have hparts := toRat?_ofParts .positive (m := 8388608004194304) (e := -23)
      ⟨by decide, by decide, by decide, by decide, .inl (by decide)⟩
    rw [show (1000000000.5 : Float) =
      ofParts (.finite .positive 8388608004194304 (-23) (by decide)) by decide, hparts]
    exact congrArg some (by norm_num [signed])
  refine ⟨by decide, ⟨_, hvalue, fun y w _ => ?_⟩, by decide⟩
  norm_num

end UnitPlane.Exponent
