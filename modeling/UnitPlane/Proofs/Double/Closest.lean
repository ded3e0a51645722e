import UnitPlane.Proofs.Double.Division

/-!
# `UnitPlane.Proofs.Double.Closest`: the double closest to a number

Rounding is to the nearest double: none is closer to the number, of either sign and in whatever
binade. So a quotient of two integers is closest to their fraction, and every double that is closest
to it is as near as the quotient.

* `Rounds.abs_sub_le_abs_sub`: no double is closer than the rounded number.
* `closest_div`: quotients are closest doubles.
* `Closest.exists_near`: how near the closest double to a fraction is.
-/

set_option autoImplicit false

namespace UnitPlane.Double

variable {x y : Float} {p q v w : ℚ}

/-! ### Nearest multiples -/

/-- No integer is nearer to a number than one at most a half away. Two different integers are at
least one apart. -/
theorem abs_sub_le_of_le_half {k : ℤ} {z : ℚ} (h : |k - z| ≤ 1 / 2) (j : ℤ) :
    |k - z| ≤ |j - z| := by
  rcases eq_or_ne j k with rfl | hne
  · exact le_rfl
  · have hstep : (1 : ℚ) ≤ |(j - k : ℤ)| := by exact_mod_cast Int.one_le_abs (sub_ne_zero.2 hne)
    have htriangle := abs_sub_le (j : ℚ) z k
    rw [abs_sub_comm z k] at htriangle
    push_cast at hstep
    linarith

/-- No double is closer to a number that is not negative than the one it is rounded to. The other
doubles are multiples of the same last place, or lie below the binade of the number. -/
theorem RoundsTo.abs_sub_le_abs_sub (h : RoundsTo q p) (hq : 0 ≤ q) (hp : p < overflow)
    (hy : toRat? y = some w) : |p - q| ≤ |w - q| := by
  obtain ⟨t, r, hlast, hr, hmin⟩ := h
  have hpos : (0 : ℚ) < 2 ^ t := by positivity
  rw [hmin] at hp ⊢
  rw [min_eq_left ((min_lt_iff.1 hp).resolve_right (lt_irrefl _)).le]
  -- Among the multiples of the last place the rounded number is nearest.
  have hmultiple (N : ℕ) : |(r : ℚ) * 2 ^ t - q| ≤ |(N : ℚ) * 2 ^ t - q| := by
    have hscaled (a : ℚ) : |a * 2 ^ t - q| = |a - q / 2 ^ t| * 2 ^ t := by
      rw [← abs_of_pos hpos, ← abs_mul, abs_of_pos hpos, sub_mul, div_mul_cancel₀ q hpos.ne']
    have hhalf : |((r : ℤ) : ℚ) - q / 2 ^ t| ≤ 1 / 2 := by
      have hlow := hr.low
      have hhigh := hr.high
      rw [Int.cast_natCast, abs_le]
      constructor <;> linarith
    have hnearest := abs_sub_le_of_le_half hhalf N
    rw [Int.cast_natCast, Int.cast_natCast] at hnearest
    rw [hscaled, hscaled]
    exact mul_le_mul_of_nonneg_right hnearest hpos.le
  rcases le_or_gt w 0 with hw | hw
  · have hzero := hmultiple 0
    rw [Nat.cast_zero, zero_mul, abs_of_nonpos (by linarith : (0 : ℚ) - q ≤ 0)] at hzero
    rw [abs_of_nonpos (by linarith : w - q ≤ 0)]
    linarith
  · obtain ⟨m, e, hm, hparts, rfl⟩ := exists_parts_of_pos hy hw
    have hc := canonical_of_parts hparts
    rcases le_or_gt t e with hle | hlt
    · rw [value_eq_multiple m hle]
      exact hmultiple _
    · -- With a smaller last place it is below the multiple at which the binade begins.
      have hnormal := hlast.normal.resolve_right (by have := hc.le_exponent; omega)
      have hbegin := hmultiple (2 ^ 52)
      have hvalue : ((2 ^ 52 : ℕ) : ℚ) * 2 ^ t = 2 ^ (52 + t) := by
        rw [zpow_add₀ (by norm_num)]
        norm_num
      have hbelow : (m * 2 ^ e : ℚ) ≤ 2 ^ (52 + t) :=
        calc (m * 2 ^ e : ℚ) ≤ 2 ^ (53 : ℤ) * 2 ^ e := by
              refine mul_le_mul_of_nonneg_right ?_ (by positivity)
              exact_mod_cast hc.lt.le
          _ = 2 ^ (53 + e) := (zpow_add₀ (by norm_num) _ _).symm
          _ ≤ 2 ^ (52 + t) := zpow_le_zpow_right₀ (by norm_num) (by omega)
      rw [hvalue, abs_of_nonpos (by linarith : (2 : ℚ) ^ (52 + t) - q ≤ 0)] at hbegin
      rw [abs_of_nonpos (by linarith : (m * 2 ^ e : ℚ) - q ≤ 0)]
      linarith

/-- No double is closer to a number than the one it is rounded to, of either sign. Changing the sign
of all three turns the one case into the other. -/
theorem Rounds.abs_sub_le_abs_sub (h : Rounds q p) (hp : |p| < overflow) (hy : toRat? y = some w) :
    |p - q| ≤ |w - q| := by
  rcases h with ⟨hq, h⟩ | ⟨hq, h⟩
  · exact h.abs_sub_le_abs_sub hq (lt_of_abs_lt hp) hy
  · have hneg : toRat? (-y) = some (-w) := by
      rw [toRat?_neg, hy]
      rfl
    have hle := h.abs_sub_le_abs_sub (neg_nonneg.2 hq) (neg_lt.1 (abs_lt.1 hp).1) hneg
    rwa [neg_sub_neg, neg_sub_neg, abs_sub_comm, abs_sub_comm q w] at hle

/-! ### How near they are -/

/-- A number rounded to a double is moved by half a unit of its last place at most, on either side
of zero. -/
theorem Rounds.abs_sub_le (h : Rounds q p) (hp : |p| < overflow) :
    |p - q| ≤ |q| / 2 ^ 53 + 2 ^ (-1075 : ℤ) := by
  rcases h with ⟨hlow, h⟩ | ⟨hlow, h⟩
  · rw [abs_of_nonneg hlow]
    exact h.abs_sub_le hlow (lt_of_abs_lt hp)
  · have hmoved := h.abs_sub_le (neg_nonneg.2 hlow) (neg_lt.1 (abs_lt.1 hp).1)
    rwa [neg_sub_neg, abs_sub_comm, ← abs_of_nonpos hlow] at hmoved

/-- Numbers of a usual size are not rounded to infinity, so the bound on what they are moved by
holds without asking for that. -/
theorem Rounds.near (h : Rounds q p) (hq : |q| ≤ 2 ^ 1023) :
    |p| < overflow ∧ |p - q| ≤ |q| / 2 ^ 53 + 2 ^ (-1075 : ℤ) :=
  have hp := h.abs.lt_overflow hq
  ⟨hp, h.abs_sub_le hp⟩

/-- The integers of at most 53 bits, of either sign, are doubles. -/
theorem toRat?_ofInt {k : ℤ} (h : k.natAbs ≤ 2 ^ 53) : toRat? (Float.ofInt k) = some (k : ℚ) := by
  cases k with
  | ofNat n => exact toRat?_ofNat h
  | negSucc n =>
    show toRat? (-Float.ofNat (n + 1)) = _
    rw [toRat?_neg, toRat?_ofNat (show n + 1 ≤ 2 ^ 53 from h)]
    exact congrArg some (by push_cast; ring)

/-- The quotient of two integers that are doubles is near to their fraction: they are taken to
doubles exactly, and one division is rounded. -/
theorem toRat?_ofInt_div {n : ℤ} {d : ℕ} (hn : n.natAbs ≤ 2 ^ 53) (hd : 0 < d) (hd' : d ≤ 2 ^ 53) :
    ∃ w, toRat? (Float.ofInt n / Float.ofNat d) = some w ∧ Rounds (n / d) w ∧
      |w - n / d| ≤ |(n / d : ℚ)| / 2 ^ 53 + 2 ^ (-1075 : ℤ) := by
  have hpos : (1 : ℚ) ≤ d := by exact_mod_cast hd
  obtain ⟨w, hw, hround⟩ := exists_rounds_div (toRat?_ofInt hn) (toRat?_ofNat hd') (by positivity)
  have hnum : |(n : ℚ)| ≤ 2 ^ 53 := by
    rw [← Int.cast_abs, ← Nat.cast_natAbs]
    exact_mod_cast hn
  -- The quotient is far below the largest double, so rounding it moves it by half of a last place.
  have hsize : |(n / d : ℚ)| ≤ 2 ^ 1023 := by
    rw [abs_div, abs_of_pos (by positivity : (0 : ℚ) < d)]
    calc |(n : ℚ)| / d ≤ |(n : ℚ)| := div_le_self (abs_nonneg _) hpos
      _ ≤ 2 ^ 53 := hnum
      _ ≤ 2 ^ 1023 := pow_le_pow_right₀ one_le_two (by norm_num)
  obtain ⟨hfinite, hnear⟩ := hround.near hsize
  exact ⟨w, toRat?_of_abs_lt hw hfinite, hround, hnear⟩

/-! ### Closest doubles -/

/-- A finite double that no other one is closer to the number than. There may be two such doubles,
where the number is half-way between them. -/
def Closest (q : ℚ) (x : Float) : Prop :=
  ∃ v, toRat? x = some v ∧ ∀ y w, toRat? y = some w → |v - q| ≤ |w - q|

/-- A quotient of integers is the double closest to their fraction, because nothing but the division
is rounded. -/
theorem closest_div {n : ℤ} {d : ℕ} (hn : n.natAbs ≤ 2 ^ 53) (hd : 0 < d) (hd' : d ≤ 2 ^ 53) :
    Closest (n / d) (Float.ofInt n / Float.ofNat d) := by
  obtain ⟨w, hw, hround, -⟩ := toRat?_ofInt_div hn hd hd'
  exact ⟨w, hw, fun y u hu => hround.abs_sub_le_abs_sub (abs_lt_overflow hw) hu⟩

/-- The double closest to a fraction is as near to it as the quotient is, though it need not be the
quotient. -/
theorem Closest.exists_near {n : ℤ} {d : ℕ} (h : Closest (n / d) x) (hn : n.natAbs ≤ 2 ^ 53)
    (hd : 0 < d) (hd' : d ≤ 2 ^ 53) :
    ∃ v, toRat? x = some v ∧ |v - n / d| ≤ |(n / d : ℚ)| / 2 ^ 53 + 2 ^ (-1075 : ℤ) := by
  obtain ⟨v, hv, hclosest⟩ := h
  obtain ⟨w, hw, -, hnear⟩ := toRat?_ofInt_div hn hd hd'
  exact ⟨v, hv, (hclosest _ w hw).trans hnear⟩

/-- The double closest to a double is that number, at no distance from it. -/
theorem Closest.toRat?_eq (h : Closest q x) (hy : toRat? y = some q) : toRat? x = some q := by
  obtain ⟨v, hv, hclosest⟩ := h
  have hle := hclosest y q hy
  rw [sub_self, abs_zero] at hle
  rwa [sub_eq_zero.1 (abs_nonpos_iff.1 hle)] at hv

end UnitPlane.Double
