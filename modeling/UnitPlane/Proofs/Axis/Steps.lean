import UnitPlane.Proofs.Axis
import UnitPlane.Proofs.Double.Tolerance

/-!
# `UnitPlane.Proofs.Axis.Steps`: how many steps there are in a range

The number of samples with a fixed step is the ratio of the range to the step, rounded up, unless
the ratio is so close to an integer that it counts as the integer. What counts as close is a
billionth of the ratio and not a billionth, so that for large ratios more than a billionth of a step
can be left out at the end.

* `stepsIn?_eq`: the number of steps, by the fractional part of the ratio.
* `stepCount_covers`: no sample is invented, and how much of the range can be left uncovered.
* `stepCount_leaves_out`: a range that leaves out a sample for more than a billionth of a step.
-/

set_option autoImplicit false

namespace UnitPlane.Axis

open Double

variable {limits : Limits} {start stop step ratio : Float} {r : ℚ} {n : ℕ}

/-- The difference of a ratio and the integer nearest to it is exact: they are close to each other.
So the comparison with the tolerance is one of exact numbers. -/
theorem place?_sub_nearest (hr : toRat? ratio = some r) (hone : 1 ≤ r) :
    place? (ratio - Float.ofInt ⌊r + 1 / 2⌋).abs = some |r - ⌊r + 1 / 2⌋| := by
  have hnearest := nearest?_eq_floor hr (zero_le_one.trans hone)
  have hlow := Int.lt_floor_add_one (r + 1 / 2)
  have hhigh := Int.floor_le (r + 1 / 2)
  obtain ⟨k, hk⟩ := Int.eq_ofNat_of_zero_le (Int.floor_nonneg.2 (show 0 ≤ r + 1 / 2 by linarith))
  rw [hk] at hnearest hlow hhigh ⊢
  rw [Int.cast_natCast] at hlow hhigh ⊢
  exact place?_abs (place?_sub_of_close hr (toRat?_ofNat_of_nearest? hnearest) (by linarith)
    (by linarith)
    (by linarith))

/-- From a half above an integer on, the nearest integer is the one above. So where a number is
rounded up unless the nearest integer is close, this makes a difference only below the half. -/
theorem nearest_or_ceil_eq (r τ : ℚ) :
    (if |r - ⌊r + 1 / 2⌋| ≤ τ then ⌊r + 1 / 2⌋ else ⌈r⌉) =
      if Int.fract r ≤ τ ∧ Int.fract r < 1 / 2 then ⌊r⌋ else ⌈r⌉ := by
  have hfract : Int.fract r = r - ⌊r⌋ := rfl
  have hrest := Int.fract_lt_one r
  have hnonneg := Int.fract_nonneg r
  -- The nearest integer is the one below, or else the one that rounding up gives anyway.
  rcases lt_or_ge (Int.fract r) (1 / 2) with hlt | hge
  · have hnearest : ⌊r + 1 / 2⌋ = ⌊r⌋ := Int.floor_eq_iff.2 ⟨by linarith, by linarith⟩
    simp only [hnearest, ← hfract, abs_of_nonneg hnonneg, hlt, and_true]
  · have hnearest : ⌊r + 1 / 2⌋ = ⌊r⌋ + 1 :=
      Int.floor_eq_iff.2 ⟨by push_cast; linarith, by push_cast; linarith⟩
    have hceil : ⌈r⌉ = ⌊r⌋ + 1 := Int.ceil_eq_iff.2 ⟨by push_cast; linarith, by push_cast; linarith⟩
    rw [hnearest, hceil, ite_self, if_neg fun h => absurd h.2 (not_lt.2 hge)]

/-- From one on, the number of steps is the ratio rounded up, unless it is above an integer by no
more than the tolerance and by less than a half. -/
theorem stepsIn?_eq (hr : toRat? ratio = some r) (hone : 1 ≤ r) :
    ∃ τ, place? (ratioTolerance * ratio.abs) = some τ ∧ |τ - r / 10 ^ 9| ≤ r / 10 ^ 9 / 2 ^ 51 ∧
      stepsIn? ratio = some (if Int.fract r ≤ τ ∧ Int.fract r < 1 / 2 then ⌊r⌋ else ⌈r⌉) := by
  have habs : |r| = r := abs_of_pos (zero_lt_one.trans_le hone)
  have hlarge : ¬ ratio.abs < 1 := by
    rw [lt_iff_place_lt (place?_of_toRat? (toRat?_abs hr)) (place?_of_toRat? toRat?_one), habs]
    exact not_lt.2 hone
  obtain ⟨τ, hτ, hbound⟩ := exists_place?_tolerance hr
  rw [habs, max_eq_right hone] at hbound
  rw [if_neg hlarge] at hτ
  refine ⟨τ, hτ, hbound, ?_⟩
  have hclose := le_iff_place_le (place?_sub_nearest hr hone) hτ
  unfold stepsIn?
  -- Both ways to round are those of the exact ratio now.
  rw [nearest?_eq_floor hr (zero_le_one.trans hone), ceiling?_eq, hr, ← nearest_or_ceil_eq]
  dsimp only [Option.bind_eq_bind, Option.bind_some, Option.map_some]
  rw [if_neg hlarge]
  by_cases h : |r - ⌊r + 1 / 2⌋| ≤ τ
  · rw [if_pos h]
    exact if_pos (hclose.2 h)
  · rw [if_neg h]
    exact if_neg (hclose.not.2 h)

/-- The number of samples with a fixed step, in terms of the ratio `r` of the range to the step. All
but the last are needed to cover the range, and what stays uncovered is within the tolerance `τ`, a
billionth of the ratio. A ratio above the number of samples is less than a half above it.

So the samples leave out a billionth of a step at most, unless the ratio is further above an integer
than that, but within the tolerance and less than a half. -/
theorem stepCount_covers (h : stepCount limits start stop step = .ok n) :
    ∃ r τ : ℚ, toRat? ((stop - start) / step) = some r ∧
      place? (ratioTolerance * ((stop - start) / step).abs) = some τ ∧
      |τ - r / 10 ^ 9| ≤ r / 10 ^ 9 / 2 ^ 51 ∧
      n - 1 < r ∧ r ≤ n + τ ∧ (n < r → n = ⌊r⌋ ∧ r < n + 1 / 2) ∧
      (r ≤ n + 1 / 10 ^ 9 ↔
        ¬ (1 / 10 ^ 9 < Int.fract r ∧ Int.fract r ≤ τ ∧ Int.fract r < 1 / 2)) := by
  obtain ⟨hsteps, htwo, -⟩ := stepCount_eq_ok h
  obtain ⟨-, r, hr, hlast⟩ := near_of_stepsIn?_eq_some hsteps
  have hn : (2 : ℚ) ≤ n := by exact_mod_cast htwo
  have hone : 1 ≤ r := by linarith
  obtain ⟨τ, hτ, hbound, heq⟩ := stepsIn?_eq hr hone
  refine ⟨r, τ, hr, hτ, hbound, hlast, ?_⟩
  have hτpos : 0 ≤ τ := nonneg_of_near (by positivity) hbound
  rw [hsteps, Option.some_inj] at heq
  -- Either the tolerance takes the fraction off, or the ratio is rounded up and nothing is left
  -- out.
  by_cases hdrop : Int.fract r ≤ τ ∧ Int.fract r < 1 / 2
  · -- The rest above the integer is left out.
    rw [if_pos hdrop] at heq
    have hrest : r = n + Int.fract r := by
      rw [← Int.cast_natCast n, heq, Int.floor_add_fract]
    refine ⟨by linarith, fun _ => ⟨heq, by linarith⟩, ?_⟩
    rw [and_iff_left hdrop, not_lt]
    constructor <;> intro hle <;> linarith
  · -- The ratio is rounded up.
    rw [if_neg hdrop] at heq
    have hle : r ≤ n := by
      have := Int.le_ceil r
      rwa [← heq, Int.cast_natCast] at this
    refine ⟨by linarith, fun hlt => absurd hlt (not_lt.2 hle), iff_of_true ?_ fun h => hdrop h.2⟩
    linarith [show (0 : ℚ) ≤ 1 / 10 ^ 9 by norm_num]

/-- The range from zero to one has three and a third steps of three tenths, and four samples. The
last step goes beyond the end, but the last sample does not. -/
theorem stepCount_covers_thirds :
    stepCount {} 0 1 0.3 = .ok 4 ∧
      ∃ r : ℚ, toRat? ((1 - 0) / 0.3) = some r ∧ 3 < r ∧ (4 < r → r < 4 + 1 / 2) := by
  have hcount : stepCount {} 0 1 0.3 = .ok 4 := by decide
  obtain ⟨r, τ, hr, -, -, hlast, -, habove, -⟩ := stepCount_covers hcount
  push_cast at hlast habove
  exact ⟨hcount, r, hr, by linarith, fun hlt => (habove hlt).2⟩

/-- The range is two steps and one and a half billionths of a step long, and the third sample below
its end is left out. -/
theorem stepCount_leaves_out :
    (0 : Float) < 2.0000000015 ∧ stepCount {} 0 2.0000000015 1 = .ok 2 ∧
      ∃ r : ℚ, toRat? ((2.0000000015 - 0) / 1) = some r ∧ 2 + 1 / 10 ^ 9 < r := by
  have hratio : toRat? ((2.0000000015 - 0) / 1) = some (4503599630748196 * 2 ^ (-51 : ℤ)) := by
    rw [show ((2.0000000015 - 0) / 1 : Float) =
      ofParts (.finite .positive 4503599630748196 (-51) (by decide)) by decide]
    exact toRat?_ofParts .positive ⟨by decide, by decide, by decide, by decide, .inl (by decide)⟩
  exact ⟨by decide, by decide, _, hratio, by norm_num⟩

end UnitPlane.Axis
