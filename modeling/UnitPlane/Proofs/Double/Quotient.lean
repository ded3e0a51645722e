import UnitPlane.Proofs.Double.Whole

/-!
# `UnitPlane.Proofs.Double.Quotient`: where quotients are rounded to

The quotient of two positive doubles is rounded to a multiple of the last place that its own size
leaves, which is that of the smallest doubles at least, and goes to infinity if it is too large.
Rounding never passes a double on the way, so a quotient stays on the side of every double that the
exact one is on.

* `RoundsTo`: a positive number and the place of the double it is rounded to.
* `exists_roundsTo_div`: quotients are rounded in this way.
* `RoundsTo.le` and `RoundsTo.ge`: rounding never passes a double.
* `isNaN_div`: a finite double divided by a positive one is a number or infinite.
-/

set_option autoImplicit false

namespace UnitPlane.Double

open Float.Model Float.Model.UnpackedFloat

/-! ### The last place -/

/-- The exponent of the last place of a double of this size. Numbers of 53 bits times this power of
two reach the size, and for the smallest doubles the last place does not get any smaller. -/
structure LastPlace (q : ℚ) (t : ℤ) : Prop where
  le : -1074 ≤ t
  lt : q < 2 ^ (53 + t)
  normal : 2 ^ (52 + t) ≤ q ∨ t = -1074

/-- The number is rounded to the double with the place `p`: to the nearest multiple of its last
place, to the even one of two, or to infinity. -/
def RoundsTo (q p : ℚ) : Prop :=
  ∃ (t : ℤ) (r : ℕ), LastPlace q t ∧ NearestEven (q / 2 ^ t) r ∧ p = min ((r : ℚ) * 2 ^ t) overflow

section Rounding

variable {M : ℕ} {x : ℤ} {z : ℚ} {acc : Accuracy}

/-- What a mantissa stands for has its last place where the mantissa is shifted to. -/
theorem lastPlace_target (hz : StandsFor (.ofMantissaAndAccuracy M acc) z)
    (hx : 2 ^ 52 ≤ M ∨ x ≤ -1074) : LastPlace (z * 2 ^ x) (target M x) := by
  have h2 : (2 : ℚ) ≠ 0 := by norm_num
  have hpos : (0 : ℚ) < 2 ^ x := by positivity
  obtain ⟨hlow, hhigh⟩ := hz.bounds
  refine ⟨le_max_right _ _, ?_, ?_⟩
  · have hM : (M : ℚ) + 1 ≤ 2 ^ ((M.log2 : ℤ) + 1) := by
      have : M + 1 ≤ 2 ^ (M.log2 + 1) := Nat.lt_log2_self
      exact_mod_cast this
    have hexponent : (M.log2 : ℤ) + x - 52 ≤ target M x := le_max_left _ _
    calc z * 2 ^ x < 2 ^ ((M.log2 : ℤ) + 1) * 2 ^ x :=
          mul_lt_mul_of_pos_right (lt_of_lt_of_le hhigh hM) hpos
      _ = 2 ^ ((M.log2 : ℤ) + 1 + x) := (zpow_add₀ h2 _ _).symm
      _ ≤ 2 ^ (53 + target M x) := zpow_le_zpow_right₀ (by norm_num) (by omega)
  -- A mantissa of zero is that of a number below the smallest double, so its last place is the
  -- smallest one.
  · rcases Nat.eq_zero_or_pos M with rfl | hM
    · refine .inr (max_eq_right ?_)
      rw [Nat.log2_zero]
      omega
    · rcases max_choice ((M.log2 : ℤ) + x - 52) (-1074) with h | h
      · refine .inl ?_
        have hlog : (2 : ℚ) ^ (M.log2 : ℤ) ≤ M := by
          rw [zpow_natCast]
          exact_mod_cast Nat.log2_self_le hM.ne'
        have hexponent : 52 + target M x = M.log2 + x := by
          show 52 + max _ _ = _
          rw [h]
          omega
        rw [hexponent, zpow_add₀ h2]
        exact mul_le_mul_of_nonneg_right (hlog.trans hlow) hpos.le
      · exact .inr h

/-- A number in units of its last place has 53 bits, or fewer where the last place is the smallest.
Rounding up may give `2 ^ 53`, but not more. -/
theorem LastPlace.bits {q : ℚ} {t : ℤ} {r : ℕ} (h : LastPlace q t)
    (hr : NearestEven (q / 2 ^ t) r) :
    r ≤ 2 ^ 53 ∧ (2 ^ 52 ≤ r ∨ t = -1074) := by
  have hpos : (0 : ℚ) < 2 ^ t := by positivity
  have hsplit (k : ℕ) : (2 : ℚ) ^ ((k : ℤ) + t) = ((2 ^ k : ℕ) : ℚ) * 2 ^ t := by
    rw [zpow_add₀ (by norm_num), zpow_natCast]
    push_cast
    rfl
  -- Rounding to even keeps the order, and it leaves both powers of two as they are.
  constructor
  · refine hr.mono (NearestEven.self (2 ^ 53)) ?_
    rw [div_le_iff₀ hpos, ← hsplit]
    exact h.lt.le
  · refine h.normal.imp_left fun hlow => (NearestEven.self (2 ^ 52)).mono hr ?_
    rw [le_div_iff₀ hpos, ← hsplit]
    exact hlow

/-- Packing a rounded mantissa keeps its place, unless it is too large. A mantissa of `2 ^ 53` is
shifted by one before, which does not change its number. -/
theorem place?_ofParts_rounded {r : ℕ} {t : ℤ} (hr : r ≤ 2 ^ 53) (hnormal : 2 ^ 52 ≤ r ∨ t = -1074)
    (ht : -1074 ≤ t) :
    let shifted := shiftToTargetExponent Format.binary64 r t .exact
    place? (ofParts (if h : shifted.1.mantissa = 0 then .zero .positive
      else .finite .positive shifted.1.mantissa shifted.2 (Nat.pos_of_ne_zero h))) =
        some (min ((r : ℚ) * 2 ^ t) overflow) := by
  intro shifted
  -- From `2 ^ 52` on the mantissa is full, or one shift makes it so.
  by_cases hlow : 2 ^ 52 ≤ r
  · obtain ⟨m, e, hm, he, hm52, hm53, hele, hvalue⟩ := exists_mantissa hlow hr ht
    have hne : ¬ shifted.1.mantissa = 0 := by
      rw [hm]
      omega
    rw [dif_neg hne, ← hvalue]
    have hplace {hpos : 0 < m} : place? (ofParts (.finite .positive m e hpos)) =
        some (min ((m : ℚ) * 2 ^ e) overflow) := place?_ofParts hm52 hm53 hele
    simp only [shifted, hm, he]
    exact hplace
  · -- The smallest doubles have fewer bits, and nothing is shifted.
    obtain rfl : t = -1074 := hnormal.resolve_left hlow
    have hlog : r.log2 ≤ 52 := by
      rcases Nat.eq_zero_or_pos r with rfl | hpos
      · decide
      · exact Nat.lt_succ_iff.1 ((Nat.log2_lt hpos.ne').2 (by omega))
    have htarget : target r (-1074) = -1074 := max_eq_right (by omega)
    have hshifted : shifted = (ExtendedMantissa.ofMantissaAndAccuracy r .exact, -1074) := by
      show shiftToTargetExponent Format.binary64 r (-1074) .exact = _
      rw [shiftToTargetExponent_eq .exact htarget.ge, htarget]
      rfl
    have hmantissa : (ExtendedMantissa.ofMantissaAndAccuracy r .exact).mantissa = r := rfl
    simp only [hshifted, hmantissa]
    rcases Nat.eq_zero_or_pos r with rfl | hpos
    · rw [dif_pos rfl]
      show some 0 = _
      rw [Nat.cast_zero, zero_mul, min_eq_left overflow_pos.le]
    · have hc : Canonical r (-1074) := ⟨hpos, by omega, le_rfl, by decide, .inr rfl⟩
      rw [dif_neg hpos.ne', min_eq_left hc.value_lt.le]
      unfold place?
      have hparts : parts (ofParts (.finite .positive r (-1074) hpos)) =
          .finite .positive r (-1074) hpos :=
        parts_ofParts hc
      exact congrArg place hparts

/-- Rounding takes a number with a plus sign to the nearest multiple of its last place, and so to
the double nearest to it. -/
theorem exists_roundsTo_roundWithAccuracy (hz : StandsFor (.ofMantissaAndAccuracy M acc) z)
    (hx : 2 ^ 52 ≤ M ∨ x ≤ -1074) :
    ∃ p, place? (ofParts (roundWithAccuracy Format.binary64 .positive M x acc)) = some p ∧
      RoundsTo (z * 2 ^ x) p := by
  have hle := le_target hx
  have hlast := lastPlace_target hz hx
  have hnearest := (hz.shiftRight (target M x - x).toNat).nearestEven
  -- The shift changes the units, not the number.
  have hunits : z / 2 ^ (target M x - x).toNat = z * 2 ^ x / 2 ^ target M x := by
    have hpow : (2 : ℚ) ^ target M x = 2 ^ (target M x - x).toNat * 2 ^ x := by
      rw [← zpow_natCast, ← zpow_add₀ (by norm_num)]
      congr 1
      omega
    rw [hpow, mul_div_mul_right _ _ (by positivity)]
  rw [hunits] at hnearest
  obtain ⟨hhigh, hnormal⟩ := hlast.bits hnearest
  refine ⟨_, ?_, target M x, _, hlast, hnearest, rfl⟩
  rw [← place?_ofParts_rounded hhigh hnormal hlast.le]
  unfold roundWithAccuracy
  rw [shiftToTargetExponent_eq acc hle]

end Rounding

/-! ### Quotients that are numbers -/

section Numbers

variable {x y : Float}

/-- Packing may turn a large number into an infinity, but never into no number. -/
theorem isNaN_parts_ofParts {p : UnpackedFloat} (h : p.isNaN = false) :
    (parts (ofParts p)).isNaN = false := by
  cases p with
  | notANumber => cases h
  | infinity s | zero s => cases s <;> rfl
  | finite s m e hm =>
    have hpacked (E : BitVec 11) (M : BitVec 52) (hE : E.toNat ≠ 2047) :
        (unpack Format.binary64 (packComponents Format.binary64 s E M)).isNaN = false := by
      rw [unpack_eq]
      simp only [unpackExponent_packComponents]
      rw [if_neg hE]
      split
      · split <;> rfl
      · rfl
    show (unpack Format.binary64 (pack Format.binary64 (.finite s m e hm))).isNaN = false
    simp only [UnpackedFloat.pack]
    split
    · cases s <;> rfl
    next hexponent =>
      split
      · -- An exponent field of all ones would be too large for a finite number.
        refine hpacked _ _ ?_
        rw [BitVec.toNat_ofNat]
        have hbound : ¬ 2 ^ 11 ≤ (e + Format.binary64.exponentBias +
          Format.binary64.mantissaBitsWithoutImplicit).toNat + 1 := hexponent
        omega
      · exact hpacked _ _ (by decide)

/-- A finite double divided by a positive one is a number or infinite. Of doubles that are numbers,
only two zeros and two infinities have a quotient that is none. -/
theorem isNaN_div (hx : x.isFinite = true) (hy : y.isFinite = true) (hpos : 0 < y) :
    (x / y).isNaN = false := by
  show (parts (ofParts (UnpackedFloat.div Format.binary64 (parts x) (parts y)))).isNaN = false
  refine isNaN_parts_ofParts ?_
  rw [isFinite_iff] at hx hy
  rw [lt_iff, parts_zero] at hpos
  -- The divisor is finite and not zero, which leaves quotients of zero and of finite numbers.
  cases hpy : parts y with
  | notANumber | infinity t =>
    rw [hpy] at hy
    cases hy
  | zero t =>
    rw [hpy] at hpos
    cases hpos
  | finite t m e hm =>
    cases hpx : parts x with
    | notANumber | infinity s =>
      rw [hpx] at hx
      cases hx
    | zero s => rfl
    | finite s m' e' hm' =>
      show (roundWithAccuracy Format.binary64 _ _ _ _).isNaN = false
      unfold roundWithAccuracy
      dsimp only
      split <;> rfl

/-- A zero divided by a finite double that is not a zero is a zero. -/
theorem zero_div_beq (hx : (x == 0) = true) (hy : y.isFinite = true) (hpos : 0 < y) :
    (x / y == 0) = true := by
  obtain ⟨s, hs⟩ := beq_zero_iff.1 hx
  rw [isFinite_iff] at hy
  rw [lt_iff, parts_zero] at hpos
  have hdiv : x / y = ofParts (UnpackedFloat.div Format.binary64 (parts x) (parts y)) := rfl
  rw [beq_zero_iff, hdiv, hs]
  -- A zero over a positive finite number is a zero, of one of the two signs.
  cases hpy : parts y with
  | notANumber | infinity t =>
    rw [hpy] at hy
    cases hy
  | zero t =>
    rw [hpy] at hpos
    cases hpos
  | finite t m e hm => exact ⟨_, parts_ofParts trivial⟩

/-- A zero divided by a zero is no number. -/
theorem isNaN_zero_div (hx : (x == 0) = true) : (x / 0).isNaN = true := by
  obtain ⟨s, hs⟩ := beq_zero_iff.1 hx
  have hdiv : UnpackedFloat.div Format.binary64 (.zero s) (.zero .positive) = .notANumber := rfl
  show (parts (ofParts (UnpackedFloat.div Format.binary64 (parts x) (parts 0)))).isNaN = true
  rw [hs, parts_zero, hdiv]
  rfl

end Numbers

/-! ### Quotients -/

section Quotients

variable {x y : Float} {v w q p : ℚ}

/-- A positive double has a plus sign, a mantissa and an exponent, and is their number. -/
theorem exists_parts_of_pos (h : toRat? x = some v) (hv : 0 < v) :
    ∃ m e, ∃ hm : 0 < m, parts x = .finite .positive m e hm ∧ v = m * 2 ^ e := by
  unfold toRat? at h
  -- A positive value excludes the zeros and the negative numbers.
  cases hx : parts x with
  | notANumber | infinity s =>
    rw [hx] at h
    cases h
  | zero s =>
    rw [hx] at h
    cases h
    exact absurd hv (lt_irrefl 0)
  | finite s m e hm =>
    rw [hx] at h
    have hvalue := Option.some.inj h
    rw [apply_mul] at hvalue
    cases s with
    | positive => exact ⟨m, e, hm, rfl, hvalue.symm⟩
    | negative =>
      have hpos : (0 : ℚ) < m * 2 ^ e := mul_pos (by exact_mod_cast hm) (by positivity)
      have hneg : v = -(m * 2 ^ e) := hvalue.symm
      linarith

/-- The quotient of two positive doubles is the exact quotient rounded. -/
theorem exists_roundsTo_div (hx : toRat? x = some v) (hv : 0 < v) (hy : toRat? y = some w)
    (hw : 0 < w) : ∃ p, place? (x / y) = some p ∧ RoundsTo (v / w) p := by
  obtain ⟨m, e, hm, hpx, rfl⟩ := exists_parts_of_pos hx hv
  obtain ⟨m', e', hm', hpy, rfl⟩ := exists_parts_of_pos hy hw
  obtain ⟨z, hz, hvalue, hbits⟩ := standsFor_divCore m m' e e' hm hm'
  obtain ⟨p, hp, hround⟩ := exists_roundsTo_roundWithAccuracy hz hbits
  refine ⟨p, ?_, hvalue ▸ hround⟩
  have hdiv : x / y = ofParts (UnpackedFloat.div Format.binary64 (parts x) (parts y)) := rfl
  rw [hdiv, hpx, hpy]
  exact hp

/-- The multiples of the smallest double by numbers of 53 bits are below the place of infinity,
because they are doubles themselves. -/
theorem Canonical.mul_smallest_lt {n : ℕ} (h : n < 2 ^ 53) :
    (n : ℚ) * 2 ^ (-1074 : ℤ) < overflow := by
  rcases Nat.eq_zero_or_pos n with rfl | hpos
  · rw [Nat.cast_zero, zero_mul]
    exact overflow_pos
  · exact Canonical.value_lt ⟨hpos, h, le_rfl, by decide, .inr rfl⟩

/-- A number that is not below a double is not rounded below it. Rounding to multiples of the last
place keeps the order, and the double is such a multiple or below all of them. -/
theorem RoundsTo.ge (h : RoundsTo q p) {n : ℕ} {k : ℤ} (hn : n < 2 ^ 53) (hk : -1074 ≤ k)
    (hq : n * 2 ^ k ≤ q) : min ((n : ℚ) * 2 ^ k) overflow ≤ p := by
  obtain ⟨t, r, hlast, hr, hp⟩ := h
  rw [hp]
  refine min_le_min_right _ ?_
  have hpos : (0 : ℚ) < 2 ^ t := by positivity
  -- The last place of what was rounded is compared with that of the double below it.
  rcases le_or_gt t k with hle | hlt
  · -- The double is a multiple of the last place.
    have hmultiple : (n : ℚ) * 2 ^ k = ((n * 2 ^ (k - t).toNat : ℕ) : ℚ) * 2 ^ t := by
      push_cast
      rw [mul_assoc, ← zpow_natCast, ← zpow_add₀ (by norm_num)]
      congr 2
      omega
    rw [hmultiple] at hq ⊢
    have hle := (NearestEven.self _).mono hr ((le_div_iff₀ hpos).2 hq)
    exact mul_le_mul_of_nonneg_right (by exact_mod_cast hle) hpos.le
  · -- The double has a smaller last place, so it is below all that is rounded there.
    have hnormal := (hlast.bits hr).2.resolve_right (by omega)
    have hn : (n : ℚ) ≤ 2 ^ 53 := by exact_mod_cast hn.le
    calc (n : ℚ) * 2 ^ k ≤ 2 ^ 53 * 2 ^ k := mul_le_mul_of_nonneg_right hn (by positivity)
      _ = 2 ^ 52 * 2 ^ (k + 1) := by
        rw [zpow_add_one₀ (by norm_num)]
        ring
      _ ≤ r * 2 ^ t := mul_le_mul (by exact_mod_cast hnormal)
          (zpow_le_zpow_right₀ (by norm_num) (by omega)) (by positivity) (by positivity)

/-- A number that is not above a double is not rounded above it, for the same reason. -/
theorem RoundsTo.le (h : RoundsTo q p) {n : ℕ} {k : ℤ} (hn : n < 2 ^ 53) (hk : -1074 ≤ k)
    (hq : q ≤ n * 2 ^ k) : p ≤ n * 2 ^ k := by
  obtain ⟨t, r, hlast, hr, hp⟩ := h
  rw [hp]
  refine (min_le_left _ _).trans ?_
  have hpos : (0 : ℚ) < 2 ^ t := by positivity
  have hkpos : (0 : ℚ) < 2 ^ k := by positivity
  have hn : (n : ℚ) < 2 ^ 53 := by exact_mod_cast hn
  rcases le_or_gt t k with hle | hlt
  -- The double is a multiple of the last place.
  · have hmultiple : (n : ℚ) * 2 ^ k = ((n * 2 ^ (k - t).toNat : ℕ) : ℚ) * 2 ^ t := by
      push_cast
      rw [mul_assoc, ← zpow_natCast, ← zpow_add₀ (by norm_num)]
      congr 2
      omega
    rw [hmultiple] at hq ⊢
    have hle := hr.mono (NearestEven.self _) ((div_le_iff₀ hpos).2 hq)
    exact mul_le_mul_of_nonneg_right (by exact_mod_cast hle) hpos.le
  · -- The double would have a larger last place than it has.
    have hnormal := hlast.normal.resolve_right (by omega)
    have hlarge : (2 : ℚ) ^ (52 + t) ≤ n * 2 ^ k := hnormal.trans hq
    have hsmall : (n : ℚ) * 2 ^ k < 2 ^ (53 + k) := by
      rw [zpow_add₀ (by norm_num)]
      exact mul_lt_mul_of_pos_right (by exact_mod_cast hn) hkpos
    have hexponent : (2 : ℚ) ^ (53 + k) ≤ 2 ^ (52 + t) :=
      zpow_le_zpow_right₀ (by norm_num) (by omega)
    linarith

/-- A number beyond the middle between a multiple of the smallest double and the next is not rounded
to the one below. -/
theorem RoundsTo.ge_of_half_lt (h : RoundsTo q p) {n : ℕ} (hn : n + 1 < 2 ^ 53)
    (hq : (n + 1 / 2) * 2 ^ (-1074 : ℤ) < q) : ((n + 1 : ℕ) : ℚ) * 2 ^ (-1074 : ℤ) ≤ p := by
  obtain ⟨t, r, hlast, hr, hp⟩ := h
  have hpos : (0 : ℚ) < 2 ^ t := by positivity
  have hfinite : ((n + 1 : ℕ) : ℚ) * 2 ^ (-1074 : ℤ) ≤ overflow :=
    (Canonical.mul_smallest_lt hn).le
  rw [hp]
  refine le_min ?_ hfinite
  -- The last place is the smallest one, or the number is so large that all it can be rounded to is
  -- above.
  rcases hlast.le.eq_or_lt with rfl | hlt
  · have hlow := (lt_div_iff₀ hpos).2 hq
    have hcast : (n : ℚ) < r := by linarith [hr.high]
    have hle : n < r := by exact_mod_cast hcast
    exact mul_le_mul_of_nonneg_right (by exact_mod_cast hle) hpos.le
  · have hnormal := (hlast.bits hr).2.resolve_right hlt.ne'
    have hn : ((n + 1 : ℕ) : ℚ) ≤ 2 ^ 53 := by exact_mod_cast hn.le
    calc ((n + 1 : ℕ) : ℚ) * 2 ^ (-1074 : ℤ) ≤ 2 ^ 53 * 2 ^ (-1074 : ℤ) :=
          mul_le_mul_of_nonneg_right hn (by positivity)
      _ = 2 ^ 52 * 2 ^ (-1074 + 1 : ℤ) := by
        rw [zpow_add_one₀ (by norm_num)]
        ring
      _ ≤ r * 2 ^ t := mul_le_mul (by exact_mod_cast hnormal)
          (zpow_le_zpow_right₀ (by norm_num) (by omega)) (by positivity) (by positivity)

/-- A number before the middle is not rounded to the one above. It is so small that its last place
is the smallest one. -/
theorem RoundsTo.le_of_lt_half (h : RoundsTo q p) {n : ℕ} (hn : n < 2 ^ 52)
    (hq : q < (n + 1 / 2) * 2 ^ (-1074 : ℤ)) : p ≤ n * 2 ^ (-1074 : ℤ) := by
  obtain ⟨t, r, hlast, hr, hp⟩ := h
  rw [hp]
  refine (min_le_left _ _).trans ?_
  -- The number is so small that it has the smallest last place.
  have ht : t = -1074 := by
    refine hlast.normal.resolve_left fun hlow => ?_
    have hn : (n : ℚ) + 1 ≤ 2 ^ 52 := by exact_mod_cast hn
    have hsmall : q < 2 ^ (52 + -1074 : ℤ) := by
      refine hq.trans_le ?_
      rw [zpow_add₀ (by norm_num)]
      refine mul_le_mul_of_nonneg_right ?_ (by positivity)
      rw [← zpow_natCast] at hn
      exact le_trans (by linarith) hn
    have hexponent : (2 : ℚ) ^ (52 + -1074 : ℤ) ≤ 2 ^ (52 + t) :=
      zpow_le_zpow_right₀ (by norm_num) (Int.add_le_add_left hlast.le 52)
    linarith
  subst ht
  have hpos : (0 : ℚ) < 2 ^ (-1074 : ℤ) := by positivity
  have hhigh := (div_lt_iff₀ hpos).2 hq
  have hcast : (r : ℚ) < n + 1 := by linarith [hr.low]
  have hle : r < n + 1 := by exact_mod_cast hcast
  exact mul_le_mul_of_nonneg_right (by exact_mod_cast Nat.lt_succ_iff.1 hle) hpos.le

end Quotients

end UnitPlane.Double
