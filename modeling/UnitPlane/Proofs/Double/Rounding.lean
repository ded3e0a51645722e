import UnitPlane.Proofs.Double.Canonical

/-!
# `UnitPlane.Proofs.Double.Rounding`: rounding to the nearest double

Arithmetic computes a mantissa, an exponent and how the exact result lies above them, and shifts the
mantissa to the exponent of the result. Two bits, the round bit and the sticky bit, keep what is
shifted out, so that the mantissa with the bits stands for the exact result all the way: `StandsFor`
says so, and a shift by one place halves what it stands for. What it stands for is then rounded to
the nearest integer, a half to the even one.

* `Nearest q m e`: the double `m · 2 ^ e` is the one that the rational `q` rounds to.
* `roundWithAccuracy_eq`: rounding gives this double.
-/

set_option autoImplicit false

namespace UnitPlane.Double

open Float.Model Float.Model.UnpackedFloat

/-! ### Round and sticky bits -/

/-- The mantissa with its two bits stands for `z`: the round bit for a half, and the sticky bit for
a remainder below a half. -/
def StandsFor (em : ExtendedMantissa) (z : ℚ) : Prop :=
  ∃ δ : ℚ, 0 ≤ δ ∧ δ < 1 / 2 ∧ (em.stickyBit = true ↔ 0 < δ) ∧
    z = em.mantissa + (if em.roundBit = true then 1 / 2 else 0) + δ

/-- A mantissa that nothing was shifted out of stands for itself: neither bit is set, and there is
no remainder. -/
theorem standsFor_exact (m : ℕ) :
    StandsFor (.ofMantissaAndAccuracy m .exact) m := by
  refine ⟨0, le_refl 0, by norm_num, ?_, ?_⟩
  · simp [ExtendedMantissa.ofMantissaAndAccuracy]
  · simp [ExtendedMantissa.ofMantissaAndAccuracy]

/-- The accuracy of a fraction says how the fraction lies above a whole number, compared with a
half. Its two bits are then enough to stand for the number with the fraction. -/
theorem standsFor_accuracyOfFraction (m : ℕ) {num den : ℕ} (h : num < den) :
    StandsFor (.ofMantissaAndAccuracy m (accuracyOfFraction num den)) (m + num / den) := by
  have hden : (0 : ℚ) < den := by exact_mod_cast Nat.zero_lt_of_lt h
  have hlt : (num : ℚ) < den := by exact_mod_cast h
  unfold accuracyOfFraction
  by_cases h0 : num = 0
  · rw [if_pos h0, h0]
    simpa using standsFor_exact m
  · have hpos : (0 : ℚ) < num := by exact_mod_cast Nat.pos_of_ne_zero h0
    rw [if_neg h0]
    -- The remainder below a half is the fraction itself, nothing, or what it exceeds a half by.
    rcases lt_trichotomy (2 * num) den with hcmp | hcmp | hcmp
    · rw [Nat.compare_eq_lt.2 hcmp]
      have hhalf : (2 : ℚ) * num < den := by exact_mod_cast hcmp
      have hquotient : (num : ℚ) / den < 1 / 2 := by
        rw [div_lt_div_iff₀ hden (by norm_num)]
        linarith
      refine ⟨num / den, by positivity, hquotient, ?_, ?_⟩
      · simp [ExtendedMantissa.ofMantissaAndAccuracy, div_pos hpos hden]
      · simp [ExtendedMantissa.ofMantissaAndAccuracy]
    · rw [Nat.compare_eq_eq.2 hcmp]
      have hhalf : (2 : ℚ) * num = den := by exact_mod_cast hcmp
      have hquotient : (num : ℚ) / den = 1 / 2 := by
        rw [div_eq_div_iff hden.ne' (by norm_num)]
        linarith
      refine ⟨0, le_refl 0, by norm_num, ?_, ?_⟩
      · simp [ExtendedMantissa.ofMantissaAndAccuracy]
      · simp [ExtendedMantissa.ofMantissaAndAccuracy, hquotient]
    · rw [Nat.compare_eq_gt.2 hcmp]
      have hhalf : (den : ℚ) < 2 * num := by exact_mod_cast hcmp
      have hlow : 1 / 2 < (num : ℚ) / den := by
        rw [div_lt_div_iff₀ (by norm_num) hden]
        linarith
      have hhigh : (num : ℚ) / den < 1 := (div_lt_one hden).2 hlt
      refine ⟨num / den - 1 / 2, by linarith, by linarith, ?_, ?_⟩
      · simp only [ExtendedMantissa.ofMantissaAndAccuracy, true_iff]
        linarith
      · simp only [ExtendedMantissa.ofMantissaAndAccuracy, if_true]
        ring

/-- A shift by one place halves what it stands for. The bit that is shifted out becomes the round
bit, and the old round bit goes into the sticky bit. -/
theorem StandsFor.shiftRightOne {em : ExtendedMantissa} {z : ℚ} (h : StandsFor em z) :
    StandsFor em.shiftRightOne (z / 2) := by
  obtain ⟨δ, h0, hhalf, hsticky, rfl⟩ := h
  obtain ⟨m, r, s⟩ := em
  have hm : (m : ℚ) = 2 * (m / 2 : ℕ) + (m % 2 : ℕ) := by
    exact_mod_cast (Nat.div_add_mod m 2).symm
  simp only at hsticky ⊢
  -- The new remainder is made up of the old round bit and the old remainder.
  refine ⟨(if r = true then 1 / 2 else 0) / 2 + δ / 2, ?_, ?_, ?_, ?_⟩
  · cases r <;> simp <;> linarith
  · cases r <;> simp <;> linarith
  · simp only [ExtendedMantissa.shiftRightOne, Bool.or_eq_true, hsticky]
    cases r with
    | false => simp
    | true => simp; linarith
  · simp only [ExtendedMantissa.shiftRightOne, bne_iff_ne]
    rcases Nat.mod_two_eq_zero_or_one m with hmod | hmod
    · rw [hmod] at hm ⊢
      rw [hm]
      simp
      ring
    · rw [hmod] at hm ⊢
      rw [hm]
      simp
      ring

/-- A shift by several places is as many shifts by one, so it divides what it stands for by a power
of two. -/
theorem StandsFor.shiftRight {em : ExtendedMantissa} {z : ℚ} (h : StandsFor em z) (n : ℕ) :
    StandsFor (em >>> n) (z / 2 ^ n) := by
  induction n with
  | zero =>
    rw [pow_zero, div_one]
    exact h
  | succ n ih =>
    rw [pow_succ, ← div_div]
    exact ih.shiftRightOne

/-! ### The nearest integer -/

/-- The integer `n` is nearest to `z`, and even if another is as near. The third field is what a tie
would break: an odd integer is strictly nearer than its neighbours. -/
structure NearestEven (z : ℚ) (n : ℕ) : Prop where
  low : n - 1 / 2 ≤ z
  high : z ≤ n + 1 / 2
  strict : n % 2 = 1 → n - 1 / 2 < z ∧ z < n + 1 / 2

/-- There is only one such integer: of two neighbours one is odd. -/
theorem NearestEven.unique {z : ℚ} {n n' : ℕ} (h : NearestEven z n) (h' : NearestEven z n') :
    n = n' := by
  -- Two integers that far from `z` at most are neighbours with `z` half-way, so both would be even.
  have key {a b : ℕ} (ha : NearestEven z a) (hb : NearestEven z b) : ¬ a < b := by
    intro hlt
    have hle : (a : ℚ) + 1 ≤ b := by exact_mod_cast hlt
    have hz : z = a + 1 / 2 := by linarith [ha.high, hb.low]
    have hb' : (b : ℚ) = a + 1 := by linarith [ha.high, hb.low]
    have hsucc : b = a + 1 := by exact_mod_cast hb'
    rcases Nat.mod_two_eq_zero_or_one a with hmod | hmod
    · have := (hb.strict (by omega)).1
      linarith
    · have := (ha.strict hmod).2
      linarith
  have h1 := key h h'
  have h2 := key h' h
  omega

/-- The bits are enough to round what they stand for. Whatever the remainder is, only whether there
is one counts beside the round bit. -/
theorem StandsFor.nearestEven {em : ExtendedMantissa} {z : ℚ} (h : StandsFor em z) :
    NearestEven z em.roundedMantissa := by
  obtain ⟨δ, h0, hhalf, hsticky, rfl⟩ := h
  obtain ⟨m, r, s⟩ := em
  simp only at hsticky ⊢
  unfold ExtendedMantissa.roundedMantissa
  -- Only a round bit without a sticky bit is a tie, and there the last bit of the mantissa decides.
  cases r with
  | false =>
    have hround : (ExtendedMantissa.accuracy ⟨m, false, s⟩).roundToNearestEven m = m := by
      cases s <;> rfl
    rw [hround, if_neg (by decide)]
    exact ⟨by linarith, by linarith, fun _ => ⟨by linarith, by linarith⟩⟩
  | true =>
    rw [if_pos rfl]
    cases s with
    | true =>
      have hpos : 0 < δ := hsticky.1 rfl
      show NearestEven _ (m + 1)
      refine ⟨?_, ?_, fun _ => ⟨?_, ?_⟩⟩ <;> push_cast <;> linarith
    | false =>
      -- Without the sticky bit nothing lies above the half.
      have hzero : δ = 0 := by
        refine le_antisymm (not_lt.1 fun hpos => ?_) h0
        exact absurd (hsticky.2 hpos) (by decide)
      subst hzero
      show NearestEven _ (m + m % 2)
      rcases Nat.mod_two_eq_zero_or_one m with hmod | hmod
      · rw [hmod]
        refine ⟨?_, ?_, fun hodd => ?_⟩
        · push_cast
          linarith
        · push_cast
          linarith
        · omega
      · rw [hmod]
        refine ⟨?_, ?_, fun hodd => ?_⟩
        · push_cast
          linarith
        · push_cast
          linarith
        · omega

/-! ### The nearest double -/

/-- How far below a double the numbers that round to it reach, in units of its last place: half a
unit, but a quarter below a power of two, where the next double is nearer. -/
def reach (m : ℕ) (e : ℤ) : ℚ := if m = 2 ^ 52 ∧ -1074 < e then 1 / 4 else 1 / 2

/-- The rational `q` rounds to the double `m · 2 ^ e`, a tie to the even mantissa. -/
structure Nearest (q : ℚ) (m : ℕ) (e : ℤ) : Prop where
  low : (m - reach m e) * 2 ^ e ≤ q
  high : q ≤ (m + 1 / 2) * 2 ^ e
  strict : m % 2 = 1 → (m - reach m e) * 2 ^ e < q ∧ q < (m + 1 / 2) * 2 ^ e

/-- No double reaches further below itself than half a unit. Where only this bound counts, powers of
two need no case of their own. -/
theorem reach_le (m : ℕ) (e : ℤ) : reach m e ≤ 1 / 2 := by
  unfold reach
  split <;> norm_num

/-- Every double reaches some way below itself, so numbers just below it round to it. -/
theorem reach_pos (m : ℕ) (e : ℤ) : 0 < reach m e := by
  unfold reach
  split <;> norm_num

/-- A double rounds to itself, since it is inside its own reach on either side. -/
theorem nearest_self (m : ℕ) (e : ℤ) : Nearest (m * 2 ^ e) m e := by
  have hpow : (0 : ℚ) < 2 ^ e := by positivity
  have hreach := reach_pos m e
  exact ⟨by nlinarith, by nlinarith, fun _ => ⟨by nlinarith, by nlinarith⟩⟩

/-! ### The target exponent -/

/-- The exponent that a mantissa and an exponent are shifted to: that of a number with 53 bits, or
the smallest one for numbers that are smaller than that. -/
def target (m : ℕ) (x : ℤ) : ℤ := max (m.log2 + x - 52) (-1074)

/-- The target exponent of the arithmetic, which it computes from the place of the first bit, is the
one that is defined here. -/
theorem targetExponent_eq (m : ℕ) (x : ℤ) :
    Format.binary64.targetExponent (totalExponent m x) = target m x := by
  show max ((m.log2 : ℤ) + 1 + x - 53) (-1074) = _
  unfold target
  congr 1
  omega

/-- Shifting to the target exponent is one shift to the right by the difference, if the exponent is
not above the target. -/
theorem shiftToTargetExponent_eq {m : ℕ} {x : ℤ} (acc : Accuracy) (hx : x ≤ target m x) :
    shiftToTargetExponent Format.binary64 m x acc =
      (ExtendedMantissa.ofMantissaAndAccuracy m acc >>> (target m x - x).toNat, target m x) := by
  unfold shiftToTargetExponent shiftToExponent
  rw [targetExponent_eq]
  exact Prod.ext rfl (show x + ((target m x - x).toNat : ℤ) = target m x by omega)

/-- Canonical parts are not shifted. They have 53 bits, or the smallest exponent, as the target
has. -/
theorem Canonical.target_eq {m : ℕ} {e : ℤ} (h : Canonical m e) : target m e = e := by
  have hlow := h.le_exponent
  unfold target
  rcases h.normal with hm | rfl
  · have hlog : m.log2 = 52 := (Nat.log2_eq_iff (Nat.ne_of_gt h.pos)).2 ⟨hm, h.lt⟩
    rw [hlog]
    omega
  · have hlog : m.log2 < 53 := (Nat.log2_lt (Nat.ne_of_gt h.pos)).2 h.lt
    omega

section Target

variable {M m : ℕ} {x e : ℤ} {z : ℚ}

/-- What a mantissa stands for lies between the mantissa and the next one: the round bit and the
remainder are less than a whole together. -/
theorem StandsFor.bounds {acc : Accuracy} (h : StandsFor (.ofMantissaAndAccuracy M acc) z) :
    (M : ℚ) ≤ z ∧ z < M + 1 := by
  obtain ⟨δ, h0, hhalf, -, rfl⟩ := h
  have hm : (ExtendedMantissa.ofMantissaAndAccuracy M acc).mantissa = M := by
    cases acc with
    | exact => rfl
    | inexact o => cases o <;> rfl
  rw [hm]
  split
  · exact ⟨by linarith, by linarith⟩
  · exact ⟨by linarith, by linarith⟩

/-- A mantissa with enough bits, or an exponent at the lower end, is only ever shifted to the
right. -/
theorem le_target (h : 2 ^ 52 ≤ M ∨ x ≤ -1074) : x ≤ target M x := by
  unfold target
  rcases h with hM | hx
  · have hlog : 52 ≤ M.log2 := (Nat.le_log2 (by omega)).2 hM
    omega
  · omega

/-- The exponent is never shifted beyond that of the nearest double. So rounding to the target never
drops more bits than the nearest double does. -/
theorem target_le (hM : (M : ℚ) ≤ z) (hc : Canonical m e) (hx : 2 ^ 52 ≤ M ∨ x ≤ -1074)
    (hn : Nearest (z * 2 ^ x) m e) : target M x ≤ e := by
  have hlow := hc.le_exponent
  unfold target
  -- Else the bits of `M` alone would put the result above every number that rounds to the double.
  refine max_le ?_ hlow
  rcases Nat.eq_zero_or_pos M with rfl | hpos
  · simp only [Nat.log2_zero]
    omega
  · have h2 : (2 : ℚ) ≠ 0 := by norm_num
    have hlog : (2 : ℚ) ^ (M.log2 : ℤ) ≤ M := by
      rw [zpow_natCast]
      exact_mod_cast Nat.log2_self_le (Nat.ne_of_gt hpos)
    have hm : (m : ℚ) + 1 / 2 < 2 ^ (53 : ℤ) := by
      have : (m : ℚ) + 1 ≤ 2 ^ 53 := by exact_mod_cast hc.lt
      norm_num at this ⊢
      linarith
    have hx2 : (0 : ℚ) < 2 ^ x := by positivity
    have he2 : (0 : ℚ) < 2 ^ e := by positivity
    have hlt : (2 : ℚ) ^ ((M.log2 : ℤ) + x) < 2 ^ (53 + e) := by
      calc (2 : ℚ) ^ ((M.log2 : ℤ) + x) = 2 ^ (M.log2 : ℤ) * 2 ^ x := zpow_add₀ h2 _ _
        _ ≤ z * 2 ^ x := by nlinarith
        _ ≤ (m + 1 / 2) * 2 ^ e := hn.high
        _ < 2 ^ (53 : ℤ) * 2 ^ e := by nlinarith
        _ = 2 ^ (53 + e) := (zpow_add₀ h2 _ _).symm
    -- Both sides are powers of two now, so it is their exponents that are compared.
    have := (zpow_lt_zpow_iff_right₀ (by norm_num)).1 hlt
    omega

/-- It stops below that of the nearest double only where the result is rounded up to a power of
two. -/
theorem eq_of_target_lt (hM : z < M + 1) (hc : Canonical m e) (hn : Nearest (z * 2 ^ x) m e)
    (hlt : target M x < e) : m = 2 ^ 52 ∧ e = target M x + 1 ∧ z * 2 ^ x < 2 ^ (52 + e) := by
  have h2 : (2 : ℚ) ≠ 0 := by norm_num
  have hx2 : (0 : ℚ) < 2 ^ x := by positivity
  have he2 : (0 : ℚ) < 2 ^ e := by positivity
  have hbound : (M.log2 : ℤ) + x - 52 ≤ target M x := le_max_left _ _
  have hlow : -1074 ≤ target M x := le_max_right _ _
  have hnormal : 2 ^ 52 ≤ m := hc.normal.resolve_right (by omega)
  have hlog : (M : ℚ) + 1 ≤ 2 ^ ((M.log2 : ℤ) + 1) := by
    have : M + 1 ≤ 2 ^ (M.log2 + 1) := Nat.lt_log2_self
    exact_mod_cast this
  have hupper : z * 2 ^ x < 2 ^ ((M.log2 : ℤ) + 1 + x) := by
    rw [zpow_add₀ h2]
    nlinarith
  have hq : z * 2 ^ x < 2 ^ (52 + e) :=
    lt_of_lt_of_le hupper (zpow_le_zpow_right₀ (by norm_num) (by omega))
  have hpow : (2 : ℚ) ^ (52 + e) = 2 ^ 52 * 2 ^ e := by
    rw [zpow_add₀ h2]
    norm_num
  -- A larger mantissa would keep the numbers that round to it above `2 ^ (52 + e)`.
  have hm : m = 2 ^ 52 := by
    by_contra hne
    have hgt : (2 : ℚ) ^ 52 + 1 ≤ m := by exact_mod_cast lt_of_le_of_ne hnormal (Ne.symm hne)
    have hreach := reach_le m e
    have := hn.low
    nlinarith
  -- What rounds to a power of two is more than half of it, so the exponents differ by one at most.
  have hexponent : (2 : ℚ) ^ (51 + e) < 2 ^ ((M.log2 : ℤ) + 1 + x) := by
    refine lt_of_le_of_lt ?_ hupper
    refine le_trans ?_ hn.low
    rw [zpow_add₀ h2, hm]
    have hreach := reach_le m e
    rw [hm] at hreach
    refine mul_le_mul_of_nonneg_right ?_ he2.le
    push_cast
    norm_num at hreach ⊢
    linarith
  have := (zpow_lt_zpow_iff_right₀ (by norm_num)).1 hexponent
  exact ⟨hm, by omega, hq⟩

end Target

/-! ### Rounding -/

/-- In units of the exponent of the double, what rounds to the double has its mantissa as the
nearest integer. This is the usual case, where the target is the exponent of the double. -/
theorem Nearest.nearestEven {m : ℕ} {e : ℤ} {q w : ℚ} (h : Nearest q m e) (hw : w * 2 ^ e = q) :
    NearestEven w m := by
  have he2 : (0 : ℚ) < 2 ^ e := by positivity
  have hreach := reach_le m e
  subst hw
  refine ⟨?_, le_of_mul_le_mul_right h.high he2, fun hodd => ⟨?_, ?_⟩⟩
  · have := le_of_mul_le_mul_right h.low he2
    linarith
  · have := lt_of_mul_lt_mul_right (h.strict hodd).1 he2.le
    linarith
  · exact lt_of_mul_lt_mul_right (h.strict hodd).2 he2.le

/-- What lies between the reach of a power of two and the power of two is rounded up to it. Here the
target is one below the exponent of the double, and the mantissa comes out as `2 ^ 53`. -/
theorem Nearest.nearestEven_below {e : ℤ} {q w : ℚ} (h : Nearest q (2 ^ 52) e) (he : -1074 < e)
    (hq : q < 2 ^ (52 + e)) (hw : w * 2 ^ (e - 1) = q) : NearestEven w (2 ^ 53) := by
  have h2 : (2 : ℚ) ≠ 0 := by norm_num
  have he2 : (0 : ℚ) < 2 ^ (e - 1) := by positivity
  have hsplit : (2 : ℚ) ^ e = 2 * 2 ^ (e - 1) := by
    rw [← zpow_one_add₀ h2]
    congr 1
    omega
  -- In the units of the smaller exponent the reach of a quarter becomes a half.
  have hlow : ((2 : ℚ) ^ 53 - 1 / 2) * 2 ^ (e - 1) ≤ w * 2 ^ (e - 1) := by
    have hlow := h.low
    rw [reach, if_pos ⟨rfl, he⟩, hsplit, ← hw] at hlow
    push_cast at hlow
    nlinarith
  have hhigh : w * 2 ^ (e - 1) < (2 : ℚ) ^ 53 * 2 ^ (e - 1) := by
    rw [zpow_add₀ h2, hsplit, ← hw] at hq
    norm_num at hq ⊢
    linarith
  have hlow := le_of_mul_le_mul_right hlow he2
  have hhigh := lt_of_mul_lt_mul_right hhigh he2.le
  refine ⟨?_, ?_, fun hodd => ?_⟩
  · push_cast
    exact hlow
  · push_cast
    linarith
  · exact absurd hodd (by decide)

/-- Rounding gives the nearest double. The mantissa with its accuracy stands for `z`, and the double
that `z` times the power of two rounds to is what comes out, with the sign that goes in. -/
theorem roundWithAccuracy_eq {s : Sign} {M m : ℕ} {x e : ℤ} {acc : Accuracy} {z : ℚ}
    (hz : StandsFor (.ofMantissaAndAccuracy M acc) z) (hx : 2 ^ 52 ≤ M ∨ x ≤ -1074)
    (hc : Canonical m e) (hn : Nearest (z * 2 ^ x) m e) :
    roundWithAccuracy Format.binary64 s M x acc = .finite s m e hc.pos := by
  have h2 : (2 : ℚ) ≠ 0 := by norm_num
  obtain ⟨hM, hM'⟩ := hz.bounds
  have hle := le_target hx
  have hshift := (hz.shiftRight (target M x - x).toNat).nearestEven
  -- The shift changes the units, not the number.
  have hunits : z / 2 ^ (target M x - x).toNat * 2 ^ target M x = z * 2 ^ x := by
    have hpow : (2 : ℚ) ^ target M x = 2 ^ (target M x - x).toNat * 2 ^ x := by
      rw [← zpow_natCast, ← zpow_add₀ h2]
      congr 1
      omega
    rw [hpow, ← mul_assoc, div_mul_cancel₀ z (by positivity)]
  unfold roundWithAccuracy
  rw [shiftToTargetExponent_eq acc hle]
  simp only
  rcases lt_or_eq_of_le (target_le hM hc hx hn) with hlt | heq
  · -- The mantissa is rounded up to a power of two, and shifted once more.
    obtain ⟨rfl, he, hq⟩ := eq_of_target_lt hM' hc hn hlt
    have hlow : -1074 ≤ target M x := le_max_right _ _
    have hround := hshift.unique (hn.nearestEven_below (by omega) hq
      (by rw [← hunits, show target M x = e - 1 by omega]))
    have htarget : target (2 ^ 53) (target M x) = e := by
      show max (((2 ^ 53 : ℕ).log2 : ℤ) + target M x - 52) (-1074) = e
      rw [Nat.log2_two_pow]
      omega
    rw [hround, shiftToTargetExponent_eq .exact (by omega), htarget,
      show (e - target M x).toNat = 1 by omega]
    rfl
  · -- The mantissa has the exponent of the double already, and the second shift moves nothing.
    have hround := hshift.unique (hn.nearestEven (by rw [← hunits, heq]))
    rw [hround, heq, shiftToTargetExponent_eq .exact (by rw [hc.target_eq]), hc.target_eq, sub_self]
    exact dif_neg (Nat.ne_of_gt hc.pos)

end UnitPlane.Double
