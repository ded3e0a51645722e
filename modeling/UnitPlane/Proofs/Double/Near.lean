import UnitPlane.Proofs.Double.Whole

/-!
# `UnitPlane.Proofs.Double.Near`: the integers near a double

A count of samples is an integer read off a double: the double itself where it is an integer, the
nearest integer, or the next one on the side of infinity. Where such an integer is not negative it
is a double in turn, so that comparing it with another double loses nothing.

* `ceiling?_eq`, `toInt?_eq_some_iff` and `near_of_nearest?_eq_some`: what the three integers are.
* `toRat?_ofNat_of_ceiling?` and `toRat?_ofNat_of_nearest?`: they are doubles.
-/

set_option autoImplicit false

namespace UnitPlane.Double

open Float.Model Float.Model.UnpackedFloat

/-! ### What they are -/

section Near

variable {x : Float} {m n : ℕ} {e k : ℤ}

/-- The value of a mantissa with an exponent below zero is a quotient by a power of two. The
integers next to it are then quotients of natural numbers. -/
theorem value_eq_div (he : ¬ 0 ≤ e) : (m * 2 ^ e : ℚ) = m / ((2 ^ (-e).toNat : ℕ) : ℚ) := by
  obtain ⟨i, rfl⟩ : ∃ i : ℕ, e = -i := ⟨(-e).toNat, by omega⟩
  rw [neg_neg, Int.toNat_natCast, zpow_neg, zpow_natCast, Nat.cast_pow, div_eq_mul_inv]
  rfl

/-- The value of a mantissa with an exponent of zero or more is a natural number. -/
theorem value_eq_mul (he : 0 ≤ e) : (m * 2 ^ e : ℚ) = ((m * 2 ^ e.toNat : ℕ) : ℚ) := by
  obtain ⟨i, rfl⟩ := Int.eq_ofNat_of_zero_le he
  rw [zpow_natCast, Int.toNat_natCast]
  push_cast
  rfl

/-- The integer part that is computed from a mantissa and an exponent is that of the number. -/
theorem floor_eq (m : ℕ) (e : ℤ) : Rounding.floor m e = ⌊(m * 2 ^ e : ℚ)⌋₊ := by
  unfold Rounding.floor
  split
  next he =>
    rw [value_eq_mul he, Nat.floor_natCast]
    rfl
  next he =>
    rw [value_eq_div he, Nat.floor_div_eq_div]
    rfl

/-- The next integer that is computed from a mantissa and an exponent is that of the number.
Rounding up a quotient is done by adding one less than the divisor first. -/
theorem ceiling_eq (m : ℕ) (e : ℤ) : Rounding.ceiling m e = ⌈(m * 2 ^ e : ℚ)⌉₊ := by
  unfold Rounding.ceiling
  -- With an exponent of at least zero the value is an integer, and otherwise an integer over a
  -- power of two.
  split
  next he =>
    rw [value_eq_mul he, Nat.ceil_natCast]
    rfl
  next he =>
    have hpos : 0 < 2 ^ (-e).toNat := Nat.two_pow_pos _
    have hpos' : (0 : ℚ) < ((2 ^ (-e).toNat : ℕ) : ℚ) := by exact_mod_cast hpos
    rw [value_eq_div he]
    refine eq_of_forall_ge_iff fun c => ?_
    rw [Nat.ceil_le, div_le_iff₀ hpos']
    show (m + (2 ^ (-e).toNat - 1)) / 2 ^ (-e).toNat ≤ c ↔ _
    rw [← Nat.add_sub_assoc hpos, ← Nat.ceilDiv_eq_add_pred_div,
      ceilDiv_le_iff_le_mul hpos, mul_comm]
    exact_mod_cast Iff.rfl

/-- The nearest integer is at most a half away, on either side. -/
theorem halfUp_bounds (m : ℕ) (e : ℤ) :
    (Rounding.halfUp m e : ℚ) - 1 / 2 ≤ m * 2 ^ e ∧
    (m * 2 ^ e : ℚ) ≤ Rounding.halfUp m e + 1 / 2 := by
  unfold Rounding.halfUp
  split
  next he =>
    rw [value_eq_mul he]
    show ((m * 2 ^ e.toNat : ℕ) : ℚ) - 1 / 2 ≤ _ ∧ _ ≤ ((m * 2 ^ e.toNat : ℕ) : ℚ) + 1 / 2
    constructor <;> linarith
  next he =>
    rw [value_eq_div he]
    show (((2 * m + 2 ^ (-e).toNat) / 2 ^ ((-e).toNat + 1) : ℕ) : ℚ) - 1 / 2 ≤ _ ∧
      _ ≤ (((2 * m + 2 ^ (-e).toNat) / 2 ^ ((-e).toNat + 1) : ℕ) : ℚ) + 1 / 2
    generalize (-e).toNat = i
    -- The quotient by twice the divisor, with the divisor added first, is off by less than itself.
    have hdiv := Nat.div_add_mod (2 * m + 2 ^ i) (2 ^ (i + 1))
    have hmod := Nat.mod_lt (2 * m + 2 ^ i) (Nat.two_pow_pos (i + 1))
    generalize (2 * m + 2 ^ i) / 2 ^ (i + 1) = c at hdiv ⊢
    generalize (2 * m + 2 ^ i) % 2 ^ (i + 1) = r at hdiv hmod
    rw [Nat.pow_succ] at hdiv hmod
    have hpos : (0 : ℚ) < ((2 ^ i : ℕ) : ℚ) := by exact_mod_cast Nat.two_pow_pos i
    have hdiv' : ((2 ^ i : ℕ) : ℚ) * 2 * c + r = 2 * m + ((2 ^ i : ℕ) : ℚ) := by exact_mod_cast hdiv
    have hmod' : (r : ℚ) < ((2 ^ i : ℕ) : ℚ) * 2 := by exact_mod_cast hmod
    have hr : (0 : ℚ) ≤ r := by positivity
    constructor
    · rw [le_div_iff₀ hpos]
      linarith
    · rw [div_le_iff₀ hpos]
      linarith

/-- The nearest integer is the integer part of what is half larger. So of two integers that are as
near the larger one is taken. -/
theorem halfUp_eq_floor (m : ℕ) (e : ℤ) : Rounding.halfUp m e = ⌊(m * 2 ^ e : ℚ) + 1 / 2⌋₊ := by
  unfold Rounding.halfUp
  split
  next he =>
    rw [value_eq_mul he]
    show m * 2 ^ e.toNat = _
    exact ((Nat.floor_eq_iff (by positivity)).2 ⟨by linarith, by linarith⟩).symm
  next he =>
    rw [value_eq_div he]
    show (2 * m + 2 ^ (-e).toNat) / 2 ^ ((-e).toNat + 1) = _
    generalize (-e).toNat = i
    have hpos : (0 : ℚ) < 2 ^ i := by positivity
    -- Half is added over a common denominator.
    have hquotient : (m : ℚ) / ((2 ^ i : ℕ) : ℚ) + 1 / 2 =
        ((2 * m + 2 ^ i : ℕ) : ℚ) / ((2 ^ (i + 1) : ℕ) : ℚ) := by
      push_cast
      rw [pow_succ]
      field_simp
    rw [hquotient, Nat.floor_div_eq_div]

/-- The integer next to a double on the side of infinity, if the double is finite. -/
theorem ceiling?_eq (x : Float) : Rounding.ceiling? x = (toRat? x).map Int.ceil := by
  unfold Rounding.ceiling? toRat? parts
  cases x.toModel.unpack with
  | notANumber | infinity s => rfl
  | zero s => exact congrArg some Int.ceil_zero.symm
  | finite s m e hm =>
    have hnonneg : (0 : ℚ) ≤ m * 2 ^ e := by positivity
    -- Below zero the next integer is the opposite of the integer part of the magnitude.
    cases s with
    | positive =>
      show some ((Rounding.ceiling m e : ℕ) : ℤ) = some ⌈(m * 2 ^ e : ℚ)⌉
      rw [ceiling_eq, Int.natCast_ceil_eq_ceil hnonneg]
    | negative =>
      show some (-((Rounding.floor m e : ℕ) : ℤ)) = some ⌈((Sign.negative.apply m : ℤ) : ℚ) * 2 ^ e⌉
      rw [apply_mul, floor_eq, Int.natCast_floor_eq_floor hnonneg]
      exact congrArg some Int.ceil_neg.symm

/-- The number of the negation is the opposite number. -/
theorem toRat?_neg (x : Float) : toRat? (-x) = (toRat? x).map Neg.neg := by
  unfold toRat?
  rw [parts_neg]
  cases parts x with
  | notANumber | infinity s => rfl
  | zero s => exact congrArg some neg_zero.symm
  | finite s m e hm =>
    show some ((((-s).apply m : ℤ) : ℚ) * 2 ^ e) = some (-(((s.apply m : ℤ) : ℚ) * 2 ^ e))
    rw [apply_mul, apply_mul]
    cases s with
    | positive => rfl
    | negative => exact congrArg some (neg_neg _).symm

/-- An integer is read off a double just when the double is that integer. It is found where the next
integers on both sides agree. -/
theorem toInt?_eq_some_iff : Rounding.toInt? x = some k ↔ toRat? x = some (k : ℚ) := by
  unfold Rounding.toInt?
  rw [ceiling?_eq, ceiling?_eq, toRat?_neg]
  cases toRat? x with
  | none => simp
  | some q =>
    show (if ⌈q⌉ = -⌈-q⌉ then some ⌈q⌉ else none) = some k ↔ some q = some (k : ℚ)
    -- The ceiling of the opposite is the opposite of the floor, and floor and ceiling agree just on
    -- the integers.
    rw [Int.ceil_neg, neg_neg, Option.some_inj]
    constructor
    · intro h
      split at h
      next heq =>
        cases h
        exact le_antisymm (Int.le_ceil q) (heq ▸ Int.floor_le q)
      next => cases h
    · rintro rfl
      rw [Int.ceil_intCast, Int.floor_intCast, if_pos rfl]

/-- The nearest integer is at most a half away, and only finite doubles have one. -/
theorem near_of_nearest?_eq_some (h : Rounding.nearest? x = some k) :
    ∃ q : ℚ, toRat? x = some q ∧ (k : ℚ) - 1 / 2 ≤ q ∧ q ≤ k + 1 / 2 := by
  unfold Rounding.nearest? at h
  unfold toRat? parts
  -- The magnitude is rounded, and the sign is put back.
  cases hx : x.toModel.unpack with
  | notANumber | infinity s =>
    rw [hx] at h
    cases h
  | zero s =>
    rw [hx] at h
    cases h
    exact ⟨0, rfl, by norm_num, by norm_num⟩
  | finite s m e hm =>
    rw [hx] at h
    have hbounds := halfUp_bounds m e
    refine ⟨_, rfl, ?_⟩
    rw [apply_mul]
    cases s with
    | positive =>
      cases h
      exact hbounds
    | negative =>
      cases h
      show ((-(Rounding.halfUp m e : ℤ) : ℤ) : ℚ) - 1 / 2 ≤ -(m * 2 ^ e) ∧ -(m * 2 ^ e : ℚ) ≤ _
      push_cast
      constructor <;> linarith

/-- Every finite double has a nearest integer. -/
theorem exists_nearest? {q : ℚ} (h : toRat? x = some q) : ∃ k, Rounding.nearest? x = some k := by
  unfold toRat? parts at h
  unfold Rounding.nearest?
  cases hx : x.toModel.unpack with
  | notANumber | infinity s =>
    rw [hx] at h
    cases h
  | zero s => exact ⟨0, rfl⟩
  | finite s m e hm => cases s <;> exact ⟨_, rfl⟩

/-- Of two integers as near to a double that is not negative the larger one is taken. -/
theorem nearest?_eq_floor {q : ℚ} (h : toRat? x = some q) (hq : 0 ≤ q) :
    Rounding.nearest? x = some ⌊q + 1 / 2⌋ := by
  unfold toRat? parts at h
  unfold Rounding.nearest?
  -- A negative number is excluded, so the magnitude is the number.
  cases hx : x.toModel.unpack with
  | notANumber | infinity s =>
    rw [hx] at h
    cases h
  | zero s =>
    rw [hx] at h
    cases h
    norm_num
  | finite s m e hm =>
    rw [hx] at h
    have hvalue := Option.some.inj h
    rw [apply_mul] at hvalue
    have hpos : (0 : ℚ) < m * 2 ^ e := mul_pos (by exact_mod_cast hm) (by positivity)
    cases s with
    | positive =>
      rw [← hvalue]
      show some ((Rounding.halfUp m e : ℕ) : ℤ) = some ⌊(m * 2 ^ e : ℚ) + 1 / 2⌋
      rw [halfUp_eq_floor, Int.natCast_floor_eq_floor (by positivity)]
    | negative =>
      have hneg : -(m * 2 ^ e : ℚ) = q := hvalue
      linarith

/-! ### They are doubles -/

/-- A whole number that is a double itself, or within one of a double with a fraction, is a double:
with a fraction it is below `2 ^ 53`. -/
theorem toRat?_ofNat_of_near {q : ℚ} (hq : toRat? x = some q) (hnear : (n : ℚ) ≤ q + 1)
    (hexact : ∀ k : ℤ, q = k → (n : ℤ) = k) : toRat? (Float.ofNat n) = some (n : ℚ) := by
  have hcx := canonicalParts_parts x
  unfold toRat? at hq
  cases hx : parts x with
  | notANumber | infinity s =>
    rw [hx] at hq
    cases hq
  | zero s =>
    rw [hx] at hq
    cases hq
    obtain rfl : n = 0 := by exact_mod_cast hexact 0 Int.cast_zero.symm
    exact toRat?_zero
  | finite s m e hm =>
    rw [hx] at hq hcx
    obtain rfl : _ = q := Option.some.inj hq
    rw [apply_mul] at hnear hexact
    have hpos := Canonical.value_pos hcx
    cases s with
    | negative =>
      have hlt : (n : ℚ) < 1 := lt_of_le_of_lt hnear (show -(m * 2 ^ e : ℚ) + 1 < 1 by linarith)
      obtain rfl : n = 0 := Nat.lt_one_iff.1 (by exact_mod_cast hlt)
      exact toRat?_zero
    | positive =>
      change (n : ℚ) ≤ m * 2 ^ e + 1 at hnear
      -- With an exponent of zero or more the double is an integer, below zero it is less than its
      -- mantissa.
      by_cases he : 0 ≤ e
      · have hn : (n : ℤ) = (m * 2 ^ e.toNat : ℕ) := hexact _ (value_eq_mul he)
        exact toRat?_ofNat_of_canonical hcx (by rw [value_eq_mul he, ← Int.natCast_inj.1 hn])
      · have hpow : (2 : ℚ) ^ e ≤ 1 := zpow_le_one_of_nonpos₀ (by norm_num) (by omega)
        have hm53 : (m : ℚ) + 1 ≤ 2 ^ 53 := by exact_mod_cast Canonical.lt hcx
        have hle : (m * 2 ^ e : ℚ) ≤ m := mul_le_of_le_one_right (Nat.cast_nonneg m) hpow
        have hn : (n : ℚ) ≤ 2 ^ 53 := by linarith
        exact toRat?_ofNat (by exact_mod_cast hn)

/-- The next integer to a double is a double, if it is a whole number. So no count of steps is
changed by being made a double. -/
theorem toRat?_ofNat_of_ceiling? (h : Rounding.ceiling? x = some (n : ℤ)) :
    toRat? (Float.ofNat n) = some (n : ℚ) := by
  rw [ceiling?_eq] at h
  obtain ⟨q, hq, hceil⟩ := Option.map_eq_some_iff.1 h
  refine toRat?_ofNat_of_near hq ?_ ?_
  · have hlt := Int.ceil_lt_add_one q
    rw [hceil] at hlt
    exact hlt.le
  · rintro k rfl
    rw [← hceil, Int.ceil_intCast]

/-- A double that is a whole number is the double of one. -/
theorem toRat?_ofNat_of_toRat? (h : toRat? x = some (n : ℚ)) :
    toRat? (Float.ofNat n) = some (n : ℚ) := by
  refine toRat?_ofNat_of_near h (by linarith) ?_
  intro k hk
  exact_mod_cast hk

/-- The nearest integer to a double is a double, if it is a whole number. -/
theorem toRat?_ofNat_of_nearest? (h : Rounding.nearest? x = some (n : ℤ)) :
    toRat? (Float.ofNat n) = some (n : ℚ) := by
  obtain ⟨q, hq, hlow, hhigh⟩ := near_of_nearest?_eq_some h
  rw [Int.cast_natCast] at hlow hhigh
  refine toRat?_ofNat_of_near hq (by linarith) ?_
  -- A double that is an integer has no other integer within a half of it.
  rintro k rfl
  have hle : (n : ℚ) < k + 1 := by linarith
  have hge : (k : ℚ) < n + 1 := by linarith
  have hle' : (n : ℤ) < k + 1 := by exact_mod_cast hle
  have hge' : k < (n : ℤ) + 1 := by exact_mod_cast hge
  omega

end Near

end UnitPlane.Double
