import UnitPlane.Proofs.Double.Arithmetic

/-!
# `UnitPlane.Proofs.Double.Scientific`: doubles from decimal numbers

`Float.ofScientific` turns `d / 10 ^ k` into a double. Where both `d` and `10 ^ k` are doubles it
divides one by the other, and otherwise it divides the integers. Either way the result is the double
that the quotient rounds to: `ofScientific_eq`.

The first way rests on two facts. An integer below `2 ^ 53` is a double with nothing rounded
(`parts_toFloat`), and so are the powers of ten up to the twenty-second, because `10 ^ k` is `5 ^ k`
shifted and `5 ^ 22` has less than 53 bits (`parts_powerOfTen`). The second way also gives up early
on numbers that are too small to be doubles, and `le_log2_of_le_div` says that it does not do so for
a number that rounds to one.
-/

set_option autoImplicit false

namespace UnitPlane.Double

open Float.Model Float.Model.UnpackedFloat

/-! ### Whole numbers -/

/-- The mantissa of a whole number of at most 53 bits, shifted up to 53 bits. -/
def fullMantissa (n : ℕ) : ℕ := n * 2 ^ (52 - n.log2)

section FullMantissa

variable {n : ℕ}

/-- The shifted mantissa has exactly 53 bits. The shift is by as many places as the number has fewer
than that. -/
theorem le_fullMantissa (h0 : 0 < n) (h : n < 2 ^ 53) :
    2 ^ 52 ≤ fullMantissa n ∧ fullMantissa n < 2 ^ 53 := by
  have hlog : n.log2 < 53 := (Nat.log2_lt (Nat.ne_of_gt h0)).2 h
  have hlow : 2 ^ n.log2 ≤ n := Nat.log2_self_le (Nat.ne_of_gt h0)
  have hhigh : n < 2 ^ (n.log2 + 1) := Nat.lt_log2_self
  -- The shift makes up for the bits that are missing, so the two bounds of the logarithm become
  -- those of a full mantissa.
  have hpow : 2 ^ n.log2 * 2 ^ (52 - n.log2) = 2 ^ 52 := by
    rw [← Nat.pow_add]
    congr 1
    omega
  have hpos : 0 < 2 ^ (52 - n.log2) := Nat.two_pow_pos _
  unfold fullMantissa
  rw [Nat.pow_succ] at hhigh
  constructor
  · rw [← hpow]
    exact Nat.mul_le_mul_right _ hlow
  · have := Nat.mul_lt_mul_of_pos_right hhigh hpos
    rw [Nat.mul_right_comm, hpow] at this
    exact this

/-- The shifted mantissa of a positive number is positive, as the mantissas of doubles have to
be. -/
theorem fullMantissa_pos (h0 : 0 < n) : 0 < fullMantissa n :=
  Nat.mul_pos h0 (Nat.two_pow_pos _)

/-- With any exponent of the doubles, the shifted mantissa is that of one double: it has all of its
53 bits. -/
theorem canonical_fullMantissa (h0 : 0 < n) (h : n < 2 ^ 53) {e : ℤ} (hlow : -1074 ≤ e)
    (hhigh : e ≤ 971) : Canonical (fullMantissa n) e := by
  obtain ⟨h52, h53⟩ := le_fullMantissa h0 h
  exact ⟨by omega, h53, hlow, hhigh, .inl h52⟩

/-- The shift changes the units, not the number. The exponent of the unit is that of the number
times `2 ^ k`. -/
theorem fullMantissa_mul (h0 : 0 < n) (h : n < 2 ^ 53) (k : ℤ) :
    (fullMantissa n : ℚ) * 2 ^ ((n.log2 : ℤ) - 52 + k) = n * 2 ^ k := by
  have hlog : n.log2 < 53 := (Nat.log2_lt (Nat.ne_of_gt h0)).2 h
  have hpow : (2 : ℚ) ^ (52 - n.log2) * 2 ^ ((n.log2 : ℤ) - 52 + k) = 2 ^ k := by
    rw [← zpow_natCast, ← zpow_add₀ (by norm_num)]
    congr 1
    omega
  unfold fullMantissa
  push_cast
  rw [mul_assoc, hpow]

/-- A whole number of at most 53 bits is a double. The conversion from 64 bits shifts the number up
to 53 bits, which is exact, and rounds nothing. -/
theorem parts_toFloat (h0 : 0 < n) (h : n < 2 ^ 53) :
    parts n.toUInt64.toFloat =
      .finite .positive (fullMantissa n) ((n.log2 : ℤ) - 52) (fullMantissa_pos h0) := by
  have hlog : n.log2 < 53 := (Nat.log2_lt (Nat.ne_of_gt h0)).2 h
  have hc : Canonical (fullMantissa n) ((n.log2 : ℤ) - 52) :=
    canonical_fullMantissa h0 h (by omega) (by omega)
  have hnat : n.toUInt64.toNat = n := by
    exact (UInt64.toNat_ofNat').trans (Nat.mod_eq_of_lt (by omega))
  have htarget : (0 - target n 0).toNat = 52 - n.log2 := by
    unfold target
    omega
  have hdecrease : decreaseExponent n 0 (Format.binary64.targetExponent (totalExponent n 0))
      = (fullMantissa n, (n.log2 : ℤ) - 52) := by
    rw [targetExponent_eq]
    unfold decreaseExponent
    rw [htarget]
    exact Prod.ext (Nat.shiftLeft_eq _ _) (show (0 : ℤ) - (52 - n.log2 : ℕ) = _ by omega)
  -- The shift is exact, so rounding has nothing left to decide.
  have hround : UnpackedFloat.round Format.binary64 .positive n 0 =
      .finite .positive (fullMantissa n) ((n.log2 : ℤ) - 52) hc.pos := by
    unfold UnpackedFloat.round
    dsimp only
    rw [hdecrease]
    exact roundWithAccuracy_eq (standsFor_exact _) (.inl (le_fullMantissa h0 h).1) hc
      (nearest_self _ _)
  have hofNat : UnpackedFloat.ofUInt64 Format.binary64 n.toUInt64 =
      .finite .positive (fullMantissa n) ((n.log2 : ℤ) - 52) hc.pos := by
    show UnpackedFloat.normalize Format.binary64 (n.toUInt64.toNat : ℤ) 0 .positive = _
    rw [hnat]
    unfold UnpackedFloat.normalize
    rw [Int.compare_eq_gt.2 (by omega)]
    exact hround
  show parts (ofParts (UnpackedFloat.ofUInt64 Format.binary64 n.toUInt64)) = _
  rw [hofNat]
  exact parts_ofParts hc

end FullMantissa

/-! ### Powers of ten -/

/-- The powers of ten up to the twenty-second are doubles, because those of five have at most 53
bits. The table that the conversion looks them up in holds just these. -/
theorem exactlyRepresentablePowersOfTen_eq (k : Fin 23) :
    Float.exactlyRepresentablePowersOfTen[k] =
      ofParts (.finite .positive (fullMantissa (5 ^ k.val)) (((5 ^ k.val).log2 : ℤ) - 52 + k.val)
        (fullMantissa_pos (Nat.pow_pos (by decide)))) := by
  revert k
  decide

/-- The powers of five up to the twenty-second have at most 53 bits. The next power would have
54. -/
theorem five_pow_lt (k : Fin 23) : 5 ^ k.val < 2 ^ 53 :=
  lt_of_le_of_lt (Nat.pow_le_pow_right (by decide) (by omega : k.val ≤ 22)) (by decide)

/-- An entry of the table has the mantissa of the power of five, with as many more twos in the
exponent. -/
theorem parts_powerOfTen (k : Fin 23) :
    parts Float.exactlyRepresentablePowersOfTen[k] =
      .finite .positive (fullMantissa (5 ^ k.val)) (((5 ^ k.val).log2 : ℤ) - 52 + k.val)
        (fullMantissa_pos (Nat.pow_pos (by decide))) := by
  have hlog : (5 ^ k.val).log2 < 53 := (Nat.log2_lt (by positivity)).2 (five_pow_lt k)
  rw [exactlyRepresentablePowersOfTen_eq]
  exact parts_ofParts (canonical_fullMantissa (by positivity) (five_pow_lt k) (by omega) (by omega))

/-- An entry of the table is the power of ten, with nothing rounded: the power of five comes from
the mantissa, and that of two from the exponent. -/
theorem powerOfTen_eq (k : Fin 23) :
    (fullMantissa (5 ^ k.val) : ℚ) * 2 ^ (((5 ^ k.val).log2 : ℤ) - 52 + k.val) = 10 ^ k.val := by
  rw [fullMantissa_mul (by positivity) (five_pow_lt k), zpow_natCast]
  push_cast
  rw [← mul_pow]
  norm_num

/-! ### Decimal numbers -/

section Scientific

variable {d k m : ℕ} {e : ℤ}

/-- A quotient by a large power of ten is small. So one that is not too small bounds the power, at
three bits for each factor of ten. -/
theorem le_log2_of_le_div {b : ℕ} (h : (2 : ℚ) ^ (-(b : ℤ)) ≤ d / 10 ^ k) :
    3 * k ≤ d.log2 + b := by
  have hnat : 10 ^ k ≤ d * 2 ^ b := by
    rw [le_div_iff₀ (by positivity), zpow_neg, inv_mul_le_iff₀ (by positivity), zpow_natCast,
      mul_comm] at h
    exact_mod_cast h
  -- Ten is more than eight, so a power of ten has at least three bits for each digit.
  have hbits : 2 ^ (3 * k) < 2 ^ (d.log2 + 1 + b) := by
    calc 2 ^ (3 * k) = 8 ^ k := by rw [Nat.pow_mul]
      _ ≤ 10 ^ k := Nat.pow_le_pow_left (by decide) k
      _ ≤ d * 2 ^ b := hnat
      _ < 2 ^ (d.log2 + 1) * 2 ^ b :=
        Nat.mul_lt_mul_of_pos_right Nat.lt_log2_self (Nat.two_pow_pos _)
      _ = 2 ^ (d.log2 + 1 + b) := (Nat.pow_add _ _ _).symm
  have := (Nat.pow_lt_pow_iff_right (by decide)).1 hbits
  omega

/-- What rounds to a double is at least half the smallest one, since anything smaller goes to
zero. -/
theorem le_of_nearest {q : ℚ} (hc : Canonical m e) (hn : Nearest q m e) :
    (2 : ℚ) ^ (-(1075 : ℕ) : ℤ) ≤ q := by
  have hm : (1 : ℚ) ≤ m := by exact_mod_cast hc.pos
  have hsplit : (2 : ℚ) ^ (-1074 : ℤ) = 2 * 2 ^ (-(1075 : ℕ) : ℤ) := by
    rw [← zpow_one_add₀ (by norm_num)]
    norm_num
  have hle : (2 : ℚ) ^ (-1074 : ℤ) ≤ 2 ^ e := zpow_le_zpow_right₀ (by norm_num) hc.le_exponent
  have hreach := reach_le m e
  have hlow := hn.low
  have hpos : (0 : ℚ) < 2 ^ (-(1075 : ℕ) : ℤ) := by positivity
  nlinarith

/-- The integers multiplied or divided give the nearest double. This is the slow way, which is taken
where one of the two integers has more bits than a double. -/
theorem unpacked_ofScientific_eq (hd : 0 < d) (hc : Canonical m e) (hn : Nearest (d / 10 ^ k) m e) :
    UnpackedFloat.ofScientific Format.binary64 d (-(k : ℤ)) = .finite .positive m e hc.pos := by
  -- The early zero for very small quotients is not taken: it would need a larger `k` than this.
  have hk := le_log2_of_le_div (le_of_nearest hc hn)
  unfold UnpackedFloat.ofScientific
  rw [dif_neg (Nat.ne_of_gt hd), if_neg (by show ¬ -(k : ℤ) > 2 ^ 11; omega),
    if_neg (by show ¬ -(k : ℤ) < -(2 ^ 11 + d.log2 : ℤ); omega)]
  by_cases h0 : k = 0
  · subst h0
    have hshift : d <<< Format.binary64.mantissaBits = d * 2 ^ 53 := Nat.shiftLeft_eq _ _
    have hvalue : ((d <<< Format.binary64.mantissaBits : ℕ) : ℚ) *
        2 ^ (-(Format.binary64.mantissaBits : ℤ)) *
        (((10 ^ (-((0 : ℕ) : ℤ)).toNat : ℕ) : ℚ) * 2 ^ (0 : ℤ)) = d / 10 ^ 0 := by
      have hone : (2 : ℚ) ^ 53 * 2 ^ (-53 : ℤ) = 1 := by norm_num
      rw [hshift]
      push_cast
      show (d : ℚ) * 2 ^ 53 * 2 ^ (-53 : ℤ) * (10 ^ 0 * 2 ^ (0 : ℤ)) = _
      rw [mul_assoc (d : ℚ), hone, pow_zero, zpow_zero, mul_one, mul_one, mul_one, div_one]
    -- Without a power of ten the digits, shifted up by 53 bits, are multiplied by `10 ^ 0`.
    rw [if_pos (by omega)]
    exact unpacked_mul_eq (.inl (by rw [hshift]; show 2 ^ 52 ≤ d * 2 ^ 53 * 1; omega)) hc
      (by rw [hvalue]; exact hn)
  · rw [if_neg (by omega)]
    -- With a power of ten below, the two integers are divided.
    refine unpacked_div_eq hc ?_
    simpa using hn

/-- A decimal number without an exponent of its own gives the nearest double, whichever of the two
ways is taken. -/
theorem ofScientific_eq (hd : 0 < d) (hc : Canonical m e) (hn : Nearest (d / 10 ^ k) m e) :
    Float.ofScientific d (decide (0 < k)) k = ofParts (.finite .positive m e hc.pos) := by
  unfold Float.ofScientific
  split
  next hfast =>
    -- Both sides are doubles with their exact values, and one operation rounds their quotient.
    obtain ⟨hbits, hk⟩ := hfast
    have hx := parts_toFloat hd hbits
    have hy := parts_powerOfTen ⟨k, by omega⟩
    have hd2 := fullMantissa_mul hd hbits 0
    have hk2 := powerOfTen_eq ⟨k, by omega⟩
    rw [add_zero, zpow_zero, mul_one] at hd2
    by_cases h0 : k = 0
    · subst h0
      have hvalue : (fullMantissa d : ℚ) * 2 ^ ((d.log2 : ℤ) - 52) *
          (fullMantissa (5 ^ 0) * 2 ^ (((5 ^ 0).log2 : ℤ) - 52 + (0 : ℕ))) = d / 10 ^ 0 := by
        rw [hd2, hk2, pow_zero, mul_one, div_one]
      have hfull := (le_fullMantissa hd hbits).1
      have hone : 0 < fullMantissa (5 ^ 0) := fullMantissa_pos (by decide)
      exact mul_eq hx hy (.inl (le_trans hfull (Nat.le_mul_of_pos_right _ hone))) hc
        (by rw [hvalue]; exact hn)
    · have hvalue : (fullMantissa d : ℚ) * 2 ^ ((d.log2 : ℤ) - 52) /
          (fullMantissa (5 ^ k) * 2 ^ (((5 ^ k).log2 : ℤ) - 52 + k)) = d / 10 ^ k := by
        rw [hd2, hk2]
      rw [if_pos (decide_eq_true (by omega))]
      exact div_eq hx hy hc (by rw [hvalue]; exact hn)
  next hslow =>
    have hexponent : (if decide (0 < k) = true then Int.negOfNat k else Int.ofNat k) =
        -(k : ℤ) := by
      cases k <;> rfl
    rw [hexponent]
    exact congrArg ofParts (unpacked_ofScientific_eq hd hc hn)

end Scientific

end UnitPlane.Double
