import UnitPlane.Proofs.Decimal.Written
import UnitPlane.Proofs.Double.Scientific

/-!
# `UnitPlane.Proofs.Decimal.ReadBack`: the text of a double is read as the double

The shortest decimal of a double lies in the interval of the numbers that round to it, whichever
grid it is found on, because every point taken was compared with the ends of the interval first. The
comparisons are between natural numbers, and `nearest_of_roundsTo` says what they mean for the
rationals. Reading rounds, so `exists_numeral` follows: the text of a double is a numeral whose
value is the double.
-/

set_option autoImplicit false

namespace UnitPlane.Decimal

open Double Float.Model.UnpackedFloat

/-! ### The rounding interval -/

/-- A power with an integer exponent, cleared of its denominator: what is multiplied by is one where
the exponent is not negative. -/
theorem zpow_mul_pow_toNat {b : ℚ} (hb : b ≠ 0) (k : ℤ) : b ^ k * b ^ (-k).toNat = b ^ k.toNat := by
  rw [← zpow_natCast, ← zpow_natCast, ← zpow_add₀ hb]
  congr 1
  omega

section Interval

variable (m c : ℕ) (e k : ℤ)

/-- A point of the decimal grid in the common unit of both grids. -/
theorem mul_gridStep :
    ((c * gridStep k e : ℕ) : ℚ) = c * 10 ^ k * (10 ^ (-k).toNat * 2 ^ (-e).toNat) := by
  unfold gridStep
  simp only [Nat.pow_eq]
  push_cast
  rw [← zpow_mul_pow_toNat (by norm_num) k]
  ring

/-- A point of the binary grid in the common unit of both grids. -/
theorem mul_binaryStep :
    ((c * binaryStep k e : ℕ) : ℚ) = c * 2 ^ e * (10 ^ (-k).toNat * 2 ^ (-e).toNat) := by
  unfold binaryStep
  simp only [Nat.pow_eq]
  push_cast
  rw [← zpow_mul_pow_toNat (by norm_num) e]
  ring

/-- The ends of the interval are those of the numbers that round to the double, in quarters of its
last place. Quarters are needed below a power of two, where the interval is shorter. -/
theorem roundingInterval_eq {m : ℕ} (hm : 0 < m) :
    ((roundingInterval m e).1 : ℚ) = 4 * (m - reach m e) ∧
      ((roundingInterval m e).2 : ℚ) = 4 * (m + 1 / 2) := by
  unfold roundingInterval reach
  constructor
  · simp only
    -- At the start of a binade the doubles below are twice as close.
    by_cases h : m = binadeStart ∧ minExponent < e
    · rw [if_pos h, if_pos (show m = 2 ^ 52 ∧ -1074 < e from h), Nat.cast_sub (by omega)]
      push_cast
      ring
    · rw [if_neg h, if_neg (show ¬ (m = 2 ^ 52 ∧ -1074 < e) from h), Nat.cast_sub (by omega)]
      push_cast
      ring
  · push_cast
    ring

/-- What passes the comparisons rounds to the double. The comparisons are between natural numbers,
in a unit that clears all denominators. -/
theorem nearest_of_roundsTo {m c : ℕ} {e k : ℤ} (hm : 0 < m) (h : roundsTo m e c k = true) :
    Nearest (c * 10 ^ k) m e := by
  obtain ⟨hlow, hhigh⟩ := roundingInterval_eq e hm
  have hunit : (0 : ℚ) < 10 ^ (-k).toNat * 2 ^ (-(e - 2)).toNat := by positivity
  have hquarter : (4 : ℚ) * 2 ^ (e - 2) = 2 ^ e := by
    rw [zpow_sub₀ (by norm_num), show (2 : ℚ) ^ (2 : ℤ) = 4 by norm_num, mul_comm,
      div_mul_cancel₀ _ (by norm_num)]
  have hpoint := mul_gridStep c (e - 2) k
  have hbelow := mul_binaryStep (roundingInterval m e).1 (e - 2) k
  have habove := mul_binaryStep (roundingInterval m e).2 (e - 2) k
  -- The three natural numbers compared, each as a rational in the unit that clears both
  -- denominators.
  rw [hlow, show (4 : ℚ) * (m - reach m e) * 2 ^ (e - 2) = (m - reach m e) * 2 ^ e by
    rw [← hquarter]; ring] at hbelow
  rw [hhigh, show (4 : ℚ) * (m + 1 / 2) * 2 ^ (e - 2) = (m + 1 / 2) * 2 ^ e by
    rw [← hquarter]; ring] at habove
  unfold roundsTo at h
  dsimp only at h
  generalize c * gridStep k (e - 2) = point at h hpoint
  generalize (roundingInterval m e).1 * binaryStep k (e - 2) = below at h hbelow
  generalize (roundingInterval m e).2 * binaryStep k (e - 2) = above at h habove
  -- An even mantissa takes the ends of the interval in, as rounding to even does.
  split at h
  next heven =>
    obtain ⟨h1, h2⟩ := of_decide_eq_true h
    have h1 : (below : ℚ) ≤ point := by exact_mod_cast h1
    have h2 : (point : ℚ) ≤ above := by exact_mod_cast h2
    rw [hbelow, hpoint] at h1
    rw [hpoint, habove] at h2
    exact ⟨le_of_mul_le_mul_right h1 hunit, le_of_mul_le_mul_right h2 hunit, fun hodd => by omega⟩
  next hodd =>
    obtain ⟨h1, h2⟩ := of_decide_eq_true h
    have h1 : (below : ℚ) < point := by exact_mod_cast h1
    have h2 : (point : ℚ) < above := by exact_mod_cast h2
    rw [hbelow, hpoint] at h1
    rw [hpoint, habove] at h2
    have h1 := lt_of_mul_lt_mul_right h1 hunit.le
    have h2 := lt_of_mul_lt_mul_right h2 hunit.le
    exact ⟨h1.le, h2.le, fun _ => ⟨h1, h2⟩⟩

end Interval

/-! ### The shortest decimal -/

section Shortest

variable {tie : Tie} {m : ℕ} {e : ℤ}

/-- A point that is taken from a grid has passed the comparisons. Only the point below the double
and the next one are tried, since no other could be nearer. -/
theorem roundsTo_of_gridPoint? {k : ℤ} {c : ℕ} (h : gridPoint? tie m e k = some c) :
    roundsTo m e c k = true := by
  unfold gridPoint? at h
  dsimp only at h
  -- None, one or both of the two neighbours passed; a tie picks among those that did.
  split at h
  · cases h
  next hbelow habove =>
    cases h
    exact hbelow
  next hbelow habove =>
    cases h
    exact habove
  next hbelow habove =>
    have heither : c = 4 * m * binaryStep k (e - 2) / gridStep k (e - 2) ∨
        c = 4 * m * binaryStep k (e - 2) / gridStep k (e - 2) + 1 := by
      split at h
      · exact .inl (Option.some.inj h).symm
      · exact .inr (Option.some.inj h).symm
      · cases tie with
        | up => exact .inr (Option.some.inj h).symm
        | even =>
          have h := (Option.some.inj h).symm
          split at h
          · exact .inl h
          · exact .inr h
    rcases heither with rfl | rfl
    · exact hbelow
    · exact habove

/-- The exact decimal of a double, which the search falls back on, is the double itself. Each two in
the denominator becomes a five in the digits and a ten in the exponent. -/
theorem nearest_exact (m : ℕ) (e : ℤ) :
    Nearest ((exact m e).digits * 10 ^ (exact m e).exponent) m e := by
  -- A double is a decimal exactly: with a negative exponent, powers of five make up for those of
  -- two.
  have hvalue : ((exact m e).digits : ℚ) * 10 ^ (exact m e).exponent = m * 2 ^ e := by
    unfold exact
    split
    next he =>
      obtain ⟨n, rfl⟩ := Int.eq_ofNat_of_zero_le he
      simp
    next he =>
      obtain ⟨n, rfl⟩ : ∃ n : ℕ, e = -n := ⟨(-e).toNat, by omega⟩
      have hfive : (5 : ℚ) ^ n * 10 ^ (-(n : ℤ)) = 2 ^ (-(n : ℤ)) := by
        rw [zpow_neg, zpow_neg, zpow_natCast, zpow_natCast, show (10 : ℚ) = 5 * 2 by norm_num,
          mul_pow]
        field_simp
      dsimp only
      rw [neg_neg, Int.toNat_natCast, Nat.pow_eq]
      push_cast
      rw [mul_assoc, hfive]
  rw [hvalue]
  exact nearest_self m e

/-- Whatever grid the search stops at, the point taken rounds to the double. If it stops at none,
the exact decimal is taken. -/
theorem nearest_scan (hm : 0 < m) (k : ℤ) (grids : ℕ) :
    Nearest ((scan tie m e k grids).digits * 10 ^ (scan tie m e k grids).exponent) m e := by
  -- The grids get finer by one place each time; when they run out the exact decimal is taken.
  induction grids generalizing k with
  | zero => exact nearest_exact m e
  | succ grids ih =>
    rw [scan]
    split
    next c hc => exact nearest_of_roundsTo hm (roundsTo_of_gridPoint? hc)
    next => exact ih (k - 1)

/-- The shortest decimal of a double rounds to the double, whichever way ties are settled. -/
theorem nearest_shortest (tie : Tie) (hm : 0 < m) (e : ℤ) :
    Nearest ((shortest tie m e).digits * 10 ^ (shortest tie m e).exponent) m e :=
  nearest_scan hm _ _

end Shortest

/-! ### Texts -/

/-- The value of a written decimal is the double it rounds to. Zeros that are written to fill up
places are part of the digits then, and do not change the quotient. -/
theorem value_numeral {d : Scientific} {m : ℕ} {e : ℤ} (hc : Canonical m e)
    (hn : Nearest (d.digits * 10 ^ d.exponent) m e) :
    d.numeral.value = ofParts (.finite .positive m e hc.pos) := by
  obtain ⟨hdigits, hscale⟩ := d.digits_numeral
  -- Reading treats zero apart, but no decimal of a double above zero is zero.
  have hpos : 0 < d.digits := by
    refine Nat.pos_of_ne_zero fun h0 => ?_
    have hlow := le_of_nearest hc hn
    rw [h0, Nat.cast_zero, zero_mul] at hlow
    exact absurd hlow (not_le.2 (by positivity))
  have hvalue : ((d.digits * 10 ^ d.exponent.toNat : ℕ) : ℚ) / 10 ^ (min d.exponent 0).natAbs
      = d.digits * 10 ^ d.exponent := by
    have hexponent : (10 : ℚ) ^ d.exponent * 10 ^ (min d.exponent 0).natAbs
        = 10 ^ d.exponent.toNat := by
      rw [show (min d.exponent 0).natAbs = (-d.exponent).toNat by omega]
      exact zpow_mul_pow_toNat (by norm_num) _
    rw [div_eq_iff (by positivity), mul_assoc, hexponent]
    push_cast
    rfl
  unfold Numeral.value
  -- The reader is told by a flag whether to divide by the power of ten.
  rw [hdigits, hscale,
    show decide (min d.exponent 0 < 0) = decide (0 < (min d.exponent 0).natAbs) by
      rw [decide_eq_decide]; omega]
  exact ofScientific_eq (Nat.mul_pos hpos (by positivity)) hc (by rw [hvalue]; exact hn)

/-- The text of a double without a sign is a numeral, and its value is the double. The text has no
exponent, however large or small the double is. -/
theorem exists_numeral {v : Float} (h : Unsigned v) :
    ∃ n : Numeral, n.Positional ∧ plain.chars v = n.chars ∧ n.value = v := by
  -- Zero is written as a digit of its own, and every other double as its shortest decimal.
  rcases h with h | ⟨m, e, hm, h⟩
  · refine ⟨(⟨0, 0⟩ : Scientific).numeral, Scientific.positional_numeral _, ?_, ?_⟩
    · have hchars : plain.chars v = writePositional false ⟨0, 0⟩ := by
        unfold Spelling.chars
        rw [show v.toModel.unpack = _ from h]
        rfl
      rw [hchars, writePositional_eq]
    · rw [eq_of_parts_eq (h.trans parts_zero.symm)]
      decide
  · have hc : Canonical m e := by
      have := canonicalParts_parts v
      rwa [h] at this
    refine ⟨(shortest .up m e).numeral, Scientific.positional_numeral _, ?_, ?_⟩
    · have hchars : plain.chars v = writePositional false (shortest .up m e) := by
        unfold Spelling.chars
        rw [show v.toModel.unpack = _ from h]
        rfl
      rw [hchars, writePositional_eq]
    · rw [value_numeral hc (nearest_shortest .up hm e), ← h, ofParts_parts]

/-- The negative zero is written with a sign, as every negative number is. The sign is the only
thing in which the two zeros differ. -/
theorem chars_neg_zero : plain.chars (-0) = '-' :: plain.chars 0 := by
  unfold Spelling.chars
  rw [show (-0 : Float).toModel.unpack = _ from parts_neg_zero,
    show (0 : Float).toModel.unpack = _ from parts_zero]
  rfl

end UnitPlane.Decimal
