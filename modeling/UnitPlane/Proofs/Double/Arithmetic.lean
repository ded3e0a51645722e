import UnitPlane.Proofs.Double.Rounding

/-!
# `UnitPlane.Proofs.Double.Arithmetic`: products and quotients of doubles

A product or quotient of finite doubles is the double that the exact result rounds to. The exact
product of two mantissas has enough bits by itself, and division first shifts the dividend far
enough. The operations then keep a mantissa and a note on how far the exact result is above it, and
`StandsFor` says that these two stand for the exact result. From there on rounding is the same for
both operations.

* `mul_eq` and `div_eq`: the product or quotient, if the double it rounds to is known.
* `neg_one_mul`: a product with minus one is a negation.
-/

set_option autoImplicit false

namespace UnitPlane.Double

open Float.Model Float.Model.UnpackedFloat

/-! ### Products -/

/-- The product of two finite numbers is rounded to the nearest double. The mantissas are multiplied
exactly, so the product has no bits that would have been lost before. -/
theorem unpacked_mul_eq {s s' : Sign} {m m' n : ℕ} {e e' k : ℤ} {hm : 0 < m} {hm' : 0 < m'}
    (hbits : 2 ^ 52 ≤ m * m' ∨ e + e' ≤ -1074) (hc : Canonical n k)
    (hn : Nearest (m * 2 ^ e * (m' * 2 ^ e')) n k) :
    UnpackedFloat.mul Format.binary64 (.finite s m e hm) (.finite s' m' e' hm') =
      .finite (s * s') n k hc.pos := by
  have hvalue : ((m * m' : ℕ) : ℚ) * 2 ^ (e + e') = m * 2 ^ e * (m' * 2 ^ e') := by
    rw [zpow_add₀ (by norm_num)]
    push_cast
    ring
  exact roundWithAccuracy_eq (standsFor_exact _) hbits hc (by rw [hvalue]; exact hn)

/-- The product of two finite doubles is the double that the exact product rounds to, with the
product of the signs. -/
theorem mul_eq {x y : Float} {s s' : Sign} {m m' n : ℕ} {e e' k : ℤ} {hm : 0 < m} {hm' : 0 < m'}
    (hx : parts x = .finite s m e hm) (hy : parts y = .finite s' m' e' hm')
    (hbits : 2 ^ 52 ≤ m * m' ∨ e + e' ≤ -1074) (hc : Canonical n k)
    (hn : Nearest (m * 2 ^ e * (m' * 2 ^ e')) n k) :
    x * y = ofParts (.finite (s * s') n k hc.pos) := by
  show ofParts (UnpackedFloat.mul Format.binary64 (parts x) (parts y)) = _
  rw [hx, hy, unpacked_mul_eq hbits hc hn]

/-- A product with minus one is a negation, for every double. So a tree with such a product and its
negated operand have the same value. -/
protected theorem neg_one_mul (x : Float) : -1 * x = -x := by
  have hneg : -x = ofParts (parts x).neg := rfl
  have hmul : -1 * x = ofParts (UnpackedFloat.mul Format.binary64 (parts (-1)) (parts x)) := rfl
  -- The special values are computed; a finite one is multiplied exactly, and rounds to itself.
  cases hx : parts x with
  | notANumber => rw [hneg, hmul, parts_neg_one, hx]; rfl
  | infinity s | zero s =>
    rw [hneg, hmul, parts_neg_one, hx]
    cases s <;> rfl
  | finite s m e hm =>
    have hc : Canonical m e := by
      have := canonicalParts_parts x
      rwa [hx] at this
    have hvalue : ((2 ^ 52 : ℕ) : ℚ) * 2 ^ (-52 : ℤ) * (m * 2 ^ e) = m * 2 ^ e := by
      norm_num
    rw [mul_eq parts_neg_one hx (.inl (by have := hc.pos; omega)) hc
      (by rw [hvalue]; exact nearest_self m e), hneg, hx]
    cases s <;> rfl

/-! ### Quotients -/

/-- The quotient of the mantissas stands for the exact quotient, and has enough bits. What is left
of the division is kept as a note on how far the quotient is below the exact one. -/
theorem standsFor_divCore (m m' : ℕ) (e e' : ℤ) (hm : 0 < m) (hm' : 0 < m') :
    let q := divCore Format.binary64 m e m' e'
    ∃ z, StandsFor (.ofMantissaAndAccuracy q.1 q.2.2) z ∧
      z * 2 ^ q.2.1 = m * 2 ^ e / (m' * 2 ^ e') ∧ (2 ^ 52 ≤ q.1 ∨ q.2.1 ≤ -1074) := by
  unfold divCore
  dsimp only
  have htarget : Format.binary64.targetExponent (totalExponent m e - totalExponent m' e')
      = max ((m.log2 : ℤ) + e - m'.log2 - e' - 53) (-1074) := by
    show max ((m.log2 : ℤ) + 1 + e - (m'.log2 + 1 + e') - 53) (-1074) = _
    congr 1
    omega
  rw [htarget]
  -- Which of the two bounds gives the exponent does not matter: the dividend is shifted by what the
  -- exponent is short of the difference.
  generalize hx : min (e - e') (max ((m.log2 : ℤ) + e - m'.log2 - e' - 53) (-1074)) = x
  generalize hshift : (e - e' - x).toNat = shift
  have hshift' : (shift : ℤ) = e - e' - x := by omega
  have hm2 : (0 : ℚ) < m' := by exact_mod_cast hm'
  refine ⟨(m <<< shift : ℕ) / m', ?_, ?_, ?_⟩
  · have hdivision : ((m <<< shift : ℕ) : ℚ) / m' =
        (m <<< shift / m' : ℕ) + ((m <<< shift % m' : ℕ) : ℚ) / m' := by
      rw [div_eq_iff hm2.ne', add_mul, div_mul_cancel₀ _ hm2.ne']
      exact_mod_cast (Nat.div_add_mod' (m <<< shift) m').symm
    rw [hdivision]
    exact standsFor_accuracyOfFraction _ (Nat.mod_lt _ hm')
  · have hpow : (2 : ℚ) ^ e = 2 ^ shift * 2 ^ x * 2 ^ e' := by
      rw [← zpow_natCast, ← zpow_add₀ (by norm_num), ← zpow_add₀ (by norm_num)]
      congr 1
      omega
    rw [Nat.shiftLeft_eq, hpow]
    push_cast
    field_simp
  · rcases le_or_gt x (-1074) with hlow | hlow
    · exact .inr hlow
    · -- Above the smallest exponent the shift was chosen to leave 53 bits.
      refine .inl ((Nat.le_div_iff_mul_le hm').2 ?_)
      have hbits : m'.log2 + 53 ≤ m.log2 + shift := by omega
      calc 2 ^ 52 * m' ≤ 2 ^ 52 * 2 ^ (m'.log2 + 1) :=
            Nat.mul_le_mul_left _ (Nat.le_of_lt Nat.lt_log2_self)
        _ = 2 ^ (m'.log2 + 53) := by rw [← Nat.pow_add]; congr 1; omega
        _ ≤ 2 ^ (m.log2 + shift) := Nat.pow_le_pow_right (by decide) hbits
        _ = 2 ^ m.log2 * 2 ^ shift := Nat.pow_add _ _ _
        _ ≤ m * 2 ^ shift := Nat.mul_le_mul_right _ (Nat.log2_self_le (Nat.ne_of_gt hm))
        _ = m <<< shift := (Nat.shiftLeft_eq _ _).symm

/-- The quotient of two finite numbers is rounded to the nearest double. -/
theorem unpacked_div_eq {s s' : Sign} {m m' n : ℕ} {e e' k : ℤ} {hm : 0 < m} {hm' : 0 < m'}
    (hc : Canonical n k) (hn : Nearest (m * 2 ^ e / (m' * 2 ^ e')) n k) :
    UnpackedFloat.div Format.binary64 (.finite s m e hm) (.finite s' m' e' hm') =
      .finite (s / s') n k hc.pos := by
  obtain ⟨z, hz, hvalue, hbits⟩ := standsFor_divCore m m' e e' hm hm'
  exact roundWithAccuracy_eq hz hbits hc (by rw [hvalue]; exact hn)

/-- The quotient of two finite doubles is the double that the exact quotient rounds to, with the
quotient of the signs. -/
theorem div_eq {x y : Float} {s s' : Sign} {m m' n : ℕ} {e e' k : ℤ} {hm : 0 < m} {hm' : 0 < m'}
    (hx : parts x = .finite s m e hm) (hy : parts y = .finite s' m' e' hm') (hc : Canonical n k)
    (hn : Nearest (m * 2 ^ e / (m' * 2 ^ e')) n k) :
    x / y = ofParts (.finite (s / s') n k hc.pos) := by
  show ofParts (UnpackedFloat.div Format.binary64 (parts x) (parts y)) = _
  rw [hx, hy, unpacked_div_eq hc hn]

end UnitPlane.Double
