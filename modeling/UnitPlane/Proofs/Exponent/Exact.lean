import Mathlib.Data.Int.Cast.Field
import Mathlib.Data.Nat.Cast.Field
import Mathlib.Tactic.FieldSimp
import Mathlib.Tactic.Ring
import UnitPlane.Proofs.Exponent

/-!
# `UnitPlane.Proofs.Exponent.Exact`: sums and products are exact or absent

Sums, differences and products of exponents are computed with 32-bit numbers over a common
denominator, or after cancelling. Where all numbers on the way fit, the result is the sum,
difference or product of the rational numbers: `val_of_add?`, `val_of_sub?` and `val_of_mul?`.

A sum may be refused although it fits, but a sum of integers may not, and no product may: what is
left after cancelling is the product in lowest terms. These are `ofRat?` of the sum and of the
product.
-/

set_option autoImplicit false

namespace UnitPlane.Exponent

variable {a b c : Exponent}

/-- A check that lets a number pass returns this number and no other. -/
theorem eq_of_fit? {n m : ℤ} (h : fit? n = some m) : m = n := by
  unfold fit? at h
  split at h
  · exact (Option.some.inj h).symm
  · cases h

/-- An exponent stands for its numerator divided by its denominator. -/
theorem val_eq_div (e : Exponent) : e.val = e.num / e.den := (Rat.num_div_den e.val).symm

/-- A fraction that is there stands for its quotient, and its denominator was positive. -/
theorem val_of_ofFraction? {n d : ℤ} (h : ofFraction? n d = some c) : 0 < d ∧ c.val = n / d := by
  unfold ofFraction? at h
  split at h
  next hfits =>
    have hpos := hfits.2.2
    cases h
    refine ⟨hpos, ?_⟩
    show mkRat n d.toNat = n / d
    rw [Rat.mkRat_eq_div]
    congr 1
    exact_mod_cast Int.toNat_of_nonneg hpos.le
  · cases h

/-- The number as an exponent, if it fits. This is what an operation with nothing to refuse on the
way would give, and the operations are compared with it. -/
def ofRat? (q : ℚ) : Option Exponent :=
  if h : Fits32 q.num ∧ Fits32 q.den then some ⟨q, h.1, h.2⟩ else none

/-- The exponent of a number is the one that stands for it. There is at most one, because an
exponent is determined by its number. -/
theorem ofRat?_eq_some_iff {q : ℚ} : ofRat? q = some c ↔ c.val = q := by
  unfold ofRat?
  constructor
  · intro h
    split at h
    · cases h
      rfl
    · cases h
  · rintro rfl
    exact dif_pos ⟨c.num_fits, c.den_fits⟩

/-- A number has no exponent just when its numerator or its denominator, in lowest terms, does not
fit. -/
theorem ofRat?_eq_none_iff {q : ℚ} : ofRat? q = none ↔ ¬ (Fits32 q.num ∧ Fits32 q.den) := by
  simp [ofRat?]

/-- An integer has no exponent just when the integer itself does not fit, since its denominator is
one. -/
theorem ofRat?_intCast_eq_none_iff {n : ℤ} : ofRat? n = none ↔ ¬ Fits32 n := by
  rw [ofRat?_eq_none_iff, Rat.num_intCast, Rat.den_intCast, and_iff_left (by decide)]

/-- A fraction in lowest terms is the number. Checking both of its parts and then building the
fraction is the same as asking whether the number fits. -/
theorem ofFraction?_eq_ofRat? (q : ℚ) :
    (fit? q.num >>= fun n => fit? q.den >>= ofFraction? n) = ofRat? q := by
  by_cases hn : Fits32 q.num
  · by_cases hd : Fits32 q.den
    · obtain ⟨e, he, hval⟩ := ofFraction?_eq_some hn hd (by exact_mod_cast q.den_pos)
      rw [fit?_eq_some hn, fit?_eq_some hd]
      refine he.trans (ofRat?_eq_some_iff.2 ?_).symm
      rw [hval, Int.toNat_natCast, Rat.mkRat_self]
    · rw [ofRat?_eq_none_iff.2 fun h => hd h.2, fit?_eq_some hn, fit?, if_neg hd]
      rfl
  · rw [ofRat?_eq_none_iff.2 fun h => hn h.1, fit?, if_neg hn]
    rfl

/-! ### Sums and differences -/

/-- Over a common denominator the numerator is that of the same number. The integer division has no
remainder, because the common denominator is a multiple of the exponent's own. -/
theorem cast_ediv_den_mul_num {l : ℕ} (h : a.den ∣ l) :
    ((l / a.den * a.num : ℤ) : ℚ) = l * a.val := by
  obtain ⟨k, rfl⟩ := h
  have hden : (a.den : ℤ) ≠ 0 := by exact_mod_cast Nat.ne_of_gt a.den_pos
  have hden' : (a.den : ℚ) ≠ 0 := by exact_mod_cast hden
  rw [Nat.cast_mul, Int.mul_ediv_cancel_left _ hden, val_eq_div]
  push_cast
  field_simp

/-- A combination of numerators over the common denominator is that combination of the numbers. Sums
and differences are the combinations with the factors `1` and `-1`. -/
theorem val_of_overCommonDenominator? {combine : ℤ → ℤ → ℤ} {σ : ℤ}
    (hcombine : ∀ p q, combine p q = p + σ * q)
    (h : overCommonDenominator? combine a b = some c) : c.val = a.val + σ * b.val := by
  -- Every check on the way has passed, so each of its numbers is the one that was computed.
  unfold overCommonDenominator? at h
  obtain ⟨l, hl, h⟩ := Option.bind_eq_some_iff.1 h
  obtain ⟨p, hp, h⟩ := Option.bind_eq_some_iff.1 h
  obtain ⟨q, hq, h⟩ := Option.bind_eq_some_iff.1 h
  obtain ⟨n, hn, h⟩ := Option.bind_eq_some_iff.1 h
  obtain rfl := eq_of_fit? hl
  obtain rfl := eq_of_fit? hp
  obtain rfl := eq_of_fit? hq
  obtain rfl := eq_of_fit? hn
  obtain ⟨hpos, hval⟩ := val_of_ofFraction? h
  have hlcm : a.den / a.den.gcd b.den * b.den = a.den.lcm b.den :=
    Nat.div_mul_right_comm (Nat.gcd_dvd_left _ _) _
  rw [hlcm] at hval hpos
  have hne : ((a.den.lcm b.den : ℕ) : ℚ) ≠ 0 := by exact_mod_cast hpos.ne'
  rw [hval, hcombine, Int.cast_add, cast_ediv_den_mul_num (Nat.dvd_lcm_left _ _), Int.cast_mul,
    cast_ediv_den_mul_num (Nat.dvd_lcm_right _ _), Int.cast_natCast]
  field_simp

/-- A sum that is there is the sum of the numbers, exactly. -/
theorem val_of_add? (h : a.add? b = some c) : c.val = a.val + b.val := by
  have hval := val_of_overCommonDenominator? (σ := 1) (fun p q => by rw [Int.one_mul]) h
  rw [hval, Int.cast_one, one_mul]

/-- A difference that is there is the difference of the numbers, exactly. -/
theorem val_of_sub? (h : a.sub? b = some c) : c.val = a.val - b.val := by
  have hval := val_of_overCommonDenominator? (σ := -1) (fun p q => by omega) h
  rw [hval]
  push_cast
  ring

/-- On integers the denominators do not count, so only the sum or difference itself has to fit. -/
theorem overCommonDenominator?_of_integral {combine : ℤ → ℤ → ℤ} (ha : a.den = 1) (hb : b.den = 1) :
    overCommonDenominator? combine a b = ofRat? (combine a.num b.num : ℤ) := by
  rw [← ofFraction?_eq_ofRat?, Rat.num_intCast, Rat.den_intCast]
  unfold overCommonDenominator?
  simp [ha, hb, fit?_eq_some a.fits_num, fit?_eq_some b.fits_num, fit?_eq_some (n := 1) (by decide)]

/-- An exponent with the denominator one stands for its numerator. -/
theorem val_eq_num (ha : a.den = 1) : a.val = a.num := by
  rw [val_eq_div, ha, Nat.cast_one, div_one]

/-- The sum of two integers is there just when it fits. In between there is no number that is larger
than it or than the two. -/
theorem add?_of_integral (ha : a.den = 1) (hb : b.den = 1) : a.add? b = ofRat? (a.val + b.val) := by
  rw [add?, overCommonDenominator?_of_integral ha hb, val_eq_num ha, val_eq_num hb, Int.cast_add]

/-- The difference of two integers is there just when it fits, as for sums. -/
theorem sub?_of_integral (ha : a.den = 1) (hb : b.den = 1) : a.sub? b = ofRat? (a.val - b.val) := by
  rw [sub?, overCommonDenominator?_of_integral ha hb, val_eq_num ha, val_eq_num hb, Int.cast_sub]

/-! ### Products -/

/-- The numbers that are left after cancelling are those of the product in lowest terms. Nothing
more can be cancelled, since both factors were in lowest terms before. -/
theorem num_den_mul (a b : Exponent) :
    (a.val * b.val).num = a.num / a.num.natAbs.gcd b.den * (b.num / a.den.gcd b.num.natAbs) ∧
      (a.val * b.val).den = a.den / a.den.gcd b.num.natAbs * (b.den / a.num.natAbs.gcd b.den) := by
  have h : a.val * b.val = Rat.mul a.val b.val := rfl
  rw [h, Nat.gcd_comm a.den]
  unfold Rat.mul
  simp only [Int.divExact_eq_ediv, Nat.divExact_eq_div]
  exact ⟨rfl, rfl⟩

/-- A product is the product of the numbers, if that fits. Unlike a sum, it is never refused on the
way, because it is cancelled before it is multiplied. -/
theorem mul?_eq_ofRat? (a b : Exponent) : a.mul? b = ofRat? (a.val * b.val) := by
  obtain ⟨hnum, hden⟩ := num_den_mul a b
  rw [← ofFraction?_eq_ofRat?, hnum, hden]
  rfl

/-- A product that is there is the product of the numbers, exactly. -/
theorem val_of_mul? (h : a.mul? b = some c) : c.val = a.val * b.val := by
  rw [mul?_eq_ofRat?] at h
  exact ofRat?_eq_some_iff.1 h

end UnitPlane.Exponent
