import UnitPlane.Proofs.Double.Negation
import UnitPlane.Proofs.Double.Reciprocal

/-!
# `UnitPlane.Proofs.Double.Rounded`: one rounding for each operation

A product, quotient or difference of finite doubles is the exact one, rounded once. `Rounds` says so
for numbers of either sign: the magnitude goes to the place that `RoundsTo` gives it, on the same
side of zero.

* `exists_rounds_mul`, `exists_rounds_div` and `exists_rounds_sub`: the three operations.
* `Rounds.mono`: rounding keeps the order, so that a quotient by a positive double grows with the
  dividend.
* `RoundsTo.eq_self` and `RoundsTo.abs_sub_le`: a number that is a double is not moved, and any
  other by half a unit of the last place at most.
* `place?_sub_of_close`: the difference of two doubles that are close to each other is exact.
-/

set_option autoImplicit false

namespace UnitPlane.Double

open Float.Model Float.Model.UnpackedFloat

/-! ### Rounding of magnitudes -/

section Magnitudes

variable {q q' p p' : ℚ} {m : ℕ} {e : ℤ}

/-- A magnitude is not rounded below zero, since the multiple and the place of infinity are both not
negative. -/
theorem RoundsTo.nonneg (h : RoundsTo q p) : 0 ≤ p := by
  obtain ⟨t, r, -, -, hp⟩ := h
  rw [hp]
  exact le_min (mul_nonneg r.cast_nonneg (by positivity)) overflow_pos.le

/-- Zero is rounded to zero, in the units of the smallest doubles. -/
theorem roundsTo_zero : RoundsTo 0 0 := by
  refine ⟨-1074, 0, ⟨le_rfl, by positivity, .inr rfl⟩, ?_, ?_⟩
  · rw [zero_div]
    exact_mod_cast NearestEven.self 0
  · rw [Nat.cast_zero, zero_mul, min_eq_left overflow_pos.le]

/-- A double has its own last place, and is rounded to itself. Its mantissa is the nearest integer
in these units, being one. -/
theorem Canonical.roundsTo_self (h : Canonical m e) : RoundsTo (m * 2 ^ e) (m * 2 ^ e) := by
  have hpos : (0 : ℚ) < 2 ^ e := by positivity
  refine ⟨e, m, ⟨h.le_exponent, ?_, ?_⟩, ?_, (min_eq_left h.value_lt.le).symm⟩
  · rw [zpow_add₀ (by norm_num)]
    exact mul_lt_mul_of_pos_right (by exact_mod_cast h.lt) hpos
  · refine h.normal.imp_left fun hm => ?_
    rw [zpow_add₀ (by norm_num)]
    exact mul_le_mul_of_nonneg_right (by exact_mod_cast hm) hpos.le
  · rw [mul_div_cancel_right₀ _ hpos.ne']
    exact .self m

/-- The larger number is not rounded to the smaller double. In one binade the nearest multiples are
in the order of the numbers, and between two binades there is a power of two. -/
theorem RoundsTo.mono (h : RoundsTo q p) (h' : RoundsTo q' p') (hq : q ≤ q') : p ≤ p' := by
  obtain ⟨t, r, hlast, hr, hp⟩ := h
  obtain ⟨t', r', hlast', hr', hp'⟩ := h'
  rw [hp, hp']
  refine min_le_min_right _ ?_
  -- The last places of the two numbers are compared.
  rcases lt_trichotomy t t' with hlt | rfl | hlt
  · -- A power of two lies between the numbers, and stays between the doubles.
    have hlow : 2 ^ 52 ≤ r' := (hlast'.bits hr').2.resolve_right (by have := hlast.le; omega)
    have hhigh : r ≤ 2 ^ 53 := (hlast.bits hr).1
    calc (r : ℚ) * 2 ^ t ≤ 2 ^ 53 * 2 ^ t :=
          mul_le_mul_of_nonneg_right (by exact_mod_cast hhigh) (by positivity)
      _ = 2 ^ 52 * 2 ^ (t + 1) := by
          rw [zpow_add_one₀ (by norm_num)]
          ring
      _ ≤ r' * 2 ^ t' := mul_le_mul (by exact_mod_cast hlow)
          (zpow_le_zpow_right₀ (by norm_num) (by omega)) (by positivity) (by positivity)
  · have hle : r ≤ r' := hr.mono hr' (div_le_div_of_nonneg_right hq (by positivity))
    exact mul_le_mul_of_nonneg_right (by exact_mod_cast hle) (by positivity)
  · -- The smaller number would have the larger last place.
    have hlow := hlast.normal.resolve_right (by have := hlast'.le; omega)
    have hexponent : (2 : ℚ) ^ (53 + t') ≤ 2 ^ (52 + t) :=
      zpow_le_zpow_right₀ (by norm_num) (by omega)
    exact absurd hq (not_le.2 (hlast'.lt.trans_le (hexponent.trans hlow)))

/-- What is a multiple of a power of two by a number of 53 bits is not moved. The number need not
have all 53 bits, so the power need not be the one of its last place. -/
theorem RoundsTo.eq_self (h : RoundsTo (m * 2 ^ e) p) (hm : m < 2 ^ 53) (he : -1074 ≤ e)
    (htop : (m * 2 ^ e : ℚ) ≤ overflow) : p = m * 2 ^ e := by
  have hge := h.ge hm he le_rfl
  rw [min_eq_left htop] at hge
  exact le_antisymm (h.le hm he le_rfl) hge

/-- What is at most half as large as it could be is not rounded to infinity, because the power of
two that it may reach is a double. -/
theorem RoundsTo.lt_overflow (h : RoundsTo q p) (hq : q ≤ 2 ^ 1023) : p < overflow := by
  have hc : Canonical (2 ^ 52) 971 := ⟨by norm_num, by norm_num, by norm_num, le_rfl, .inl le_rfl⟩
  have hvalue : (((2 ^ 52 : ℕ) : ℚ) * 2 ^ (971 : ℤ)) = 2 ^ 1023 := by
    rw [Nat.cast_pow, Nat.cast_ofNat, ← zpow_natCast, ← zpow_natCast, ← zpow_add₀ (by norm_num)]
    rfl
  rw [← hvalue] at hq
  exact lt_of_le_of_lt (h.le hc.lt hc.le_exponent hq) hc.value_lt

/-- Half of the smallest double is next to nothing, as the bound on what rounding moves a number by
shows for numbers near one. -/
theorem half_smallest_le : (2 : ℚ) ^ (-1075 : ℤ) ≤ 1 / 2 ^ 100 :=
  (zpow_le_zpow_right₀ one_le_two (show (-1075 : ℤ) ≤ -100 by norm_num)).trans (by norm_num)

/-- A number is moved by half a unit of its last place at most. In numbers of 53 bits that is a part
in `2 ^ 53`, and among the smallest it is half of the smallest one. -/
theorem RoundsTo.abs_sub_le (h : RoundsTo q p) (hq : 0 ≤ q) (hp : p < overflow) :
    |p - q| ≤ q / 2 ^ 53 + 2 ^ (-1075 : ℤ) := by
  obtain ⟨t, r, hlast, hr, hmin⟩ := h
  have hpos : (0 : ℚ) < 2 ^ t := by positivity
  rw [hmin] at hp ⊢
  rw [min_eq_left ((min_lt_iff.1 hp).resolve_right (lt_irrefl _)).le]
  have hunits : q = q / 2 ^ t * 2 ^ t := (div_mul_cancel₀ q hpos.ne').symm
  have hmoved : |(r : ℚ) * 2 ^ t - q| ≤ 2 ^ t / 2 := by
    have hlow := hr.low
    have hhigh := hr.high
    rw [abs_le]
    constructor <;> nlinarith
  -- A unit of the last place is a part of the number, or the smallest unit.
  have hlastPlace : (2 : ℚ) ^ t / 2 ≤ q / 2 ^ 53 + 2 ^ (-1075 : ℤ) := by
    rcases hlast.normal with hnormal | rfl
    · have hunit : (2 : ℚ) ^ t / 2 ≤ q / 2 ^ 53 := by
        rw [zpow_add₀ (by norm_num)] at hnormal
        norm_num at hnormal ⊢
        linarith
      exact hunit.trans (le_add_of_nonneg_right (by positivity))
    · have hhalf : (2 : ℚ) ^ (-1074 : ℤ) / 2 = 2 ^ (-1075 : ℤ) := by
        rw [show (-1074 : ℤ) = -1075 + 1 from rfl, zpow_add_one₀ (by norm_num)]
        ring
      rw [hhalf]
      exact le_add_of_nonneg_left (div_nonneg hq (by positivity))
  exact hmoved.trans hlastPlace

end Magnitudes

/-! ### Rounding of numbers of either sign -/

/-- The magnitude of the number is rounded, and keeps its side. At zero both cases say the same. -/
def Rounds (q p : ℚ) : Prop := 0 ≤ q ∧ RoundsTo q p ∨ q ≤ 0 ∧ RoundsTo (-q) (-p)

section Numbers

variable {q q' p p' : ℚ}

/-- Zero is rounded to zero, on either side. -/
theorem rounds_zero : Rounds 0 0 := .inl ⟨le_rfl, roundsTo_zero⟩

/-- A rounded magnitude with a sign is the number with this sign, rounded. -/
theorem RoundsTo.rounds_signed (h : RoundsTo q p) (hq : 0 ≤ q) (s : Sign) :
    Rounds (signed s q) (signed s p) := by
  cases s with
  | positive => exact .inl ⟨hq, h⟩
  | negative =>
    refine .inr ⟨neg_nonpos.2 hq, ?_⟩
    show RoundsTo (- -q) (- -p)
    rwa [neg_neg, neg_neg]

/-- The magnitude of a rounded number is the rounded magnitude of the number. -/
theorem Rounds.abs (h : Rounds q p) : RoundsTo |q| |p| := by
  rcases h with ⟨hq, h⟩ | ⟨hq, h⟩
  · rwa [abs_of_nonneg hq, abs_of_nonneg h.nonneg]
  · rwa [abs_of_nonpos hq, abs_of_nonpos (neg_nonneg.1 h.nonneg)]

/-- What is not below zero is rounded as its magnitude is. Only zero could also be read as a number
from below. -/
theorem Rounds.roundsTo (h : Rounds q p) (hq : 0 ≤ q) : RoundsTo q p := by
  rcases h with ⟨-, h⟩ | ⟨hq', h⟩
  · exact h
  · obtain rfl : q = 0 := le_antisymm hq' hq
    rw [neg_zero] at h
    have hzero : -p = 0 := le_antisymm (h.mono roundsTo_zero le_rfl) h.nonneg
    rw [neg_eq_zero.1 hzero]
    exact roundsTo_zero

/-- Rounding keeps the order of two numbers. Below zero it is the order of magnitudes the other way
round, and zero lies between. -/
theorem Rounds.mono (h : Rounds q p) (h' : Rounds q' p') (hq : q ≤ q') : p ≤ p' := by
  rcases h with ⟨hlow, h⟩ | ⟨hlow, h⟩
  · exact h.mono (h'.roundsTo (hlow.trans hq)) hq
  · rcases h' with ⟨hlow', h'⟩ | ⟨hlow', h'⟩
    · exact (neg_nonneg.1 h.nonneg).trans h'.nonneg
    · exact neg_le_neg_iff.1 (h'.mono h (neg_le_neg hq))

end Numbers

/-- What is a multiple of a power of two by a number of 53 bits is not moved, on either side of
zero. -/
theorem Rounds.eq_self {q p : ℚ} {n : ℕ} {k : ℤ} (h : Rounds q p) (hq : |q| = n * 2 ^ k)
    (hn : n < 2 ^ 53) (hk : -1074 ≤ k) (htop : |q| ≤ overflow) : p = q := by
  rw [hq] at htop
  rcases h with ⟨hlow, h⟩ | ⟨hlow, h⟩
  · rw [abs_of_nonneg hlow] at hq
    rw [hq] at h ⊢
    exact h.eq_self hn hk htop
  · rw [abs_of_nonpos hlow] at hq
    rw [hq] at h
    rw [← neg_inj, hq]
    exact h.eq_self hn hk htop

/-! ### The three operations -/

section Operations

variable {x y : Float} {v w : ℚ}

/-- Canonical parts are packed into the double with this number, of either sign. -/
theorem toRat?_ofParts (s : Sign) {m : ℕ} {e : ℤ} (h : Canonical m e) :
    toRat? (ofParts (.finite s m e h.pos)) = some (signed s (m * 2 ^ e)) := by
  have hparts : parts (ofParts (.finite s m e h.pos)) = .finite s m e h.pos := parts_ofParts h
  unfold toRat?
  rw [hparts]
  exact congrArg some (apply_mul s m _)

/-- A double that is packed from canonical parts is the number that they stand for. -/
theorem toRat?_of_eq_ofParts {m : ℕ} {e : ℤ} (h : Canonical m e)
    (hx : x = ofParts (.finite .positive m e h.pos)) : toRat? x = some ((m : ℚ) * 2 ^ e) := by
  rw [hx]
  exact toRat?_ofParts .positive h

/-- A double is rounded to itself, so an operation with an exact result that is a double gives this
result. -/
theorem rounds_self (h : toRat? x = some v) : Rounds v v := by
  rcases parts_of_toRat? h with ⟨s, -, rfl⟩ | ⟨s, m, e, hm, -, hc, rfl⟩
  · exact rounds_zero
  · exact hc.roundsTo_self.rounds_signed hc.value_pos.le s

/-- A zero of either sign is packed to a double whose place is zero. -/
theorem place?_ofParts_zero (s : Sign) : place? (ofParts (.zero s)) = some 0 := by
  cases s <;> rfl

/-- Parts with the other sign are packed to the opposite place. This holds for infinities too, and
there is no place for what is not a number. -/
theorem place?_ofParts_neg {P : UnpackedFloat} {p : ℚ} (h : place? (ofParts P) = some p) :
    place? (ofParts P.neg) = some (-p) := by
  rw [ofParts_neg, place?_neg, h]
  rfl

/-- Rounding takes a number of either sign to the nearest double. The sign is not looked at on the
way, so the statement for positive numbers gives the other. -/
theorem exists_rounds_roundWithAccuracy (s : Sign) {M : ℕ} {x : ℤ} {z : ℚ} {acc : Accuracy}
    (hz : StandsFor (.ofMantissaAndAccuracy M acc) z) (hx : 2 ^ 52 ≤ M ∨ x ≤ -1074) :
    ∃ p, place? (ofParts (roundWithAccuracy Format.binary64 s M x acc)) = some p ∧
      Rounds (signed s (z * 2 ^ x)) p := by
  obtain ⟨p, hp, hround⟩ := exists_roundsTo_roundWithAccuracy hz hx
  have hnonneg : 0 ≤ z * 2 ^ x :=
    mul_nonneg ((Nat.cast_nonneg M).trans hz.bounds.1) (by positivity)
  refine ⟨signed s p, ?_, hround.rounds_signed hnonneg s⟩
  -- Rounding treats both signs alike.
  cases s with
  | positive => exact hp
  | negative =>
    have hneg := roundWithAccuracy_neg .positive M x acc
    change roundWithAccuracy Format.binary64 .negative M x acc = _ at hneg
    rw [hneg]
    exact place?_ofParts_neg hp

/-- The signs of two numbers multiply as the numbers do. -/
theorem signed_mul (s t : Sign) (v w : ℚ) : signed s v * signed t w = signed (s * t) (v * w) := by
  cases s <;> cases t
  · exact neg_mul_neg v w
  · exact neg_mul v w
  · exact mul_neg v w
  · rfl

/-- The signs of two numbers divide as the numbers do. -/
theorem signed_div (s t : Sign) (v w : ℚ) : signed s v / signed t w = signed (s / t) (v / w) := by
  cases s <;> cases t
  · exact neg_div_neg_eq v w
  · exact neg_div w v
  · exact div_neg v
  · rfl

/-- The product of two finite doubles is the exact one rounded. Zeros are taken out first, because
they have no mantissa to multiply. -/
theorem exists_rounds_mul (hx : toRat? x = some v) (hy : toRat? y = some w) :
    ∃ p, place? (x * y) = some p ∧ Rounds (v * w) p := by
  have hmul : x * y = ofParts (UnpackedFloat.mul Format.binary64 (parts x) (parts y)) := rfl
  rw [hmul]
  -- If one of the two is zero, then so is the product, and it is exact.
  rcases parts_of_toRat? hx with ⟨s, hpx, rfl⟩ | ⟨s, m, e, hm, hpx, hc, rfl⟩
  · rw [hpx, zero_mul]
    rcases parts_of_toRat? hy with ⟨t, hpy, -⟩ | ⟨t, m', e', hm', hpy, -, -⟩
    · rw [hpy]
      exact ⟨0, place?_ofParts_zero _, rounds_zero⟩
    · rw [hpy]
      exact ⟨0, place?_ofParts_zero _, rounds_zero⟩
  rcases parts_of_toRat? hy with ⟨t, hpy, rfl⟩ | ⟨t, m', e', hm', hpy, hc', rfl⟩
  · rw [hpx, hpy, mul_zero]
    exact ⟨0, place?_ofParts_zero _, rounds_zero⟩
  · -- One full mantissa is enough for 53 bits, and otherwise both exponents are the smallest.
    have hbits : 2 ^ 52 ≤ m * m' ∨ e + e' ≤ -1074 := by
      rcases hc.normal with hnormal | rfl
      · exact .inl (hnormal.trans (Nat.le_mul_of_pos_right m hm'))
      rcases hc'.normal with hnormal | rfl
      · exact .inl (hnormal.trans (Nat.le_mul_of_pos_left m' hm))
      · exact .inr (by omega)
    have hvalue : ((m * m' : ℕ) : ℚ) * 2 ^ (e + e') = m * 2 ^ e * (m' * 2 ^ e') := by
      rw [zpow_add₀ (by norm_num)]
      push_cast
      ring
    rw [hpx, hpy, signed_mul, ← hvalue]
    exact exists_rounds_roundWithAccuracy (s * t) (standsFor_exact _) hbits

/-- The quotient of two finite doubles is the exact one rounded, if the divisor is not a zero. -/
theorem exists_rounds_div (hx : toRat? x = some v) (hy : toRat? y = some w) (hw : w ≠ 0) :
    ∃ p, place? (x / y) = some p ∧ Rounds (v / w) p := by
  have hdiv : x / y = ofParts (UnpackedFloat.div Format.binary64 (parts x) (parts y)) := rfl
  rw [hdiv]
  rcases parts_of_toRat? hy with ⟨t, -, rfl⟩ | ⟨t, m', e', hm', hpy, -, rfl⟩
  · exact absurd rfl hw
  rcases parts_of_toRat? hx with ⟨s, hpx, rfl⟩ | ⟨s, m, e, hm, hpx, -, rfl⟩
  · rw [hpx, hpy, zero_div]
    exact ⟨0, place?_ofParts_zero _, rounds_zero⟩
  -- Division keeps enough bits of the quotient, and the accuracy of the rest.
  · obtain ⟨z, hz, hvalue, hbits⟩ := standsFor_divCore m m' e e' hm hm'
    rw [hpx, hpy, signed_div, ← hvalue]
    exact exists_rounds_roundWithAccuracy (s / t) hz hbits

/-- Moving bits from the exponent to the mantissa keeps the number. It never moves them the other
way. -/
theorem decreaseExponent_value (m : ℕ) (e target : ℤ) :
    (((decreaseExponent m e target).1 : ℕ) : ℚ) * 2 ^ (decreaseExponent m e target).2 =
      m * 2 ^ e := by
  show ((m <<< (e - target).toNat : ℕ) : ℚ) * 2 ^ (e - ((e - target).toNat : ℤ)) = _
  rw [Nat.shiftLeft_eq, Nat.cast_mul, Nat.cast_pow, Nat.cast_ofNat, mul_assoc, ← zpow_natCast,
    ← zpow_add₀ (by norm_num)]
  congr 2
  omega

/-- A mantissa of any size is brought to 53 bits, or to the smallest exponent, before it is
rounded. -/
theorem exists_rounds_round (s : Sign) (M : ℕ) (x : ℤ) (hM : 0 < M) :
    ∃ p, place? (ofParts (UnpackedFloat.round Format.binary64 s M x)) = some p ∧
      Rounds (signed s (M * 2 ^ x)) p := by
  have hshifted : UnpackedFloat.round Format.binary64 s M x =
      roundWithAccuracy Format.binary64 s (decreaseExponent M x (target M x)).1
        (decreaseExponent M x (target M x)).2 .exact := by
    unfold UnpackedFloat.round
    rw [targetExponent_eq]
  rw [hshifted, ← decreaseExponent_value M x (target M x)]
  refine exists_rounds_roundWithAccuracy s (standsFor_exact _) ?_
  show 2 ^ 52 ≤ M <<< (x - target M x).toNat ∨ x - ((x - target M x).toNat : ℤ) ≤ -1074
  -- The exponent is lowered as far as 53 bits need, or as far as exponents go.
  rcases max_choice ((M.log2 : ℤ) + x - 52) (-1074) with htarget | htarget
  · refine .inl ?_
    change target M x = _ at htarget
    rw [Nat.shiftLeft_eq]
    calc 2 ^ 52 ≤ 2 ^ (M.log2 + (x - target M x).toNat) :=
      Nat.pow_le_pow_right (by decide) (by omega)
      _ = 2 ^ M.log2 * 2 ^ (x - target M x).toNat := Nat.pow_add _ _ _
      _ ≤ M * 2 ^ (x - target M x).toNat := Nat.mul_le_mul_right _ (Nat.log2_self_le hM.ne')
  · change target M x = _ at htarget
    exact .inr (by omega)

/-- A difference of mantissas may have either sign or be zero. It is rounded with the sign that it
has, whatever sign is asked for a zero. -/
theorem exists_rounds_normalize (M x : ℤ) (s : Sign) :
    ∃ p, place? (ofParts (UnpackedFloat.normalize Format.binary64 M x s)) = some p ∧
      Rounds (M * 2 ^ x) p := by
  unfold UnpackedFloat.normalize
  rcases lt_trichotomy M 0 with hM | rfl | hM
  · obtain ⟨k, rfl⟩ : ∃ k : ℕ, M = -k := ⟨(-M).toNat, by omega⟩
    rw [compare_lt_iff_lt.2 hM, neg_neg, Int.toNat_natCast, Int.cast_neg, neg_mul]
    exact exists_rounds_round .negative k x (by omega)
  · rw [compare_eq_iff_eq.2 rfl, Int.cast_zero, zero_mul]
    exact ⟨0, place?_ofParts_zero s, rounds_zero⟩
  · obtain ⟨k, rfl⟩ := Int.eq_ofNat_of_zero_le hM.le
    rw [compare_gt_iff_gt.2 hM]
    exact exists_rounds_round .positive k x (by omega)

/-- The difference of two finite doubles is the exact one rounded. Where one of them is a zero the
difference is the other, up to its sign, which is a double already. -/
theorem exists_rounds_sub (hx : toRat? x = some v) (hy : toRat? y = some w) :
    ∃ p, place? (x - y) = some p ∧ Rounds (v - w) p := by
  have hsub : x - y = ofParts (UnpackedFloat.sub Format.binary64 (parts x) (parts y)) := rfl
  -- A difference with a zero is exact. Otherwise the mantissas are aligned, and what is left is
  -- rounded once.
  rcases parts_of_toRat? hx with ⟨s, hpx, rfl⟩ | ⟨s, m, e, hm, hpx, hc, rfl⟩
  · rcases parts_of_toRat? hy with ⟨t, hpy, rfl⟩ | ⟨t, m', e', hm', hpy, hc', rfl⟩
    · rw [hsub, hpx, hpy, sub_zero]
      refine ⟨0, ?_, rounds_zero⟩
      cases s <;> cases t <;> rfl
    · -- What is taken away from a zero changes its sign.
      have hneg : x - y = -y := by
        rw [hsub, hpx, hpy, ← ofParts_parts y, hpy, ← ofParts_neg]
        rfl
      refine ⟨-signed t (m' * 2 ^ e'), ?_, ?_⟩
      · rw [hneg, place?_neg, place?_of_toRat? hy]
        rfl
      · have hself := rounds_self (show toRat? (-y) = some (-signed t (m' * 2 ^ e')) by
          rw [toRat?_neg, hy]
          rfl)
        rwa [zero_sub]
  rcases parts_of_toRat? hy with ⟨t, hpy, rfl⟩ | ⟨t, m', e', hm', hpy, hc', rfl⟩
  · have hself : x - y = x := by
      rw [hsub, hpx, hpy, ← ofParts_parts x, hpx]
      rfl
    rw [hself, sub_zero]
    exact ⟨_, place?_of_toRat? hx, rounds_self hx⟩
  · -- Both mantissas are brought to the smaller exponent, where the difference is exact.
    have hleft := decreaseExponent_value m e (min e e')
    have hright := decreaseExponent_value m' e' (min e e')
    have hexponents : (decreaseExponent m e (min e e')).2 = min e e' ∧
        (decreaseExponent m' e' (min e e')).2 = min e e' := by
      show e - ((e - min e e').toNat : ℤ) = _ ∧ e' - ((e' - min e e').toNat : ℤ) = _
      omega
    rw [hexponents.1] at hleft
    rw [hexponents.2] at hright
    have hvalue : ((s.apply (decreaseExponent m e (min e e')).1 -
        t.apply (decreaseExponent m' e' (min e e')).1 : ℤ) : ℚ) * 2 ^ (min e e') =
          signed s (m * 2 ^ e) - signed t (m' * 2 ^ e') := by
      rw [Int.cast_sub, sub_mul, apply_mul, apply_mul, hleft, hright]
    rw [hsub, hpx, hpy, ← hvalue]
    exact exists_rounds_normalize _ _ _

/-- A double is a multiple of every smaller power of two, and so two doubles have a unit in
common. -/
theorem value_eq_multiple (m : ℕ) {e k : ℤ} (h : k ≤ e) :
    (m * 2 ^ e : ℚ) = ((m * 2 ^ (e - k).toNat : ℕ) : ℚ) * 2 ^ k := by
  rw [Nat.cast_mul, Nat.cast_pow, Nat.cast_ofNat, mul_assoc, ← zpow_natCast,
    ← zpow_add₀ (by norm_num)]
  congr 2
  omega

/-- The difference of two positive doubles is exact if neither is more than twice the other. It is a
multiple of the smaller last place that is not above the double with this last place. -/
theorem place?_sub_of_close (hx : toRat? x = some v) (hy : toRat? y = some w) (hv : 0 < v)
    (hvw : v ≤ 2 * w) (hwv : w ≤ 2 * v) : place? (x - y) = some (v - w) := by
  have hw : 0 < w := by linarith
  obtain ⟨p, hp, hround⟩ := exists_rounds_sub hx hy
  obtain ⟨m, e, hm, hpx, rfl⟩ := exists_parts_of_pos hx hv
  obtain ⟨m', e', hm', hpy, rfl⟩ := exists_parts_of_pos hy hw
  have hc := canonical_of_parts hpx
  have hc' := canonical_of_parts hpy
  -- In units of the smaller last place the difference is below the double that has this last place.
  have hsmall : |(m * 2 ^ e - m' * 2 ^ e' : ℚ)| ≤ m * 2 ^ e ∧
      |(m * 2 ^ e - m' * 2 ^ e' : ℚ)| ≤ m' * 2 ^ e' := by
    constructor
    · rw [abs_le]
      constructor <;> linarith
    · rw [abs_le]
      constructor <;> linarith
  have hunit (k : ℤ) (hk : k ≤ e) (hk' : k ≤ e') :
      ∃ n : ℕ, |(m * 2 ^ e - m' * 2 ^ e' : ℚ)| = n * 2 ^ k := by
    refine ⟨((m * 2 ^ (e - k).toNat : ℕ) - (m' * 2 ^ (e' - k).toNat : ℕ) : ℤ).natAbs, ?_⟩
    rw [value_eq_multiple m hk, value_eq_multiple m' hk', ← sub_mul, abs_mul,
      abs_of_pos (show (0 : ℚ) < 2 ^ k by positivity), Nat.cast_natAbs]
    push_cast
    rfl
  have htop := hsmall.1.trans hc.value_lt.le
  rw [hp]
  refine congrArg some ?_
  -- The smaller last place is that of the one or of the other.
  rcases le_total e e' with he | he
  · obtain ⟨n, hn⟩ := hunit e le_rfl he
    refine hround.eq_self hn ?_ hc.le_exponent htop
    have hle := hsmall.1
    rw [hn] at hle
    exact lt_of_le_of_lt (by exact_mod_cast le_of_mul_le_mul_right hle (by positivity)) hc.lt
  · obtain ⟨n, hn⟩ := hunit e' he le_rfl
    refine hround.eq_self hn ?_ hc'.le_exponent htop
    have hle := hsmall.2
    rw [hn] at hle
    exact lt_of_le_of_lt (by exact_mod_cast le_of_mul_le_mul_right hle (by positivity)) hc'.lt

/-- The magnitude of a double has the magnitude of its place, also where this is infinite. -/
theorem place?_abs (h : place? x = some v) : place? x.abs = some |v| := by
  unfold place? at h ⊢
  rw [parts_abs]
  -- The absolute value changes the sign and nothing else.
  cases hx : parts x with
  | notANumber =>
    rw [hx] at h
    cases h
  | zero s =>
    rw [hx] at h
    cases h
    rw [abs_zero]
    rfl
  | infinity s =>
    rw [hx] at h
    cases h
    exact congrArg some (abs_signed overflow_pos.le s).symm
  | finite s m e hm =>
    rw [hx] at h
    cases h
    have hnonneg : (0 : ℚ) ≤ m * 2 ^ e := by positivity
    exact congrArg some (abs_signed hnonneg s).symm

/-- The magnitude of a finite double is the double of its magnitude. -/
theorem toRat?_abs (h : toRat? x = some v) : toRat? x.abs = some |v| := by
  rcases parts_of_toRat? h with ⟨s, hx, rfl⟩ | ⟨s, m, e, hm, hx, hc, rfl⟩
  · unfold toRat?
    rw [parts_abs, hx, abs_zero]
    rfl
  · unfold toRat?
    rw [parts_abs, hx]
    exact congrArg some ((apply_mul .positive m _).trans (abs_signed hc.value_pos.le s).symm)

end Operations

end UnitPlane.Double
