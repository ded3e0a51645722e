import UnitPlane.Proofs.Double.Scientific
import UnitPlane.Rounding

/-!
# `UnitPlane.Proofs.Double.Integer`: doubles that are integers

`toRat?` is the rational number that a finite double is. Arithmetic that has nothing to round is
exact, so an integer stays itself through all that is done to it when it is read as an exponent:

* `mul_one`, `div_one` and `sub_self`: products and quotients with one, and differences of equals.
* `ofInt_eq_self` and `nearest?_eq`: a double that is an integer is the double of that integer, and
  is the integer nearest to it.

The negative zero is an integer as well, and the only one that its integer does not give back.
-/

set_option autoImplicit false

namespace UnitPlane.Double

open Float.Model Float.Model.UnpackedFloat

/-! ### The number a double is -/

/-- The rational number that a finite double is. Both zeros are the number zero. -/
def toRat? (x : Float) : Option ℚ :=
  match parts x with
  | .zero _ => some 0
  | .finite s m e _ => some ((s.apply m : ℤ) * 2 ^ e)
  | .infinity _ | .notANumber => none

/-- A double that is a rational number is finite. -/
theorem isFinite_of_toRat? {x : Float} {q : ℚ} (h : toRat? x = some q) : x.isFinite = true := by
  rw [isFinite_iff]
  unfold toRat? at h
  cases hx : parts x with
  | zero s | finite s m e hm => rfl
  | infinity s | notANumber =>
    rw [hx] at h
    cases h

/-! ### Operations with nothing to round -/

/-- The parts of one: a full mantissa and the exponent that takes it back to one. -/
theorem parts_one : parts 1 = .finite .positive (2 ^ 52) (-52) (by decide) := by
  rw [show (1 : Float) = ofParts (.finite .positive (2 ^ 52) (-52) (by decide)) by decide]
  exact parts_ofParts ⟨by decide, by decide, by decide, by decide, .inl (by decide)⟩

/-- The mantissa and the exponent that a double has are in canonical form. -/
theorem canonical_of_parts {x : Float} {s : Sign} {m : ℕ} {e : ℤ} {hm : 0 < m}
    (h : parts x = .finite s m e hm) : Canonical m e := by
  have := canonicalParts_parts x
  rwa [h] at this

/-- A product with one is the double itself, for every double. Nothing is rounded, because the exact
product is a double. -/
protected theorem mul_one (x : Float) : x * 1 = x := by
  have hmul : x * 1 = ofParts (UnpackedFloat.mul Format.binary64 (parts x) (parts 1)) := rfl
  -- The special values are computed; a finite one is multiplied exactly, and rounds to itself.
  cases hx : parts x with
  | notANumber =>
    rw [hmul, parts_one, hx, ← ofParts_parts x, hx]
    rfl
  | infinity s | zero s =>
    rw [hmul, parts_one, hx, ← ofParts_parts x, hx]
    cases s <;> rfl
  | finite s m e hm =>
    have hc := canonical_of_parts hx
    have hvalue : (m * 2 ^ e * ((2 ^ 52 : ℕ) * 2 ^ (-52 : ℤ)) : ℚ) = m * 2 ^ e := by
      norm_num
    rw [mul_eq hx parts_one (.inl (by have := hc.pos; omega)) hc
      (by rw [hvalue]; exact nearest_self m e), ← ofParts_parts x, hx]
    cases s <;> rfl

/-- A quotient by one is the double itself, for every double. -/
protected theorem div_one (x : Float) : x / 1 = x := by
  have hdiv : x / 1 = ofParts (UnpackedFloat.div Format.binary64 (parts x) (parts 1)) := rfl
  cases hx : parts x with
  | notANumber =>
    rw [hdiv, parts_one, hx, ← ofParts_parts x, hx]
    rfl
  | infinity s | zero s =>
    rw [hdiv, parts_one, hx, ← ofParts_parts x, hx]
    cases s <;> rfl
  | finite s m e hm =>
    have hc := canonical_of_parts hx
    -- One is stored with a full mantissa, and its value is one all the same.
    have hvalue : (m * 2 ^ e / ((2 ^ 52 : ℕ) * 2 ^ (-52 : ℤ)) : ℚ) = m * 2 ^ e := by
      norm_num
    rw [div_eq hx parts_one hc (by rw [hvalue]; exact nearest_self m e), ← ofParts_parts x, hx]
    cases s <;> rfl

/-- A finite double less itself is the zero without a sign. The two mantissas cancel before anything
is rounded. -/
protected theorem sub_self {x : Float} (hx : x.isFinite = true) : x - x = 0 := by
  have hsub : x - x = ofParts (UnpackedFloat.sub Format.binary64 (parts x) (parts x)) := rfl
  have hzero : (0 : Float) = ofParts (.zero .positive) := by rw [← parts_zero, ofParts_parts]
  rw [isFinite_iff] at hx
  rw [hsub, hzero]
  refine congrArg ofParts ?_
  -- The difference of two equal mantissas is zero, with a positive sign.
  cases hparts : parts x with
  | notANumber | infinity s =>
    rw [hparts] at hx
    cases hx
  | zero s => cases s <;> rfl
  | finite s m e hm =>
    show UnpackedFloat.normalize _ (_ - _) _ _ = _
    rw [Int.sub_self]
    rfl

/-! ### Integers -/

section Integers

variable {x : Float} {n : ℤ}

/-- A double that is an integer is a zero, or its mantissa and exponent give the integer's
magnitude. -/
theorem parts_of_toRat?_int (h : toRat? x = some (n : ℚ)) :
    (∃ s, parts x = .zero s ∧ n = 0) ∨
      ∃ (m k : ℕ) (e : ℤ) (hm : 0 < m), (m * 2 ^ e : ℚ) = k ∧ 0 < k ∧
        (parts x = .finite .positive m e hm ∧ n = k ∨
          parts x = .finite .negative m e hm ∧ n = -k) := by
  unfold toRat? at h
  cases hparts : parts x with
  | notANumber | infinity s =>
    rw [hparts] at h
    cases h
  | zero s =>
    rw [hparts] at h
    exact .inl ⟨s, rfl, by exact_mod_cast (Option.some.inj h).symm⟩
  | finite s m e hm =>
    rw [hparts] at h
    have hpos : (0 : ℚ) < m * 2 ^ e := mul_pos (by exact_mod_cast hm) (by positivity)
    -- The integer is on the side of the sign, and its magnitude is a natural number.
    cases s with
    | positive =>
      have hn : (m * 2 ^ e : ℚ) = n := Option.some.inj h
      have h0 : 0 < n := by
        rw [hn] at hpos
        exact_mod_cast hpos
      obtain ⟨k, rfl⟩ := Int.eq_ofNat_of_zero_le h0.le
      exact .inr ⟨m, k, e, hm, by exact_mod_cast hn, by omega, .inl ⟨rfl, rfl⟩⟩
    | negative =>
      have hn : (m * 2 ^ e : ℚ) = (-n : ℤ) := by
        have hneg : ((-(m : ℤ) : ℤ) : ℚ) * 2 ^ e = n := Option.some.inj h
        rw [Int.cast_neg, ← hneg]
        push_cast
        ring
      have h0 : 0 < -n := by
        rw [hn] at hpos
        exact_mod_cast hpos
      obtain ⟨k, hk⟩ := Int.eq_ofNat_of_zero_le h0.le
      rw [hk] at hn
      exact .inr ⟨m, k, e, hm, by exact_mod_cast hn, by omega, .inr ⟨rfl, by omega⟩⟩

/-- The double of a positive integer that is a double is that double: reading the integer has
nothing to round. -/
theorem ofNat_eq_self {m k : ℕ} {e : ℤ} (hc : Canonical m e) (hk : 0 < k)
    (h : (m * 2 ^ e : ℚ) = k) :
    Float.ofNat k = ofParts (.finite .positive m e hc.pos) := by
  have hnearest : Nearest ((k : ℚ) / 10 ^ 0) m e := by
    rw [pow_zero, div_one, ← h]
    exact nearest_self m e
  exact ofScientific_eq hk hc hnearest

/-- A double that is an integer is the double of that integer, unless it is the negative zero, which
no integer gives. -/
theorem ofInt_eq_self (h : toRat? x = some (n : ℚ)) (hx : x ≠ -0) : Float.ofInt n = x := by
  rcases parts_of_toRat?_int h with ⟨s, hparts, rfl⟩ | ⟨m, k, e, hm, hvalue, hk, hsign⟩
  · cases s with
    | positive => exact eq_of_parts_eq (parts_zero.trans hparts.symm)
    | negative => exact absurd (eq_of_parts_eq (hparts.trans parts_neg_zero.symm)) hx
  -- A positive integer is read as it is, and a negative one is the negation of its magnitude.
  rcases hsign with ⟨hparts, rfl⟩ | ⟨hparts, rfl⟩
  · have hc := canonical_of_parts hparts
    show Float.ofNat k = x
    rw [ofNat_eq_self hc hk hvalue, ← ofParts_parts x, hparts]
  · obtain ⟨j, rfl⟩ : ∃ j, k = j + 1 := ⟨k - 1, by omega⟩
    have hc := canonical_of_parts hparts
    have hmagnitude : CanonicalParts (.finite .positive m e hm) := hc
    show -Float.ofNat (j + 1) = x
    refine eq_of_parts_eq ?_
    rw [ofNat_eq_self hc hk hvalue, parts_neg, parts_ofParts hmagnitude, hparts]
    rfl

/-- The integer nearest to a mantissa with its exponent is the number itself, if that is an
integer. -/
theorem halfUp_eq {m k : ℕ} {e : ℤ} (h : (m * 2 ^ e : ℚ) = k) : Rounding.halfUp m e = k := by
  unfold Rounding.halfUp
  split
  next he =>
    obtain ⟨i, rfl⟩ := Int.eq_ofNat_of_zero_le he
    rw [zpow_natCast] at h
    exact_mod_cast h
  next he =>
    obtain ⟨i, rfl⟩ : ∃ i : ℕ, e = -i := ⟨(-e).toNat, by omega⟩
    have hm : m = k * 2 ^ i := by
      rw [zpow_neg, zpow_natCast, ← div_eq_mul_inv, div_eq_iff (by positivity)] at h
      exact_mod_cast h
    -- The half that is added is lost again in the division.
    rw [hm, neg_neg, Int.toNat_natCast]
    show (2 * (k * 2 ^ i) + 2 ^ i) / 2 ^ (i + 1) = k
    rw [show 2 * (k * 2 ^ i) + 2 ^ i = 2 ^ i + k * 2 ^ (i + 1) by ring,
      Nat.add_mul_div_right _ _ (Nat.two_pow_pos _), Nat.div_eq_of_lt, Nat.zero_add]
    exact Nat.pow_lt_pow_right (by decide) (Nat.lt_succ_self i)

/-- The integer nearest to a double that is an integer is that integer. -/
theorem nearest?_eq (h : toRat? x = some (n : ℚ)) : Rounding.nearest? x = some n := by
  unfold Rounding.nearest?
  rcases parts_of_toRat?_int h with ⟨s, hparts, rfl⟩ | ⟨m, k, e, hm, hvalue, hk, hsign⟩
  · rw [show x.toModel.unpack = _ from hparts]
  rcases hsign with ⟨hparts, rfl⟩ | ⟨hparts, rfl⟩
  · rw [show x.toModel.unpack = _ from hparts]
    simp only [halfUp_eq hvalue]
  · rw [show x.toModel.unpack = _ from hparts]
    simp only [halfUp_eq hvalue]

end Integers

end UnitPlane.Double
