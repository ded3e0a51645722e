import UnitPlane.Proofs.Double.Near

/-!
# `UnitPlane.Proofs.Double.Negation`: arithmetic under a change of signs

Rounding and packing look at magnitudes and carry the sign along. So a change of sign goes through
every operation: that of one factor changes the sign of a product or quotient, and that of both
sides the sign of a difference, up to the sign of a zero.

* `neg_mul` and `neg_div`: a minus sign comes out of products and quotients.
* `abs_neg_sub_neg`: the magnitude of a difference does not depend on the signs of the two.
* `nearest?_neg`: the integer nearest to a double changes its sign with the double.
-/

set_option autoImplicit false

namespace UnitPlane.Double

open Float.Model Float.Model.UnpackedFloat

/-! ### Signs -/

/-- Changing the sign of one factor changes that of the product. -/
theorem sign_neg_mul (s t : Sign) : -s * t = -(s * t) := by
  cases s <;> cases t <;> rfl

/-- Changing the sign of the dividend changes that of the quotient. -/
theorem sign_neg_div (s t : Sign) : -s / t = -(s / t) := by
  cases s <;> cases t <;> rfl

/-- A mantissa with the other sign is the opposite integer. -/
theorem sign_apply_neg (s : Sign) (n : ℤ) : (-s).apply n = -(s.apply n) := by
  cases s with
  | positive => rfl
  | negative => exact (neg_neg n).symm

/-- A number and its negation have the same magnitude. -/
theorem neg_abs (p : UnpackedFloat) : p.neg.abs = p.abs := by
  cases p <;> rfl

/-- A number is its magnitude or the negation of it. -/
theorem eq_abs_or_eq_neg_abs (p : UnpackedFloat) : p = p.abs ∨ p = p.abs.neg := by
  cases p with
  | notANumber => exact .inl rfl
  | infinity s | zero s | finite s =>
    cases s with
    | positive => exact .inl rfl
    | negative => exact .inr rfl

/-! ### Rounding and packing -/

/-- Rounding carries the sign along: what is rounded with the other sign is the negation of what is
rounded. -/
theorem roundWithAccuracy_neg (s : Sign) (M : ℕ) (x : ℤ) (acc : Accuracy) :
    roundWithAccuracy Format.binary64 (-s) M x acc =
      (roundWithAccuracy Format.binary64 s M x acc).neg := by
  unfold roundWithAccuracy
  dsimp only
  split <;> rfl

/-- The sign bit is no part of what the other fields say, so changing it changes the sign of what is
unpacked and nothing else. -/
theorem unpack_packComponents_neg (s : Sign) (E : BitVec 11) (M : BitVec 52) :
    unpack Format.binary64 (packComponents Format.binary64 (-s) E M) =
      (unpack Format.binary64 (packComponents Format.binary64 s E M)).neg := by
  rw [unpack_eq, unpack_eq]
  simp only [unpackSign_packComponents, unpackExponent_packComponents,
    unpackMantissa_packComponents, ofBitVec_toBitVec]
  split
  · split <;> rfl
  split
  · split <;> rfl
  · rfl

/-- Packing keeps the sign, also where what is packed is not canonical and becomes another
number. -/
theorem parts_ofParts_neg (p : UnpackedFloat) :
    parts (ofParts p.neg) = (parts (ofParts p)).neg := by
  cases p with
  | notANumber => rfl
  | infinity s | zero s => exact unpack_packComponents_neg s _ _
  | finite s m e hm =>
    show unpack Format.binary64 (pack Format.binary64 (.finite (-s) m e hm)) =
      (unpack Format.binary64 (pack Format.binary64 (.finite s m e hm))).neg
    simp only [UnpackedFloat.pack]
    split
    · exact unpack_packComponents_neg s _ _
    split
    · exact unpack_packComponents_neg s _ _
    · exact unpack_packComponents_neg s _ _

/-- Packing keeps the sign of what it packs, whatever it is packed to. -/
theorem ofParts_neg (p : UnpackedFloat) : ofParts p.neg = -ofParts p :=
  eq_of_parts_eq ((parts_ofParts_neg p).trans (parts_neg _).symm)

/-! ### Products and quotients -/

/-- Changing the sign of one factor changes that of the product of unpacked numbers, in all cases of
what the two factors are. -/
theorem unpacked_neg_mul (p q : UnpackedFloat) :
    UnpackedFloat.mul Format.binary64 p.neg q = (UnpackedFloat.mul Format.binary64 p q).neg := by
  -- The sixteen cases of the two kinds. Only in the last one something is rounded.
  cases p with
  | notANumber => rfl
  | infinity s =>
    cases q with
    | notANumber | zero t => rfl
    | infinity t | finite t => exact congrArg UnpackedFloat.infinity (sign_neg_mul s t)
  | zero s =>
    cases q with
    | notANumber | infinity t => rfl
    | zero t | finite t => exact congrArg UnpackedFloat.zero (sign_neg_mul s t)
  | finite s m e hm =>
    cases q with
    | notANumber => rfl
    | infinity t => exact congrArg UnpackedFloat.infinity (sign_neg_mul s t)
    | zero t => exact congrArg UnpackedFloat.zero (sign_neg_mul s t)
    | finite t m' e' hm' =>
      show roundWithAccuracy _ (-s * t) _ _ _ = (roundWithAccuracy _ (s * t) _ _ _).neg
      rw [sign_neg_mul, roundWithAccuracy_neg]

/-- Changing the sign of the dividend changes that of the quotient of unpacked numbers, in all
cases. -/
theorem unpacked_neg_div (p q : UnpackedFloat) :
    UnpackedFloat.div Format.binary64 p.neg q = (UnpackedFloat.div Format.binary64 p q).neg := by
  -- The cases are those of the product, with zeros and infinities the other way round.
  cases p with
  | notANumber => rfl
  | infinity s =>
    cases q with
    | notANumber | infinity t => rfl
    | zero t | finite t => exact congrArg UnpackedFloat.infinity (sign_neg_div s t)
  | zero s =>
    cases q with
    | notANumber | zero t => rfl
    | infinity t | finite t => exact congrArg UnpackedFloat.zero (sign_neg_div s t)
  | finite s m e hm =>
    cases q with
    | notANumber => rfl
    | infinity t => exact congrArg UnpackedFloat.zero (sign_neg_div s t)
    | zero t => exact congrArg UnpackedFloat.infinity (sign_neg_div s t)
    | finite t m' e' hm' =>
      show roundWithAccuracy _ (-s / t) _ _ _ = (roundWithAccuracy _ (s / t) _ _ _).neg
      rw [sign_neg_div, roundWithAccuracy_neg]

/-- A minus sign comes out of a product of doubles, for all doubles. -/
protected theorem neg_mul (x y : Float) : -x * y = -(x * y) := by
  show ofParts (UnpackedFloat.mul Format.binary64 (parts (-x)) (parts y)) =
    -ofParts (UnpackedFloat.mul Format.binary64 (parts x) (parts y))
  rw [parts_neg, unpacked_neg_mul, ofParts_neg]

/-- A minus sign comes out of the dividend of a quotient of doubles, for all doubles. -/
protected theorem neg_div (x y : Float) : -x / y = -(x / y) := by
  show ofParts (UnpackedFloat.div Format.binary64 (parts (-x)) (parts y)) =
    -ofParts (UnpackedFloat.div Format.binary64 (parts x) (parts y))
  rw [parts_neg, unpacked_neg_div, ofParts_neg]

/-! ### Magnitudes -/

/-- The magnitude of a double has its parts with a plus sign. -/
theorem parts_abs (x : Float) : parts x.abs = (parts x).abs := by
  refine parts_ofParts ?_
  have hx := canonicalParts_parts x
  show CanonicalParts (parts x).abs
  cases h : parts x with
  | infinity | notANumber | zero => trivial
  | finite s m e hm =>
    rw [h] at hx
    exact hx

/-- A double and its negation have the same magnitude. -/
protected theorem abs_neg (x : Float) : (-x).abs = x.abs := by
  refine eq_of_parts_eq ?_
  rw [parts_abs, parts_abs, parts_neg, neg_abs]

/-- What is packed has the same magnitude whether its sign is dropped before or not. -/
theorem abs_ofParts_abs (p : UnpackedFloat) : (ofParts p.abs).abs = (ofParts p).abs := by
  rcases eq_abs_or_eq_neg_abs p with hp | hp
  · rw [← hp]
  · rw [hp, neg_abs, ofParts_neg, Double.abs_neg]
    cases p <;> rfl

/-- Numbers with the same magnitude are packed to doubles with the same magnitude. -/
theorem abs_ofParts_congr {p q : UnpackedFloat} (h : p.abs = q.abs) :
    (ofParts p).abs = (ofParts q).abs := by
  rw [← abs_ofParts_abs p, h, abs_ofParts_abs]

/-- The magnitude of what is rounded does not depend on the sign it is rounded with. -/
theorem round_abs (s t : Sign) (M : ℕ) (x : ℤ) :
    (UnpackedFloat.round Format.binary64 s M x).abs =
      (UnpackedFloat.round Format.binary64 t M x).abs := by
  unfold UnpackedFloat.round roundWithAccuracy
  dsimp only
  split <;> rfl

/-- Changing the sign of a sum before it is rounded changes that of the result, except for the zero,
whose sign is given. So the magnitude stays. -/
theorem normalize_neg_abs (M x : ℤ) (s : Sign) :
    (UnpackedFloat.normalize Format.binary64 (-M) x s).abs =
      (UnpackedFloat.normalize Format.binary64 M x s).abs := by
  unfold UnpackedFloat.normalize
  rcases lt_trichotomy M 0 with hM | rfl | hM
  · rw [compare_gt_iff_gt.2 (show -M > 0 by omega), compare_lt_iff_lt.2 hM]
    exact round_abs _ _ _ _
  · rfl
  · rw [compare_lt_iff_lt.2 (show -M < 0 by omega), compare_gt_iff_gt.2 hM, neg_neg]
    exact round_abs _ _ _ _

/-- The magnitude of a difference of unpacked numbers stays as it is when both change their
signs. -/
theorem unpacked_sub_neg_abs (p q : UnpackedFloat) :
    (UnpackedFloat.sub Format.binary64 p.neg q.neg).abs =
      (UnpackedFloat.sub Format.binary64 p q).abs := by
  -- Infinities and zeros of either sign are compared one by one, and finite numbers by their
  -- aligned mantissas.
  cases p with
  | notANumber => rfl
  | infinity s =>
    cases q with
    | infinity t => cases s <;> cases t <;> rfl
    | notANumber | zero t | finite t => rfl
  | zero s =>
    cases q with
    | zero t => cases s <;> cases t <;> rfl
    | notANumber | infinity t | finite t => rfl
  | finite s m e hm =>
    cases q with
    | finite t m' e' hm' =>
      show (UnpackedFloat.normalize _ ((-s).apply _ - (-t).apply _) _ _).abs =
        (UnpackedFloat.normalize _ (s.apply _ - t.apply _) _ _).abs
      rw [sign_apply_neg, sign_apply_neg, ← normalize_neg_abs (s.apply _ - _), neg_sub, neg_sub_neg]
    | notANumber | infinity t | zero t => rfl

/-- The magnitude of a difference stays as it is when both sides change their signs. The sign of a
zero is why this is not said of the difference itself. -/
theorem abs_neg_sub_neg (x y : Float) : (-x - -y).abs = (x - y).abs := by
  have hparts : parts (-x) = (parts x).neg ∧ parts (-y) = (parts y).neg :=
    ⟨parts_neg x, parts_neg y⟩
  show (ofParts (UnpackedFloat.sub Format.binary64 (parts (-x)) (parts (-y)))).abs =
    (ofParts (UnpackedFloat.sub Format.binary64 (parts x) (parts y))).abs
  rw [hparts.1, hparts.2]
  exact abs_ofParts_congr (unpacked_sub_neg_abs _ _)

/-- The sign of a zero that something is taken away from does not matter to the magnitude of the
difference. -/
theorem SameUpToZeroSign.abs_sub {x y : Float} (h : SameUpToZeroSign x y) (z : Float) :
    (x - z).abs = (y - z).abs := by
  obtain rfl | ⟨hx, hy⟩ := h
  · rfl
  obtain ⟨s, hs⟩ := beq_zero_iff.1 hx
  obtain ⟨t, ht⟩ := beq_zero_iff.1 hy
  show (ofParts (UnpackedFloat.sub Format.binary64 (parts x) (parts z))).abs =
    (ofParts (UnpackedFloat.sub Format.binary64 (parts y) (parts z))).abs
  rw [hs, ht]
  refine abs_ofParts_congr ?_
  cases parts z with
  | notANumber | infinity u | finite u => rfl
  | zero u => cases s <;> cases t <;> cases u <;> rfl

/-! ### Integers and places -/

/-- The integer nearest to the negation is the opposite of the one nearest to the double, because
halves are rounded away from zero on both sides. -/
theorem nearest?_neg (x : Float) : Rounding.nearest? (-x) = (Rounding.nearest? x).map Neg.neg := by
  have hneg : (-x).toModel.unpack = x.toModel.unpack.neg := parts_neg x
  unfold Rounding.nearest?
  rw [hneg]
  cases x.toModel.unpack with
  | notANumber | infinity s | zero s => rfl
  | finite s m e hm =>
    cases s with
    | positive => rfl
    | negative => exact congrArg some (neg_neg _).symm

/-- The double of an integer changes its sign with the integer, but for the zero, whose double
always has a plus sign. -/
theorem ofInt_neg (n : ℤ) : SameUpToZeroSign (Float.ofInt (-n)) (-Float.ofInt n) := by
  match n with
  | .ofNat 0 => exact .inr ⟨by decide, by decide⟩
  | .ofNat (k + 1) => exact .inl rfl
  | .negSucc k => exact .inl (Double.neg_neg _).symm

/-- The negation of a double has the opposite place. -/
theorem place?_neg (x : Float) : place? (-x) = (place? x).map Neg.neg := by
  unfold place?
  rw [parts_neg]
  cases parts x with
  | notANumber => rfl
  | zero s => exact congrArg some neg_zero.symm
  | infinity s | finite s =>
    cases s with
    | positive => rfl
    | negative => exact congrArg some (neg_neg _).symm

end UnitPlane.Double
