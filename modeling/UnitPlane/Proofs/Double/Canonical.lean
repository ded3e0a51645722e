import Mathlib

/-!
# `UnitPlane.Proofs.Double.Canonical`: a double and its parts

A finite double that is not zero has a sign, a mantissa and an exponent, and these are in canonical
form: the mantissa has 53 bits, or fewer where the exponent is the smallest. Packing and unpacking
go back and forth between the double and its parts without a loss:

* `Double.ofParts_parts`: a double is made up of its parts.
* `Double.parts_ofParts`: a double made up of canonical parts has these parts.
-/

set_option autoImplicit false

namespace UnitPlane.Double

open Float.Model Float.Model.UnpackedFloat

/-! ### Canonical parts -/

/-- The mantissa and the exponent of a double, as unpacking gives them. The mantissa is full, with
53 bits, unless the exponent is the smallest one, so that each number has only one such pair. -/
structure Canonical (m : Nat) (e : Int) : Prop where
  pos : 0 < m
  lt : m < 2 ^ 53
  le_exponent : -1074 ≤ e
  exponent_le : e ≤ 971
  normal : 2 ^ 52 ≤ m ∨ e = -1074

/-- A zero, an infinity or no number has no mantissa, and a finite number has its mantissa and
exponent in canonical form. -/
def CanonicalParts : UnpackedFloat → Prop
  | .finite _ m e _ => Canonical m e
  | _ => True

/-- The sign, mantissa and exponent of a double, or that it is a zero, an infinity or no number. -/
def parts (x : Float) : UnpackedFloat := x.toModel.unpack

/-- The double with the given parts. Parts that no double has are packed to the bits of some other
double, so this is the inverse of `parts` on canonical parts only. -/
def ofParts (p : UnpackedFloat) : Float := .ofModel (.pack p)

/-! ### The three fields of the bits -/

section Fields

variable (s : Sign) (e : BitVec 11) (m : BitVec 52) (b : BitVec Format.binary64.numBits)

/-- A sign that is made from a bit has this bit. -/
theorem toBitVec_ofBitVec (b : BitVec 1) : (Sign.ofBitVec b).toBitVec = b := by
  revert b
  decide

/-- A sign is made again from its bit. -/
theorem ofBitVec_toBitVec : Sign.ofBitVec s.toBitVec = s := by
  cases s <;> rfl

/-- The bits of a double, counted from the lowest: 52 bits of the mantissa, 11 bits of the exponent,
and the sign. All that is said of the fields below is read off from this. -/
theorem getLsbD_packComponents (i : Nat) :
    (packComponents Format.binary64 s e m).getLsbD i =
      if i < 52 then m.getLsbD i else if i - 52 < 11 then e.getLsbD (i - 52)
      else s.toBitVec.getLsbD (i - 52 - 11) := by
  unfold packComponents
  rw [BitVec.getLsbD_append, BitVec.getLsbD_append]

/-- The sign bit of a double that is made up of its fields is the sign it was made with. -/
theorem unpackSign_packComponents :
    unpackSign (packComponents Format.binary64 s e m) = s.toBitVec := by
  refine BitVec.eq_of_getLsbD_eq fun i hi => ?_
  obtain rfl : i = 0 := by omega
  unfold unpackSign
  rw [BitVec.getLsbD_cast, BitVec.getLsbD_extractLsb, getLsbD_packComponents]
  rfl

/-- The fields of a bit pattern make it up: cutting the bits into the three fields and putting these
together gives all bits back. -/
theorem packComponents_unpack :
    packComponents Format.binary64 (Sign.ofBitVec (unpackSign b)) (unpackExponent b)
      (unpackMantissa b) = b := by
  refine BitVec.eq_of_getLsbD_eq fun i hi => ?_
  rw [getLsbD_packComponents, toBitVec_ofBitVec]
  unfold unpackSign unpackExponent unpackMantissa
  simp only [BitVec.getLsbD_cast, BitVec.getLsbD_extractLsb]
  simp only [Format.numBits] at hi
  -- The bit belongs to the mantissa, to the exponent or to the sign.
  split
  · rw [decide_eq_true (by omega), Bool.true_and, Nat.zero_add]
  split
  · rw [decide_eq_true (by omega), Bool.true_and, Nat.add_sub_cancel' (by omega)]
  · rw [decide_eq_true (by omega), Bool.true_and]
    congr 1
    omega

end Fields

/-! ### Unpacking -/

section Unpacking

variable {b : BitVec Format.binary64.numBits}

/-- The top bit of a full mantissa is not stored. Putting it back adds `2 ^ 52`. -/
theorem toNat_one_append (m : BitVec 52) : (1#1 ++ m).toNat = 2 ^ 52 + m.toNat := by
  have hadd := Nat.two_pow_add_eq_or_of_lt m.isLt 1
  rw [Nat.mul_one] at hadd
  rw [BitVec.toNat_append]
  exact hadd.symm

/-- Two finite numbers with the same mantissa and the same exponent are the same, whatever the
proofs that the mantissa is positive. -/
theorem finite_congr {s : Sign} {m m' : Nat} {e e' : Int} {h : 0 < m} {h' : 0 < m'} (hm : m = m')
    (he : e = e') : UnpackedFloat.finite s m e h = .finite s m' e' h' := by
  subst hm he
  rfl

/-- A bit pattern is told apart by its exponent field: all ones for what is not finite, all zeros
for zeros and the smallest numbers, and otherwise a number of 53 bits whose top bit is not
stored. -/
theorem unpack_eq (b : BitVec Format.binary64.numBits) :
    unpack Format.binary64 b =
      let s := Sign.ofBitVec (unpackSign b)
      let m := (unpackMantissa b).toNat
      let e := (unpackExponent b).toNat
      if e = 2047 then if m = 0 then .infinity s else .notANumber
      else if e = 0 then if h : m = 0 then .zero s else .finite s m (-1074) (Nat.pos_of_ne_zero h)
      else .finite s (2 ^ 52 + m) (e - 1075) (by omega) := by
  -- The fields are compared as numbers from here on, so that `omega` can take part.
  have hones : unpackExponent b = -1#11 ↔ (unpackExponent b).toNat = 2047 := BitVec.toNat_inj.symm
  have hzeros : unpackExponent b = 0#11 ↔ (unpackExponent b).toNat = 0 := BitVec.toNat_inj.symm
  have hempty : unpackMantissa b = 0#52 ↔ (unpackMantissa b).toNat = 0 := BitVec.toNat_inj.symm
  unfold UnpackedFloat.unpack
  dsimp only
  simp only [hones, hzeros, hempty]
  refine congrArg (ite _ _) ?_
  split
  next h0 =>
    split
    · rfl
    · exact finite_congr rfl (by rw [h0]; rfl)
  · exact finite_congr (toNat_one_append _) rfl

/-- What is unpacked is in canonical form, whatever the bits are. -/
theorem canonicalParts_unpack (b : BitVec Format.binary64.numBits) :
    CanonicalParts (unpack Format.binary64 b) := by
  have hm := (unpackMantissa b).isLt
  have he := (unpackExponent b).isLt
  simp only [Format.binary64] at hm he
  -- In each case the bounds are those of the two bit fields.
  rw [unpack_eq]
  dsimp only
  split
  · split <;> trivial
  split
  · split
    · trivial
    · exact ⟨by omega, by omega, by omega, by omega, .inr rfl⟩
  · exact ⟨by omega, by omega, by omega, by omega, .inl (by omega)⟩

end Unpacking

/-! ### Packing -/

section Packing

variable {s : Sign} {m : Nat} {e : Int}

/-- A full mantissa is packed without its top bit, and its exponent is stored with the bias. -/
theorem pack_normal (h : Canonical m e) (hm : 2 ^ 52 ≤ m) :
    pack Format.binary64 (.finite s m e h.pos) =
      packComponents Format.binary64 s (BitVec.ofNat 11 (e + 1075).toNat) (BitVec.ofNat 52 m) := by
  have hlog : m.log2 = 52 := (Nat.log2_eq_iff (Nat.ne_of_gt h.pos)).2 ⟨hm, h.lt⟩
  have hbiased :
    (e + Format.binary64.exponentBias + Format.binary64.mantissaBitsWithoutImplicit).toNat
      = (e + 1075).toNat := congrArg Int.toNat (Int.add_assoc e 1023 52)
  have := h.le_exponent
  have := h.exponent_le
  simp only [UnpackedFloat.pack, hbiased, hlog]
  rw [if_neg (by show ¬ 2 ^ 11 ≤ _; omega), if_pos (by rfl)]

/-- A mantissa that is not full is packed as it is, with an exponent field of zeros. -/
theorem pack_subnormal (h : Canonical m e) (hm : m < 2 ^ 52) :
    pack Format.binary64 (.finite s m e h.pos) =
      packComponents Format.binary64 s 0#11 (BitVec.ofNat 52 m) := by
  have hlog : m.log2 < 52 := (Nat.log2_lt (Nat.ne_of_gt h.pos)).2 hm
  obtain rfl : e = -1074 := h.normal.resolve_left (by omega)
  simp only [UnpackedFloat.pack]
  rw [if_neg (by decide), if_neg (by show ¬ m.log2 + 1 = 53; omega)]

/-- Unpacking what was packed from canonical parts gives the parts back. -/
theorem unpack_pack {p : UnpackedFloat} (h : CanonicalParts p) :
    unpack Format.binary64 (pack Format.binary64 p) = p := by
  cases p with
  | infinity s => cases s <;> rfl
  | notANumber => rfl
  | zero s => cases s <;> rfl
  | finite s m e hm =>
    have hc : Canonical m e := h
    have := hc.lt
    have := hc.le_exponent
    have := hc.exponent_le
    -- The top bit of a full mantissa is not stored, and the exponent field says if it is there.
    by_cases hnormal : 2 ^ 52 ≤ m
    · rw [pack_normal hc hnormal, unpack_eq]
      simp only [unpackSign_packComponents, unpackExponent_packComponents,
        unpackMantissa_packComponents, BitVec.toNat_ofNat, ofBitVec_toBitVec]
      rw [if_neg (by omega), if_neg (by omega)]
      exact finite_congr (by omega) (by omega)
    · rw [pack_subnormal hc (by omega), unpack_eq]
      simp only [unpackSign_packComponents, unpackExponent_packComponents,
        unpackMantissa_packComponents, BitVec.toNat_ofNat, ofBitVec_toBitVec]
      rw [if_neg (by decide), if_pos (by decide), dif_neg (by omega)]
      exact finite_congr (by omega) (hc.normal.resolve_left (by omega)).symm

/-- A bit pattern is packed from its own sign and from fields with the same values as its own. -/
theorem packComponents_eq_self {b : BitVec Format.binary64.numBits} {e : BitVec 11} {m : BitVec 52}
    (he : (unpackExponent b).toNat = e.toNat) (hm : (unpackMantissa b).toNat = m.toNat) :
    packComponents Format.binary64 (Sign.ofBitVec (unpackSign b)) e m = b := by
  rw [← BitVec.eq_of_toNat_eq he, ← BitVec.eq_of_toNat_eq hm]
  exact packComponents_unpack b

/-- Packing what was unpacked gives the bits back. There is one pattern only that stands for no
number among the valid ones, so nothing is lost there either. -/
theorem pack_unpack {b : BitVec Format.binary64.numBits} (h : Format.binary64.Valid b) :
    pack Format.binary64 (unpack Format.binary64 b) = b := by
  have hcanonical := canonicalParts_unpack b
  have hm := (unpackMantissa b).isLt
  have he := (unpackExponent b).isLt
  simp only [Format.binary64] at hm he
  rw [unpack_eq] at hcanonical ⊢
  dsimp only at hcanonical ⊢
  -- The cases are those of `unpack_eq`. Only a not-a-number loses bits, and a valid double has one
  -- pattern for it.
  split at hcanonical
  next hones =>
    rw [if_pos hones]
    split
    next hempty => exact packComponents_eq_self hones hempty
    next hmantissa =>
      refine (h.eq_packedNaN (BitVec.eq_of_toNat_eq hones) fun hempty => hmantissa ?_).symm
      rw [hempty]
      rfl
  next hones =>
    rw [if_neg hones]
    split at hcanonical
    next hzeros =>
      rw [if_pos hzeros]
      split
      next hempty => exact packComponents_eq_self hzeros hempty
      next hmantissa =>
        rw [dif_neg hmantissa] at hcanonical
        rw [pack_subnormal hcanonical hm]
        exact packComponents_eq_self hzeros (by rw [BitVec.toNat_ofNat, Nat.mod_eq_of_lt hm])
    next hzeros =>
      rw [if_neg hzeros, pack_normal hcanonical (by omega)]
      refine packComponents_eq_self ?_ ?_
      · rw [BitVec.toNat_ofNat]
        omega
      · rw [BitVec.toNat_ofNat]
        omega

end Packing

/-! ### Doubles -/

variable (x : Float)

/-- The parts of every double are in canonical form. -/
theorem canonicalParts_parts : CanonicalParts (parts x) :=
  canonicalParts_unpack _

/-- A double that is made up of canonical parts has these parts. -/
theorem parts_ofParts {p : UnpackedFloat} (h : CanonicalParts p) : parts (ofParts p) = p :=
  unpack_pack h

/-- A double is made up of its parts, so it is known from them. -/
theorem ofParts_parts : ofParts (parts x) = x := by
  obtain ⟨⟨bits, valid⟩⟩ := x
  show Float.ofModel ⟨UInt64.ofBitVec (pack Format.binary64 (unpack Format.binary64 bits.toBitVec)),
    _⟩
    = Float.ofModel ⟨bits, valid⟩
  congr
  rw [pack_unpack valid]

/-- Doubles with the same parts are the same double. This tells the two zeros apart, unlike a
comparison. -/
theorem eq_of_parts_eq {x y : Float} (h : parts x = parts y) : x = y := by
  rw [← ofParts_parts x, h, ofParts_parts]

/-! ### Signs -/

/-- Negating a double changes its sign and leaves all else as it is. -/
theorem parts_neg : parts (-x) = (parts x).neg := by
  refine parts_ofParts ?_
  have hx := canonicalParts_parts x
  show CanonicalParts (parts x).neg
  cases h : parts x with
  | infinity | notANumber | zero => trivial
  | finite s m e hm =>
    rw [h] at hx
    exact hx

/-- Negating twice gives the double back, the two zeros included. -/
protected theorem neg_neg : - -x = x := by
  refine eq_of_parts_eq ?_
  rw [parts_neg, parts_neg]
  cases parts x with
  | notANumber => rfl
  | infinity s | zero s | finite s => cases s <;> rfl

/-- Zero is the zero with a plus sign. -/
theorem parts_zero : parts 0 = .zero .positive := by
  rw [show (0 : Float) = ofParts (.zero .positive) by decide]
  exact parts_ofParts trivial

/-- The negation of zero is the zero with a minus sign. It compares equal to zero but is another
double. -/
theorem parts_neg_zero : parts (-0) = .zero .negative := by
  rw [parts_neg, parts_zero]
  rfl

/-- The parts of minus one: a full mantissa and the exponent that takes it back to one. -/
theorem parts_neg_one : parts (-1) = .finite .negative (2 ^ 52) (-52) (by decide) := by
  rw [show (-1 : Float) = ofParts (.finite .negative (2 ^ 52) (-52) (by decide)) by decide]
  exact parts_ofParts ⟨by decide, by decide, by decide, by decide, .inl (by decide)⟩

/-- One double is below another if its parts are, by the comparison of unpacked numbers. -/
theorem lt_iff (x y : Float) : x < y ↔ (parts x).lt (parts y) = true := by
  show decide ((parts x).lt (parts y) = true) = true ↔ _
  exact decide_eq_true_iff

/-- One double is not above another if its parts are not, by the comparison of unpacked numbers. -/
theorem le_iff (x y : Float) : x ≤ y ↔ (parts x).le (parts y) = true := by
  show decide ((parts x).le (parts y) = true) = true ↔ _
  exact decide_eq_true_iff

/-- Two doubles compare equal if their parts do. This is equality but for the zeros, and for what is
no number. -/
theorem beq_iff (x y : Float) : (x == y) = true ↔ (parts x).beq (parts y) = true := Iff.rfl

/-- A double is less than zero just when it has a minus sign and is neither zero nor no number. So
the negative zero is not less than zero. -/
theorem lt_zero_iff :
    x < 0 ↔ parts x = .infinity .negative ∨ ∃ m e h, parts x = .finite .negative m e h := by
  rw [lt_iff, parts_zero]
  cases parts x with
  | notANumber => simp [UnpackedFloat.lt, UnpackedFloat.compare]
  | infinity s | zero s =>
    cases s <;> simp [UnpackedFloat.lt, UnpackedFloat.compare]
  | finite s m e hm =>
    cases s <;> simp [UnpackedFloat.lt, UnpackedFloat.compare, hm]

/-- Minus one is the only double that compares equal to minus one, because no other canonical parts
have its place. -/
theorem eq_neg_one_of_beq {x : Float} (h : (x == -1) = true) : x = -1 := by
  rw [beq_iff, parts_neg_one] at h
  refine eq_of_parts_eq ?_
  rw [parts_neg_one]
  -- Only a finite number with a minus sign can compare equal, and then both its exponent and its
  -- mantissa do.
  cases hx : parts x with
  | notANumber | zero s =>
    rw [hx] at h
    exact nomatch h
  | infinity s =>
    rw [hx] at h
    cases s <;> exact nomatch h
  | finite s m e hm =>
    rw [hx] at h
    cases s with
    | positive => exact nomatch h
    | negative =>
      have horder : (compare e (-52)).then (compare m (2 ^ 52)) = .eq := by
        simpa [UnpackedFloat.beq, UnpackedFloat.compare] using h
      obtain ⟨he, hm⟩ := Ordering.then_eq_eq.1 horder
      exact finite_congr (Std.LawfulEqOrd.compare_eq_iff_eq.1 hm)
        (Std.LawfulEqOrd.compare_eq_iff_eq.1 he)

/-- A finite double without a minus sign. These are the doubles that a numeral can stand for. -/
def Unsigned (x : Float) : Prop :=
  parts x = .zero .positive ∨ ∃ m e h, parts x = .finite .positive m e h

/-- A double is finite if its parts are. -/
theorem isFinite_iff (x : Float) : x.isFinite = true ↔ (parts x).isFinite = true := Iff.rfl

/-- A double without a minus sign that is a zero or has a mantissa is finite. -/
theorem Unsigned.isFinite {x : Float} (h : Unsigned x) : x.isFinite = true := by
  rw [isFinite_iff]
  obtain h | ⟨m, e, hm, h⟩ := h <;> rw [h] <;> rfl

/-- A double is finite just when its negation is. -/
theorem isFinite_neg : (-x).isFinite = x.isFinite := by
  show (parts (-x)).isFinite = (parts x).isFinite
  rw [parts_neg]
  cases parts x <;> rfl

/-- A finite double below zero is the negation of one without a sign. It is written as a minus sign
and the numeral of that one. -/
theorem unsigned_neg_of_lt_zero {x : Float} (hx : x.isFinite) (h : x < 0) : Unsigned (-x) := by
  unfold Unsigned
  rw [parts_neg]
  rcases (lt_zero_iff x).1 h with h | ⟨m, e, hm, h⟩
  · rw [isFinite_iff, h] at hx
    cases hx
  · rw [h]
    exact .inr ⟨m, e, hm, rfl⟩

/-- A finite double not below zero has no sign, or is the negative zero. The negative zero is the
one case in which the comparison with zero does not see the sign. -/
theorem unsigned_or_eq_neg_zero {x : Float} (hx : x.isFinite) (h : ¬ x < 0) :
    Unsigned x ∨ x = -0 := by
  rw [lt_zero_iff, not_or] at h
  rw [isFinite_iff] at hx
  -- Of the finite numbers only the zero with a sign is neither.
  cases hparts : parts x with
  | notANumber | infinity s =>
    rw [hparts] at hx
    cases hx
  | zero s =>
    cases s with
    | positive => exact .inl (.inl hparts)
    | negative => exact .inr (eq_of_parts_eq (hparts.trans parts_neg_zero.symm))
  | finite s m e hm =>
    cases s with
    | positive => exact .inl (.inr ⟨m, e, hm, hparts⟩)
    | negative => exact absurd ⟨m, e, hm, hparts⟩ h.2

end UnitPlane.Double
