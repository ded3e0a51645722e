import UnitPlane.Exponent

/-!
# `UnitPlane.Proofs.Exponent`: sums and products with nothing to cancel

Sums and products of exponents go through other numbers on the way, such as the numerators over a
common denominator, and each of these has to fit. So they may be refused although the result fits.
With nothing to cancel this does not happen: sums with zero and products with zero and one have no
number on the way that is larger than the result, and are never refused. These are the sums and
products that a written base unit leads to, since each base quantity stands in it once.

* `add?_zero`, `zero_add?`, `sub?_zero`: zero is no summand.
* `zero_sub?`: a difference from zero is the opposite, wherever the opposite fits.
* `zero_mul?`, `one_mul?`: products with zero and one.
-/

set_option autoImplicit false

namespace UnitPlane.Exponent

/-- An exponent is determined by the number it stands for. What it carries besides are only proofs
that this number fits. -/
theorem ext_val {a b : Exponent} (h : a.val = b.val) : a = b := by
  cases a
  cases b
  cases h
  rfl

/-- The exponent zero stands for the number zero. -/
@[simp] theorem val_zero : (0 : Exponent).val = 0 := by decide

/-- The exponent one stands for the number one. -/
@[simp] theorem val_one : (1 : Exponent).val = 1 := by decide

/-- Zero has the numerator zero. -/
@[simp] theorem num_zero : (0 : Exponent).num = 0 := rfl

/-- Zero has the denominator one, as an integer has. -/
@[simp] theorem den_zero : (0 : Exponent).den = 1 := rfl

/-- One has the numerator one. -/
@[simp] theorem num_one : (1 : Exponent).num = 1 := rfl

/-- One has the denominator one, as an integer has. -/
@[simp] theorem den_one : (1 : Exponent).den = 1 := rfl

/-- An exponent is determined by its numerator and denominator, since those of a number in lowest
terms determine the number. -/
theorem eq_of_num_den {a b : Exponent} (hn : a.num = b.num) (hd : a.den = b.den) : a = b :=
  ext_val (Rat.ext hn hd)

/-- The denominator is never zero, so it can be divided by. -/
theorem den_pos (e : Exponent) : 0 < e.den := e.val.den_pos

/-- A number that fits in 32 bits is passed on as it is. -/
theorem fit?_eq_some {n : Int} (h : Fits32 n) : fit? n = some n := if_pos h

/-- The numerator of an exponent fits in 32 bits. Exponents carry the proof of this with them. -/
theorem fits_num (e : Exponent) : Fits32 e.num := e.num_fits

/-- The denominator of an exponent fits in 32 bits. Exponents carry the proof of this with them. -/
theorem fits_den (e : Exponent) : Fits32 e.den := e.den_fits

/-- Numbers that fit make a fraction. It stands for the quotient of the two, which is put into
lowest terms. -/
theorem ofFraction?_eq_some {n d : Int} (hn : Fits32 n) (hd : Fits32 d) (hpos : 0 < d) :
    ∃ e, ofFraction? n d = some e ∧ e.val = mkRat n d.toNat := by
  rw [ofFraction?, dif_pos ⟨hn, hd, hpos⟩]
  exact ⟨_, rfl, rfl⟩

/-- The numerator and the denominator of an exponent give it back, because the exponent is already
in lowest terms. -/
theorem ofFraction?_num_den (e : Exponent) : ofFraction? e.num e.den = some e := by
  have hpos : (0 : Int) < e.den := by exact_mod_cast e.den_pos
  obtain ⟨e', he', hval⟩ := ofFraction?_eq_some e.fits_num e.fits_den hpos
  have hself : e' = e := by
    refine ext_val ?_
    rw [hval]
    exact Rat.mkRat_self e.val
  rw [he', hself]

/-! ### Opposites -/

/-- An exponent with the opposite sign, where its numerator still fits. The smallest integer is the
one numerator whose opposite does not. -/
def opposite (e : Exponent) (h : Fits32 (-e.num)) : Exponent where
  val := -e.val
  num_fits := by rwa [Rat.neg_num]
  den_fits := by
    rw [Rat.neg_den]
    exact e.den_fits

/-- The opposite has the opposite numerator. -/
@[simp] theorem num_opposite (e : Exponent) (h : Fits32 (-e.num)) : (e.opposite h).num = -e.num :=
  Rat.neg_num e.val

/-- The opposite has the same denominator, since the sign is kept in the numerator. -/
@[simp] theorem den_opposite (e : Exponent) (h : Fits32 (-e.num)) : (e.opposite h).den = e.den :=
  Rat.neg_den e.val

/-! ### Sums and differences -/

/-- A sum or difference is the fraction it is computed as, once all numbers on the way fit: the
common denominator `l`, both numerators over it, and what they are combined to. -/
theorem overCommonDenominator?_eq {combine : Int → Int → Int} {a b : Exponent} {l p q n : Int}
    (hl : ((a.den / a.den.gcd b.den * b.den : Nat) : Int) = l) (hp : l / a.den * a.num = p)
    (hq : l / b.den * b.num = q) (hn : combine p q = n) (fl : Fits32 l) (fp : Fits32 p)
    (fq : Fits32 q) (fn : Fits32 n) : overCommonDenominator? combine a b = ofFraction? n l := by
  -- The hypotheses name each number on the way, so that each check can be stepped over.
  subst hl hp hq hn
  simp only [overCommonDenominator?, fit?_eq_some fl, fit?_eq_some fp, fit?_eq_some fq,
    fit?_eq_some fn, Option.bind_eq_bind, Option.bind_some]

/-- Combining an exponent with zero on the right leaves it as it is, if that leaves numerators as
they are. Such a sum or difference is never refused. -/
theorem overCommonDenominator?_zero_right (combine : Int → Int → Int) (a : Exponent)
    (h : combine a.num 0 = a.num) : overCommonDenominator? combine a 0 = some a := by
  have hd : (a.den : Int) ≠ 0 := by exact_mod_cast Nat.ne_of_gt a.den_pos
  -- Zero has the denominator one, so the common denominator is that of the other exponent.
  rw [overCommonDenominator?_eq (l := a.den) (p := a.num) (q := 0) (by simp)
    (by rw [Int.ediv_self hd, Int.one_mul]) (by simp) h a.fits_den a.fits_num
      (by decide) a.fits_num]
  exact ofFraction?_num_den a

/-- Combining zero with an exponent is the fraction of the combined numerator over the exponent's
own denominator. It is refused only if this numerator does not fit. -/
theorem overCommonDenominator?_zero_left {combine : Int → Int → Int} {a : Exponent} {n : Int}
    (h : combine 0 a.num = n) (hn : Fits32 n) :
    overCommonDenominator? combine 0 a = ofFraction? n a.den := by
  have hd : (a.den : Int) ≠ 0 := by exact_mod_cast Nat.ne_of_gt a.den_pos
  exact overCommonDenominator?_eq (by simp) (by simp)
    (by rw [Int.ediv_self hd, Int.one_mul]) h a.fits_den (by decide) a.fits_num hn

/-- Adding zero on the right changes nothing and is never refused. -/
theorem add?_zero (a : Exponent) : a.add? 0 = some a :=
  overCommonDenominator?_zero_right _ a (Int.add_zero _)

/-- Adding zero on the left changes nothing and is never refused. -/
theorem zero_add? (a : Exponent) : (0 : Exponent).add? a = some a := by
  rw [add?, overCommonDenominator?_zero_left (Int.zero_add _) a.fits_num]
  exact ofFraction?_num_den a

/-- Subtracting zero changes nothing and is never refused. -/
theorem sub?_zero (a : Exponent) : a.sub? 0 = some a :=
  overCommonDenominator?_zero_right _ a (Int.sub_zero _)

/-- Subtracting from zero gives the opposite, if that fits. Base units with negative exponents are
read by such differences. -/
theorem zero_sub? (a : Exponent) (h : Fits32 (-a.num)) :
    (0 : Exponent).sub? a = some (a.opposite h) := by
  rw [sub?, overCommonDenominator?_zero_left (Int.zero_sub _) h]
  have := ofFraction?_num_den (a.opposite h)
  rwa [num_opposite, den_opposite] at this

/-! ### Products -/

/-- A product is the fraction it is computed as, once both of its numbers fit: each numerator is
first cancelled against the other's denominator, and what is left is multiplied. -/
theorem mul?_eq {a b : Exponent} {n d : Int}
    (hn : a.num / a.num.natAbs.gcd b.den * (b.num / a.den.gcd b.num.natAbs) = n)
    (hd : ((a.den / a.den.gcd b.num.natAbs * (b.den / a.num.natAbs.gcd b.den) : Nat) : Int) = d)
    (fn : Fits32 n) (fd : Fits32 d) : a.mul? b = ofFraction? n d := by
  subst hn hd
  simp only [mul?, fit?_eq_some fn, fit?_eq_some fd, Option.bind_eq_bind, Option.bind_some]

/-- Zero times an exponent is zero. Everything is cancelled against the denominator of zero's
partner, so nothing large is left to be refused. -/
theorem zero_mul? (a : Exponent) : (0 : Exponent).mul? a = some 0 := by
  rw [mul?_eq (n := 0) (d := 1) (by simp) (by simp [Nat.div_self a.den_pos]) (by decide)
    (by decide)]
  rfl

/-- One times an exponent is the exponent. There is nothing to cancel, and both of its own numbers
fit. -/
theorem one_mul? (a : Exponent) : (1 : Exponent).mul? a = some a := by
  rw [mul?_eq (n := a.num) (d := a.den) (by simp) (by simp) a.fits_num a.fits_den]
  exact ofFraction?_num_den a

end UnitPlane.Exponent
