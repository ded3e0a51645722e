import UnitPlane.Proofs.Exponent.Exact
import UnitPlane.Proofs.Support.Except

/-!
# `UnitPlane.Proofs.Exponent.Stored`: fractions as pairs of 32-bit integers

An exponent is stored as its numerator and its denominator, and both are computed one 32-bit step
after another. A product or a sum of two integers is checked, and the whole operation is refused
where it does not fit. A greatest common divisor, a quotient and a change of sign are not checked:
they `trap`, where their result does not fit or the divisor is zero. The smallest integer is the
dangerous one, since its opposite, its quotient by minus one and its common divisor with zero do not
fit.

On what is stored of exponents no operation traps. Each gives what is stored of its result, or is
refused just where the exponent is absent: `Ratio.sum_stored`, `Ratio.difference_stored` and
`Ratio.product_stored`.
-/

set_option autoImplicit false

namespace UnitPlane

/-- Why a computation with 32-bit integers stops. -/
inductive Stop where
  /-- A checked step does not fit. -/
  | refused
  /-- An unchecked step does not fit, or divides by zero. -/
  | trapped
deriving DecidableEq

namespace Stop

/-- An absent result is a refusal. Where the operations on exponents have no result, those on stored
fractions stop and say why. -/
def orRefused {α : Type} : Option α → Except Stop α
  | some a => .ok a
  | none => .error refused

/-- A step that is checked: a result that does not fit ends the computation with a refusal, which
the caller can report. -/
def checked (n : ℤ) : Except Stop ℤ := if Fits32 n then .ok n else .error refused

/-- A step that is not checked: a result that does not fit ends the computation with a trap, and
with it the program. -/
def unchecked (n : ℤ) : Except Stop ℤ := if Fits32 n then .ok n else .error trapped

/-- The quotient, rounded towards zero. It traps for the divisor zero, and for the smallest integer
divided by minus one. -/
def quotient (n d : ℤ) : Except Stop ℤ := if d = 0 then .error trapped else unchecked (n.tdiv d)

/-- The greatest common divisor, which is computed without a check. It does not fit where both
numbers are zero or the smallest integer. -/
def divisor (m n : ℤ) : Except Stop ℤ := unchecked (m.gcd n)

end Stop

/-- A fraction as it is stored. Nothing is said of its numbers here, so that every pair of integers
can be given to the operations. -/
structure Ratio where
  num : ℤ
  den : ℤ
deriving DecidableEq

namespace Ratio

open Stop

/-- A fraction in lowest terms, with a positive denominator, of integers that fit. -/
structure Reduced (r : Ratio) : Prop where
  num_fits : Fits32 r.num
  den_fits : Fits32 r.den
  den_pos : 0 < r.den
  coprime : r.num.gcd r.den = 1

/-- The number that is stored. -/
def val (r : Ratio) : ℚ := r.num / r.den

/-- The fraction in lowest terms. A negative denominator gives its sign to the numerator. Two cases
are taken out first, and the other steps are not checked. -/
def reduce (n d : ℤ) : Except Stop Ratio :=
  if d = 0 then .error trapped
  else if n = 0 then .ok ⟨0, 1⟩
  else if n = d then .ok ⟨1, 1⟩
  else do
    let g ← divisor n d
    let n ← quotient n g
    let d ← quotient d g
    if d < 0 then .ok ⟨← unchecked (0 - n), ← unchecked (0 - d)⟩ else .ok ⟨n, d⟩

/-- A combination of the numerators over the least common denominator. -/
def overCommonDenominator (combine : ℤ → ℤ → ℤ) (a b : Ratio) : Except Stop Ratio := do
  let g ← divisor a.den b.den
  let l ← checked ((← quotient a.den g) * b.den)
  let p ← checked ((← quotient l a.den) * a.num)
  let q ← checked ((← quotient l b.den) * b.num)
  reduce (← checked (combine p q)) l

/-- The sum of two fractions, over their least common denominator. -/
def sum (a b : Ratio) : Except Stop Ratio := overCommonDenominator (· + ·) a b

/-- The difference of two fractions, over their least common denominator. -/
def difference (a b : Ratio) : Except Stop Ratio := overCommonDenominator (· - ·) a b

/-- The product, after each numerator is cancelled against the other's denominator. -/
def product (a b : Ratio) : Except Stop Ratio := do
  let g ← divisor a.num b.den
  let h ← divisor a.den b.num
  let n ← checked ((← quotient a.num g) * (← quotient b.num h))
  let d ← checked ((← quotient a.den h) * (← quotient b.den g))
  reduce n d

/-- An integer added to a fraction. Nothing is checked here, so a sum that does not fit traps. -/
def addInteger (a : Ratio) (n : ℤ) : Except Stop Ratio := do
  let p ← unchecked (n * a.den)
  reduce (← unchecked (a.num + p)) a.den

end Ratio

namespace Exponent

/-- An exponent as it is stored: its numerator and its denominator, which are in lowest terms. -/
def stored (e : Exponent) : Ratio := ⟨e.num, e.den⟩

variable {a b : Exponent}

/-- What is stored of an exponent is in lowest terms, with a positive denominator, and both of its
numbers fit. The exponent carries the proofs of this with it. -/
theorem reduced_stored (e : Exponent) : e.stored.Reduced where
  num_fits := e.num_fits
  den_fits := e.den_fits
  den_pos := Int.natCast_pos.2 e.den_pos
  coprime := e.val.reduced

/-- The number that is stored is the number that the exponent stands for. -/
theorem val_stored (e : Exponent) : e.stored.val = e.val := by
  rw [val_eq_div]
  exact congrArg _ (Int.cast_natCast _)

/-- An integer as an exponent. Its denominator is one. -/
def ofInteger (n : ℤ) (h : Fits32 n) : Exponent := ⟨n, h, show Fits32 1 by decide⟩

/-- A fraction over one is the integer, and is there whenever the integer fits. -/
theorem ofFraction?_one {n : ℤ} (h : Fits32 n) : ofFraction? n 1 = some (ofInteger n h) := by
  obtain ⟨e, he, hval⟩ := ofFraction?_eq_some h (d := 1) (by decide) (by decide)
  rw [he, ext_val (hval.trans (Rat.mkRat_one n)) (b := ofInteger n h)]

/-- Fractions in lowest terms are equal just when the numbers are. So stored fractions may be
compared part by part. -/
theorem stored_inj : a.stored = b.stored ↔ a.val = b.val := by
  refine ⟨fun h => ?_, fun h => by rw [ext_val h]⟩
  rw [← val_stored, h, val_stored]

/-- Whatever is in lowest terms is an exponent as it is stored. So what is known of exponents is
known of all such fractions. -/
theorem exists_stored {r : Ratio} (hr : r.Reduced) : ∃ e : Exponent, e.stored = r := by
  obtain ⟨n, d⟩ := r
  obtain ⟨hn, hd, hpos, hcoprime⟩ := hr
  lift d to ℕ using hpos.le
  exact ⟨⟨⟨n, d, (Int.natCast_pos.1 hpos).ne', hcoprime⟩, hn, hd⟩, rfl⟩

end Exponent

/-! ### Single steps -/

namespace Stop

variable {α : Type} {m n d : ℤ}

/-- A step that is not checked goes on if its result fits. That it does is what has to be shown for
each such step. -/
theorem unchecked_eq (h : Fits32 n) : unchecked n = .ok n := if_pos h

/-- A checked step goes on from its result, or is refused as the exponent is absent. The steps of
both computations are compared pair by pair with this. -/
theorem checked_bind {f : ℤ → Except Stop α} {g : ℤ → Option α}
    (h : Fits32 n → f n = orRefused (g n)) :
    (checked n >>= f) = orRefused ((Exponent.fit? n).bind g) := by
  unfold checked Exponent.fit?
  by_cases hn : Fits32 n
  · rw [if_pos hn, if_pos hn]
    exact h hn
  · rw [if_neg hn, if_neg hn]
    rfl

/-- A quotient without a remainder by a positive divisor fits, because it is no larger than the
dividend. So it does not trap. -/
theorem quotient_eq (hn : Fits32 n) (hd : 0 < d) (hdvd : d ∣ n) : quotient n d = .ok (n / d) := by
  lift d to ℕ using hd.le
  rw [quotient, if_neg hd.ne', Int.tdiv_eq_ediv_of_dvd hdvd]
  exact unchecked_eq (Exponent.fits32_div d hn)

/-- A greatest common divisor with a positive number is no larger than it, so it fits and does not
trap. Denominators are such numbers. -/
theorem divisor_eq (hn : Fits32 n) (hpos : 0 < n) : divisor m n = .ok (m.gcd n) := by
  have hle : (m.gcd n : ℤ) ≤ n := Int.le_of_dvd hpos (Int.gcd_dvd_right m n)
  refine unchecked_eq ?_
  unfold Fits32 at *
  omega

/-- The greatest common divisor does not depend on the order of the two numbers. -/
theorem divisor_comm (m n : ℤ) : divisor m n = divisor n m := by
  rw [divisor, divisor, Int.gcd_comm]

end Stop

namespace Ratio

open Stop Exponent

variable {a b : Exponent} {n d : ℤ}

/-- A fraction of integers that fit is reduced to its lowest terms, without a trap. The denominator
is positive, so the divisor fits, and both quotients are without a remainder. -/
theorem reduce_eq (hn : Fits32 n) (hd : Fits32 d) (hpos : 0 < d) :
    reduce n d = orRefused ((ofFraction? n d).map stored) := by
  obtain ⟨e, he, hval⟩ := ofFraction?_eq_some hn hd hpos
  rw [he]
  lift d to ℕ using hpos.le
  rw [Int.toNat_natCast] at hval
  have hd0 : d ≠ 0 := by exact_mod_cast hpos.ne'
  have hg : 0 < n.gcd d := Int.gcd_pos_of_ne_zero_right n hpos.ne'
  -- What is stored of the exponent are the quotients by the greatest common divisor, which is what
  -- the computation divides by too.
  have hnum : e.num = n / n.gcd d := by
    show e.val.num = _
    rw [hval, Rat.num_mkRat, if_neg hd0, Nat.gcd_comm]
    rfl
  have hden : (e.den : ℤ) = d / n.gcd d := by
    show (e.val.den : ℤ) = _
    rw [hval, Rat.den_mkRat, if_neg hd0, Nat.gcd_comm]
    rfl
  have hstored : e.stored = ⟨n / n.gcd d, d / n.gcd d⟩ := by
    rw [← hnum, ← hden]
    rfl
  show _ = Except.ok e.stored
  rw [hstored, reduce, if_neg hpos.ne']
  by_cases hzero : n = 0
  · subst hzero
    rw [if_pos rfl]
    simp [hd0]
  rw [if_neg hzero]
  by_cases hone : n = d
  · subst hone
    rw [if_pos rfl]
    simp [hd0]
  -- No number is negated, because the denominator stays positive.
  rw [if_neg hone, divisor_eq hd hpos]
  have hdpos : 0 < (d : ℤ) / n.gcd d := by
    rw [← hden]
    exact_mod_cast e.den_pos
  simp only [Except.ok_bind, quotient_eq hn (Int.natCast_pos.2 hg) (Int.gcd_dvd_left n d),
    quotient_eq hd (Int.natCast_pos.2 hg) (Int.gcd_dvd_right n d), if_neg hdpos.not_gt]

/-- A combination over the least common denominator is refused just where that of the exponents is
absent, and is otherwise what is stored of it. The unchecked steps divide by divisors of what they
divide. -/
theorem overCommonDenominator_stored (combine : ℤ → ℤ → ℤ) (a b : Exponent) :
    overCommonDenominator combine a.stored b.stored =
      orRefused ((overCommonDenominator? combine a b).map stored) := by
  have ha : (0 : ℤ) < a.den := Int.natCast_pos.2 a.den_pos
  have hb : (0 : ℤ) < b.den := Int.natCast_pos.2 b.den_pos
  have hg : (0 : ℤ) < a.den.gcd b.den := Int.natCast_pos.2 (Nat.gcd_pos_of_pos_left _ a.den_pos)
  have hga : (a.den.gcd b.den : ℤ) ∣ a.den := Int.natCast_dvd_natCast.2 (Nat.gcd_dvd_left _ _)
  have hlcm : a.den / a.den.gcd b.den * b.den = a.den.lcm b.den :=
    Nat.div_mul_right_comm (Nat.gcd_dvd_left _ _) _
  have hla : (a.den : ℤ) ∣ a.den.lcm b.den := Int.natCast_dvd_natCast.2 (Nat.dvd_lcm_left _ _)
  have hlb : (b.den : ℤ) ∣ a.den.lcm b.den := Int.natCast_dvd_natCast.2 (Nat.dvd_lcm_right _ _)
  have hlpos : (0 : ℤ) < a.den.lcm b.den := Int.natCast_pos.2 (Nat.lcm_pos a.den_pos b.den_pos)
  unfold overCommonDenominator overCommonDenominator?
  simp only [stored, divisor_eq b.fits_den hb, Int.gcd_natCast_natCast, Except.ok_bind,
    quotient_eq a.fits_den hg hga, Option.bind_eq_bind, Option.map_bind, Function.comp_def]
  rw [← Int.natCast_div, ← Int.natCast_mul, hlcm]
  -- Both computations take the same steps from here, and each step either is refused or goes on.
  refine checked_bind fun hl => ?_
  rw [quotient_eq hl ha hla, Except.ok_bind]
  refine checked_bind fun _ => ?_
  rw [quotient_eq hl hb hlb, Except.ok_bind]
  refine checked_bind fun _ => ?_
  exact checked_bind fun hn => reduce_eq hn hl hlpos

/-- The sum of two stored exponents is what is stored of their sum, or is refused where that is
absent. -/
theorem sum_stored (a b : Exponent) : sum a.stored b.stored = orRefused ((a.add? b).map stored) :=
  overCommonDenominator_stored _ a b

/-- The difference of two stored exponents is what is stored of their difference, or is refused
where that is absent. -/
theorem difference_stored (a b : Exponent) :
    difference a.stored b.stored = orRefused ((a.sub? b).map stored) :=
  overCommonDenominator_stored _ a b

/-- The product of two stored exponents is what is stored of their product, or is refused where that
is absent. The common divisors that are cancelled are positive, since they divide a denominator. -/
theorem product_stored (a b : Exponent) :
    product a.stored b.stored = orRefused ((a.mul? b).map stored) := by
  have ha : (0 : ℤ) < a.den := Int.natCast_pos.2 a.den_pos
  have hb : (0 : ℤ) < b.den := Int.natCast_pos.2 b.den_pos
  have hg : (0 : ℤ) < a.num.gcd b.den := Int.natCast_pos.2 (Int.gcd_pos_of_ne_zero_right _ hb.ne')
  have hh : (0 : ℤ) < (a.den : ℤ).gcd b.num :=
    Int.natCast_pos.2 (Int.gcd_pos_of_ne_zero_left _ ha.ne')
  unfold product mul?
  simp only [stored, divisor_eq b.fits_den hb, divisor_comm (a.den : ℤ) b.num,
    divisor_eq a.fits_den ha, Int.gcd_comm b.num, Except.ok_bind,
    quotient_eq a.fits_num hg (Int.gcd_dvd_left _ _),
    quotient_eq b.fits_num hh (Int.gcd_dvd_right _ _),
    quotient_eq a.fits_den hh (Int.gcd_dvd_left _ _),
    quotient_eq b.fits_den hg (Int.gcd_dvd_right _ _),
    Option.bind_eq_bind, Option.map_bind, Function.comp_def]
  -- What is left are the two products that are checked: that of the numerators and that of the
  -- denominators.
  refine checked_bind fun hn => ?_
  have hpos : 0 < (a.den : ℤ) / (a.den : ℤ).gcd b.num * (b.den / a.num.gcd b.den) :=
    mul_pos (Int.ediv_pos_of_pos_of_dvd ha hh.le (Int.gcd_dvd_left _ _))
      (Int.ediv_pos_of_pos_of_dvd hb hg.le (Int.gcd_dvd_right _ _))
  rw [Int.natCast_mul, Int.natCast_div, Int.natCast_div]
  exact checked_bind fun hd => reduce_eq hn hd hpos

/-- The sum with an integer, where both are integers and the sum fits. Nothing has to be reduced,
and the steps that are not checked do not trap. -/
theorem addInteger_stored {m k : ℤ} (hm : Fits32 m) (hn : Fits32 n) (hk : Fits32 k)
    (h : m + n = k) :
    addInteger (ofInteger m hm).stored n = .ok (ofInteger k hk).stored := by
  have hmul : unchecked (n * 1) = .ok n := by rw [mul_one, unchecked_eq hn]
  unfold addInteger
  show (unchecked (n * 1) >>= fun p => unchecked (m + p) >>= fun q => reduce q 1) = _
  rw [hmul, Except.ok_bind, h, unchecked_eq hk, Except.ok_bind,
    reduce_eq hk (by decide) (by decide), ofFraction?_one hk]
  rfl

end Ratio

end UnitPlane
