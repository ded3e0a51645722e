/-!
# `UnitPlane.Exponent`: fractions of 32-bit integers

An `Exponent` is a rational number whose numerator and denominator, in lowest terms, fit 32 bits. It
is what a base quantity is raised to. Sums, differences and products are exact or absent: they are
refused as soon as a number on the way to the result, as listed beside each operation, does not fit.
That number may be larger than the result in lowest terms, so some results that would fit are
refused too.
-/

set_option autoImplicit false

namespace UnitPlane

/-- The integers of 32 bits. -/
def Fits32 (n : Int) : Prop := -2147483648 ≤ n ∧ n ≤ 2147483647

instance (n : Int) : Decidable (Fits32 n) := inferInstanceAs (Decidable (_ ∧ _))

/-- A rational number whose numerator and denominator fit 32 bits. -/
structure Exponent where
  val : Rat
  num_fits : Fits32 val.num
  den_fits : Fits32 val.den
deriving DecidableEq

namespace Exponent

/-- The numerator in lowest terms. -/
def num (e : Exponent) : Int := e.val.num

/-- The denominator in lowest terms, always positive. -/
def den (e : Exponent) : Nat := e.val.den

/-- A quotient by a divisor of at least one is no larger than the dividend. -/
theorem fits32_div {n : Int} (g : Nat) (h : Fits32 n) : Fits32 (n / g) := by
  unfold Fits32 at *
  rcases Nat.eq_zero_or_pos g with rfl | hg
  · simp
  · have hg : (1 : Int) ≤ g := by omega
    constructor
    · rw [Int.le_ediv_iff_mul_le (by omega)]
      omega
    · rcases Int.lt_or_le n 0 with hn | hn
      · have := Int.ediv_neg_of_neg_of_pos hn (show (0 : Int) < g by omega)
        omega
      · exact Int.le_trans (Int.ediv_le_self _ hn) h.2

/-- The fraction `n / d` in lowest terms. -/
def ofFraction (n : Int) (d : Nat) (hn : Fits32 n) (hd : Fits32 d) : Exponent where
  val := mkRat n d
  num_fits := by
    rw [Rat.num_mkRat]
    split
    · decide
    · exact fits32_div _ hn
  den_fits := by
    rw [Rat.den_mkRat]
    split
    · decide
    · exact_mod_cast fits32_div (d.gcd n.natAbs) hd

/-- An integer as an exponent. -/
def ofInt32 (n : Int32) : Exponent :=
  ofFraction n.toInt 1 ⟨n.le_toInt, Int.le_of_lt_add_one n.toInt_lt⟩ (by decide)

instance : OfNat Exponent 0 := ⟨ofInt32 0⟩
instance : OfNat Exponent 1 := ⟨ofInt32 1⟩
instance : Inhabited Exponent := ⟨0⟩

/-- The fraction `n / d`, where both numbers fit 32 bits and `d` is positive. -/
def ofFraction? (n d : Int) : Option Exponent :=
  if h : Fits32 n ∧ Fits32 d ∧ 0 < d then
    some (ofFraction n d.toNat h.1 (by rw [Int.toNat_of_nonneg (by omega)]; exact h.2.1))
  else none

/-- The quotient `n / d` for any sign of `d`, if it fits in lowest terms. -/
def ofQuotient? (n d : Int) : Option Exponent :=
  let q := Rat.divInt n d
  if h : d ≠ 0 ∧ Fits32 q.num ∧ Fits32 q.den then some ⟨q, h.2.1, h.2.2⟩ else none

/-- A 32-bit integer, or nothing. -/
def fit? (n : Int) : Option Int := if Fits32 n then some n else none

/-- A sum or difference over the least common denominator `l`. What has to fit is `l`, both
numerators over `l`, and `combine` of them. -/
def overCommonDenominator? (combine : Int → Int → Int) (a b : Exponent) : Option Exponent := do
  let l ← fit? ((a.den / a.den.gcd b.den * b.den : Nat) : Int)
  let p ← fit? (l / a.den * a.num)
  let q ← fit? (l / b.den * b.num)
  let n ← fit? (combine p q)
  ofFraction? n l

/-- The sum, over the least common denominator. -/
def add? (a b : Exponent) : Option Exponent := overCommonDenominator? (· + ·) a b

/-- The difference, over the least common denominator. -/
def sub? (a b : Exponent) : Option Exponent := overCommonDenominator? (· - ·) a b

/-- The product, after each numerator is cancelled against the other's denominator. What has to fit
is the product of the numerators and the product of the denominators that remain. -/
def mul? (a b : Exponent) : Option Exponent := do
  let g := a.num.natAbs.gcd b.den
  let h := a.den.gcd b.num.natAbs
  let n ← fit? (a.num / g * (b.num / h))
  let d ← fit? ((a.den / h * (b.den / g) : Nat) : Int)
  ofFraction? n d

/-- `n`, or `n/d` where the denominator is not one. -/
def text (e : Exponent) : String :=
  if e.den = 1 then toString e.num else s!"{e.num}/{e.den}"

end Exponent

end UnitPlane
