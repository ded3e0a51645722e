import Mathlib.Algebra.BigOperators.Field
import Mathlib.Data.Fintype.Basic
import UnitPlane.Proofs.Dimension
import UnitPlane.Proofs.Exponent.Fraction
import UnitPlane.Proofs.Formula.Typing

/-!
# `UnitPlane.Proofs.Formula.Rescaling`: dimensions say how values change with the units

Where other base units are chosen, the number of a quantity is multiplied by a product of powers of
the factors between the old units and the new ones, and the dimension says which. A formula that has
a dimension respects that: if the numbers of `x` and `y` are multiplied as their dimensions say,
then the value of the formula is multiplied as its dimension says.

The values are rational numbers here, so that nothing is rounded. A power has an integer as its
exponent, because other powers of rational numbers need not be rational.

* `Operator.rational?_of_rule` and `Operator.rational?_pow_of_rule`: the law for one operator.
* `Tree.rational?_rescaled`: the law for a formula.
-/

set_option autoImplicit false

namespace UnitPlane

/-! ### Factors -/

/-- There are finitely many base quantities. -/
local instance fintypeBase : Fintype Base where
  elems := ⟨Base.all, by decide⟩
  complete := by
    intro b
    cases b <;> decide

namespace Dimension

/-- All exponents are integers, so that the factors of the base quantities have integer powers. -/
def Integral (d : Dimension) : Prop := ∀ b, (d.exponent b).den = 1

/-- The factor of a quantity where that of each base quantity is given. Only the numerators of the
exponents count, so it is meant for integral dimensions. -/
def factor (d : Dimension) (s : Base → ℚ) : ℚ := ∏ b, s b ^ (d.exponent b).num

variable {d e r : Dimension} {s : Base → ℚ}

/-- Where the denominators are one, an exponent has the value of its numerator. -/
theorem Integral.val_eq (h : d.Integral) (b : Base) : (d.exponent b).val = (d.exponent b).num :=
  Exponent.val_eq_num (h b)

/-- A pure number has the exponents zero, which are integers. -/
theorem integral_dimensionless : dimensionless.Integral := by
  intro b
  cases b <;> rfl

/-- A pure number stays as it is whatever the base units are. -/
theorem factor_dimensionless (s : Base → ℚ) : dimensionless.factor s = 1 := by
  refine Finset.prod_eq_one fun b _ => ?_
  cases b <;> exact zpow_zero _

/-- No factor is zero. So a rescaled number is zero just when it was before, and the same divisions
have a result. -/
theorem factor_ne_zero (hs : ∀ b, 0 < s b) (d : Dimension) : d.factor s ≠ 0 :=
  Finset.prod_ne_zero_iff.2 fun b _ => zpow_ne_zero _ (hs b).ne'

/-- Exponents with integer values are integral, and the factor has these powers. The values decide,
because an exponent is stored in lowest terms. -/
theorem integral_and_factor_eq {f : Base → ℤ} (h : ∀ b, (d.exponent b).val = f b) :
    d.Integral ∧ d.factor s = ∏ b, s b ^ f b := by
  constructor
  · intro b
    rw [Exponent.den, h b]
    rfl
  · refine Finset.prod_congr rfl fun b _ => ?_
    rw [Exponent.num, h b]
    rfl

/-- The factor of a product is the product of the factors. The exponents add up, as they do in a
product of powers. -/
theorem factor_of_mul? (hs : ∀ b, 0 < s b) (hd : d.Integral) (he : e.Integral)
    (h : d.mul? e = some r) : r.Integral ∧ r.factor s = d.factor s * e.factor s := by
  have hval (b : Base) : (r.exponent b).val = ((d.exponent b).num + (e.exponent b).num : ℤ) := by
    rw [val_of_mul? h b, hd.val_eq b, he.val_eq b, Int.cast_add]
  obtain ⟨hr, hfactor⟩ := integral_and_factor_eq hval
  refine ⟨hr, ?_⟩
  rw [hfactor, factor, factor, ← Finset.prod_mul_distrib]
  exact Finset.prod_congr rfl fun b _ => zpow_add₀ (hs b).ne' _ _

/-- The factor of a quotient is the quotient of the factors, and its exponents are differences. -/
theorem factor_of_div? (hs : ∀ b, 0 < s b) (hd : d.Integral) (he : e.Integral)
    (h : d.div? e = some r) : r.Integral ∧ r.factor s = d.factor s / e.factor s := by
  have hval (b : Base) : (r.exponent b).val = ((d.exponent b).num - (e.exponent b).num : ℤ) := by
    rw [val_of_div? h b, hd.val_eq b, he.val_eq b, Int.cast_sub]
  obtain ⟨hr, hfactor⟩ := integral_and_factor_eq hval
  refine ⟨hr, ?_⟩
  rw [hfactor, factor, factor, ← Finset.prod_div_distrib]
  exact Finset.prod_congr rfl fun b _ => zpow_sub₀ (hs b).ne' _ _

/-- The factor of a power to an integer is the power of the factor. Each exponent is multiplied by
that integer. -/
theorem factor_of_pow? {p : Exponent} {n : ℤ} (hd : d.Integral) (hp : p.val = n)
    (h : d.pow? p = some r) : r.Integral ∧ r.factor s = d.factor s ^ n := by
  have hval (b : Base) : (r.exponent b).val = ((d.exponent b).num * n : ℤ) := by
    rw [val_of_pow? h b, hd.val_eq b, hp, Int.cast_mul]
  obtain ⟨hr, hfactor⟩ := integral_and_factor_eq hval
  refine ⟨hr, ?_⟩
  rw [hfactor, factor, ← Finset.prod_zpow]
  exact Finset.prod_congr rfl fun b _ => zpow_mul _ _ _

end Dimension

/-! ### Rational values -/

/-- The value of an operator on rational numbers. There is none for a division by zero, and a power
needs an integer as its exponent. -/
def Operator.rational? : Operator → ℚ → ℚ → Option ℚ
  | add, l, r => some (l + r)
  | sub, l, r => some (l - r)
  | mul, l, r => some (l * r)
  | div, l, r => if r = 0 then none else some (l / r)
  | pow, l, r => if r.den ≠ 1 ∨ l = 0 ∧ r < 0 then none else some (l ^ r.num)

namespace Tree

/-- The value of a formula where the variables are rational numbers, and numbers are what they are
exactly. There is none where something is divided by zero. -/
def rational? (x y : ℚ) : Tree → Option ℚ
  | var .x => some x
  | var .y => some y
  | literal value => Double.toRat? value
  | binary op l r => do op.rational? (← l.rational? x y) (← r.rational? x y)

/-- Every power has a number as its exponent, and the number is an integer. -/
def IntegerPowers : Tree → Prop
  | var _ | literal _ => True
  | binary op l r =>
    l.IntegerPowers ∧ r.IntegerPowers ∧
      (op = .pow → ∃ (value : Float) (n : ℤ), r = literal value ∧
        Double.toRat? value = some (n : ℚ))

end Tree

/-! ### Rescaling -/

namespace Operator

variable {l r d : Dimension} {s : Base → ℚ} {constant : Option Float}

/-- A sum, difference, product or quotient of rescaled numbers is rescaled as its dimension says. It
has a value just when the operator has one before. -/
theorem rational?_of_rule {op : Operator} (h : op.Rule constant l r d) (hop : op ≠ .pow)
    (hs : ∀ b, 0 < s b) (hl : l.Integral) (hr : r.Integral) :
    d.Integral ∧ ∀ a b, op.rational? (l.factor s * a) (r.factor s * b) =
      (op.rational? a b).map (d.factor s * ·) := by
  cases h with
  | add d | sub d =>
    -- Both operands have the dimension of the result, so its factor is a common one.
    refine ⟨hl, fun a b => ?_⟩
    simp only [rational?, Option.map_some, mul_add, mul_sub]
  | mul h =>
    obtain ⟨hd, hfactor⟩ := Dimension.factor_of_mul? hs hl hr h
    refine ⟨hd, fun a b => ?_⟩
    simp only [rational?, Option.map_some, hfactor]
    rw [mul_mul_mul_comm]
  | div h =>
    obtain ⟨hd, hfactor⟩ := Dimension.factor_of_div? hs hl hr h
    refine ⟨hd, fun a b => ?_⟩
    have hzero : r.factor s * b = 0 ↔ b = 0 :=
      mul_eq_zero.trans (or_iff_right (Dimension.factor_ne_zero hs r))
    by_cases hb : b = 0
    · simp only [rational?, if_pos hb, if_pos (hzero.2 hb), Option.map_none]
    · simp only [rational?, if_neg hb, if_neg (mt hzero.1 hb), Option.map_some, hfactor,
        mul_div_mul_comm]
  | powOfNumber | pow => exact absurd rfl hop

/-- The power of a rescaled number to an integer is rescaled as its dimension says. A pure number is
allowed any exponent, but it is not rescaled at all. -/
theorem rational?_pow_of_rule {value : Float} {n : ℤ} (hvalue : Double.toRat? value = some (n : ℚ))
    (h : pow.Rule (some value) l r d) (hs : ∀ b, 0 < s b) (hl : l.Integral) :
    d.Integral ∧ ∀ a, pow.rational? (l.factor s * a) n =
      (pow.rational? a n).map (d.factor s * ·) := by
  -- The dimension has the exponent that the rule reads from the number, and this is the integer.
  have hd : d.Integral ∧ d.factor s = l.factor s ^ n := by
    cases h with
    | powOfNumber => exact ⟨hl, by rw [Dimension.factor_dimensionless, one_zpow]⟩
    | pow hne hv hp h =>
      cases hv
      exact Dimension.factor_of_pow? hl (Exponent.val_of_ofFloat? hvalue hp) h
  refine ⟨hd.1, fun a => ?_⟩
  have hzero : l.factor s * a = 0 ↔ a = 0 :=
    mul_eq_zero.trans (or_iff_right (Dimension.factor_ne_zero hs l))
  simp only [rational?, hzero, Rat.num_intCast]
  split
  · rfl
  · rw [Option.map_some, hd.2, mul_zpow]

end Operator

namespace Tree

/-- A formula with a typing has values that change as its dimension says. The step is the law for
one operator, with the typings of its operands. -/
theorem rational?_of_typing? {t : Tree} {dx dy : Dimension} {ty : Typing} {s : Base → ℚ}
    (h : t.typing? dx dy = .ok ty) (ht : t.IntegerPowers) (hdx : dx.Integral) (hdy : dy.Integral)
    (hs : ∀ b, 0 < s b) :
    ty.dimension.Integral ∧ ∀ x y, t.rational? (dx.factor s * x) (dy.factor s * y) =
      (t.rational? x y).map (ty.dimension.factor s * ·) := by
  -- The induction is on the tree. The typing of an operation comes from those of its operands, to
  -- which the hypothesis applies.
  induction t generalizing ty with
  | var v =>
    rw [typing?_var] at h
    cases h
    cases v with
    | x => exact ⟨hdx, fun x y => rfl⟩
    | y => exact ⟨hdy, fun x y => rfl⟩
  | literal value =>
    rw [typing?_literal] at h
    cases h
    refine ⟨Dimension.integral_dimensionless, fun x y => ?_⟩
    simp [rational?, Dimension.factor_dimensionless]
  | binary op l r ihl ihr =>
    rw [typing?_binary] at h
    obtain ⟨left, hleft, h⟩ := Except.bind_eq_ok.1 h
    obtain ⟨right, hright, h⟩ := Except.bind_eq_ok.1 h
    obtain ⟨d, hd, h⟩ := Except.bind_eq_ok.1 h
    cases h
    have hrule := Operator.combine_eq_ok_iff.1 hd
    obtain ⟨hlpowers, hrpowers, hpow⟩ := ht
    obtain ⟨hl, hlvalue⟩ := ihl hleft hlpowers
    obtain ⟨hr, hrvalue⟩ := ihr hright hrpowers
    by_cases hop : op = .pow
    · -- The exponent is a number, which no factor changes.
      subst hop
      obtain ⟨value, n, rfl, hvalue⟩ := hpow rfl
      rw [typing?_literal] at hright
      cases hright
      obtain ⟨hdi, hdvalue⟩ := Operator.rational?_pow_of_rule hvalue hrule hs hl
      refine ⟨hdi, fun x y => ?_⟩
      simp only [rational?, hlvalue, hvalue]
      cases l.rational? x y with
      | none => rfl
      | some a => exact hdvalue a
    · obtain ⟨hdi, hdvalue⟩ := Operator.rational?_of_rule hrule hop hs hl hr
      refine ⟨hdi, fun x y => ?_⟩
      simp only [rational?, hlvalue, hrvalue]
      cases l.rational? x y with
      | none => rfl
      | some a =>
        cases r.rational? x y with
        | none => rfl
        | some b => exact hdvalue a b

/-- A formula that has a dimension gives the same quantity whatever the base units are: where the
numbers of `x` and `y` are multiplied by the factors of their dimensions, its value is there just
when it was before, and is multiplied by the factor of its dimension. -/
theorem rational?_rescaled {t : Tree} {dx dy d : Dimension} {s : Base → ℚ} (ht : t.IntegerPowers)
    (hdx : dx.Integral) (hdy : dy.Integral) (hs : ∀ b, 0 < s b) (h : t.dimension? dx dy = .ok d) :
    d.Integral ∧ ∀ x y, t.rational? (dx.factor s * x) (dy.factor s * y) =
      (t.rational? x y).map (d.factor s * ·) := by
  obtain ⟨ty, hty, h⟩ := Except.bind_eq_ok.1 h
  cases h
  exact rational?_of_typing? hty ht hdx hdy hs

/-- Where a length is counted in thirds and a time in halves, a length squared over a time is
counted in ninths of twice the unit. -/
theorem rational?_rescaled_square :
    ∃ t : Tree, t.dimension? { length := 1 } { time := 1 } =
        .ok { length := .ofInt32 2, time := .ofInt32 (-1) } ∧
      t.rational? 5 7 = some (25 / 7) ∧ t.rational? (3 * 5) (2 * 7) = some (9 / 2 * (25 / 7)) := by
  let t : Tree := .binary .div (.binary .pow (.var .x) (.literal 2)) (.var .y)
  let s : Base → ℚ := fun b => if b = .length then 3 else if b = .time then 2 else 1
  let dx : Dimension := { length := 1 }
  let dy : Dimension := { time := 1 }
  let d : Dimension := { length := .ofInt32 2, time := .ofInt32 (-1) }
  have hpowers : t.IntegerPowers :=
    ⟨⟨trivial, trivial, fun _ => ⟨2, 2, rfl, by decide +kernel⟩⟩, trivial, fun h => nomatch h⟩
  have hdx : dx.Integral := by
    intro b
    cases b <;> rfl
  have hdy : dy.Integral := by
    intro b
    cases b <;> rfl
  have hs (b : Base) : 0 < s b := by
    cases b <;> decide
  have hd : t.dimension? dx dy = .ok d := by decide +kernel
  have hvalue : t.rational? 5 7 = some (25 / 7) := by decide +kernel
  have hrescaled := (rational?_rescaled hpowers hdx hdy hs hd).2 5 7
  rw [hvalue] at hrescaled
  -- The factors of a length, of a time, and of the square of the one over the other.
  have hfactors : dx.factor s = 3 ∧ dy.factor s = 2 ∧ d.factor s = 9 / 2 := by decide +kernel
  rw [hfactors.1, hfactors.2.1] at hrescaled
  refine ⟨t, hd, hvalue, hrescaled.trans ?_⟩
  rw [Option.map_some, hfactors.2.2]

end Tree

end UnitPlane
