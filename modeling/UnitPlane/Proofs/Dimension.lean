import UnitPlane.Dimension
import UnitPlane.Proofs.Exponent.Exact

/-!
# `UnitPlane.Proofs.Dimension`: the algebra of dimensions is exact

Products, quotients and powers of dimensions are refused, or have the sums, differences and
multiples of the exponents: `val_of_mul?`, `val_of_div?` and `val_of_pow?`. They are computed base
quantity by base quantity, and refused as soon as one exponent is.

Powers are refused only where the result does not fit (`pow?_eq_none_iff`), because a product of
exponents is cancelled before it is multiplied. Sums of fractions go through a common denominator
that the result may not need. With integer exponents the common denominator is one, so products and
quotients of such dimensions are refused only where the result does not fit, too.
-/

set_option autoImplicit false

namespace UnitPlane.Dimension

/-- A dimension is put together just when every exponent is there, and then it has these
exponents. -/
theorem ofFn?_eq_some_iff {f : Base → Option Exponent} {d : Dimension} :
    ofFn? f = some d ↔ ∀ b, f b = some (d.exponent b) := by
  constructor
  · intro h
    unfold ofFn? at h
    obtain ⟨length, hlength, h⟩ := Option.bind_eq_some_iff.1 h
    obtain ⟨mass, hmass, h⟩ := Option.bind_eq_some_iff.1 h
    obtain ⟨time, htime, h⟩ := Option.bind_eq_some_iff.1 h
    obtain ⟨current, hcurrent, h⟩ := Option.bind_eq_some_iff.1 h
    obtain ⟨temperature, htemperature, h⟩ := Option.bind_eq_some_iff.1 h
    obtain ⟨amount, hamount, h⟩ := Option.bind_eq_some_iff.1 h
    obtain ⟨luminosity, hluminosity, h⟩ := Option.bind_eq_some_iff.1 h
    obtain ⟨angle, hangle, h⟩ := Option.bind_eq_some_iff.1 h
    -- All exponents are there, so the dimension is the one that has them.
    cases h
    intro b
    cases b <;> assumption
  · intro h
    obtain rfl : f = fun b => some (d.exponent b) := funext h
    rfl

variable {d e r : Dimension}

/-- The exponents of a product are the sums of the exponents, exactly. -/
theorem val_of_mul? (h : d.mul? e = some r) (b : Base) :
    (r.exponent b).val = (d.exponent b).val + (e.exponent b).val :=
  Exponent.val_of_add? (ofFn?_eq_some_iff.1 h b)

/-- The exponents of a quotient are the differences of the exponents, exactly. -/
theorem val_of_div? (h : d.div? e = some r) (b : Base) :
    (r.exponent b).val = (d.exponent b).val - (e.exponent b).val :=
  Exponent.val_of_sub? (ofFn?_eq_some_iff.1 h b)

/-- The exponents of a power are the exponents times the power, exactly. -/
theorem val_of_pow? {p : Exponent} (h : d.pow? p = some r) (b : Base) :
    (r.exponent b).val = (d.exponent b).val * p.val :=
  Exponent.val_of_mul? (ofFn?_eq_some_iff.1 h b)

/-! ### What is refused -/

/-- A dimension is absent just when some exponent is. -/
theorem ofFn?_eq_none_iff {f : Base → Option Exponent} : ofFn? f = none ↔ ∃ b, f b = none := by
  constructor
  · intro h
    -- If every exponent were there, they would make a dimension.
    by_contra hsome
    have hall (b : Base) : ∃ e, f b = some e :=
      Option.ne_none_iff_exists'.1 fun hb => hsome ⟨b, hb⟩
    choose g hg using hall
    have hg' : ofFn? f = some (ofFn g) := ofFn?_eq_some_iff.2 fun b => by rw [hg, exponent_ofFn]
    rw [h] at hg'
    cases hg'
  · rintro ⟨b, hb⟩
    cases h : ofFn? f with
    | none => rfl
    | some d =>
      rw [ofFn?_eq_some_iff.1 h b] at hb
      cases hb

/-- A power is refused just when some exponent times the power does not fit. Nothing is refused on
the way that would fit in the end. -/
theorem pow?_eq_none_iff {p : Exponent} : d.pow? p = none ↔
    ∃ b, ¬ (Fits32 ((d.exponent b).val * p.val).num ∧ Fits32 ((d.exponent b).val * p.val).den) := by
  rw [pow?, ofFn?_eq_none_iff]
  simp only [Exponent.mul?_eq_ofRat?, Exponent.ofRat?_eq_none_iff]

section Integers

variable (hd : ∀ b, (d.exponent b).den = 1) (he : ∀ b, (e.exponent b).den = 1)

include hd he

/-- With integer exponents, a product is refused just when some sum does not fit. With fractions it
may be refused although it fits, for their common denominator. -/
theorem mul?_eq_none_iff :
    d.mul? e = none ↔ ∃ b, ¬ Fits32 ((d.exponent b).num + (e.exponent b).num) := by
  rw [mul?, ofFn?_eq_none_iff]
  refine exists_congr fun b => ?_
  rw [Exponent.add?_of_integral (hd b) (he b), Exponent.val_eq_num (hd b),
    Exponent.val_eq_num (he b), ← Int.cast_add, Exponent.ofRat?_intCast_eq_none_iff]

/-- With integer exponents, a quotient is refused just when some difference does not fit. -/
theorem div?_eq_none_iff :
    d.div? e = none ↔ ∃ b, ¬ Fits32 ((d.exponent b).num - (e.exponent b).num) := by
  rw [div?, ofFn?_eq_none_iff]
  refine exists_congr fun b => ?_
  rw [Exponent.sub?_of_integral (hd b) (he b), Exponent.val_eq_num (hd b),
    Exponent.val_eq_num (he b), ← Int.cast_sub, Exponent.ofRat?_intCast_eq_none_iff]

end Integers

end UnitPlane.Dimension
