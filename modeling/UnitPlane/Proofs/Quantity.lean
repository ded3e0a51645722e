import UnitPlane.Quantity
import UnitPlane.Proofs.Double.Conversion
import UnitPlane.Proofs.MeasureUnit.Resolution

/-!
# `UnitPlane.Proofs.Quantity`: to base units and back

A conversion to base units multiplies the magnitude by the size of the unit, and a conversion back
divides by it. It is an error if a magnitude gets too large, but not if it gets too small. So a
quantity that has a magnitude in base units can be converted back, and if that magnitude is one of
the smallest doubles, with few digits or none, it may come back changed.

* `Quantity.toUnit?_toBase?`: what comes back.
* `Quantity.toUnit?_toBase?_loses`: not always nearly the same magnitude.
-/

set_option autoImplicit false

namespace UnitPlane.Quantity

open Double UnitExpression

variable {m : Float} {expr : String} {u : MeasureUnit} {q b : Quantity}

/-- A quantity that was made has the magnitude and the unit that it was made of. -/
theorem ofUnit?_eq_ok (h : ofUnit? m u = .ok q) : q.magnitude = m ∧ q.unit = u := by
  unfold ofUnit? at h
  split at h
  · cases h
    exact ⟨rfl, rfl⟩
  · cases h

/-- A finite magnitude makes a quantity, whatever the unit is. -/
theorem ofUnit?_of_isFinite (h : m.isFinite = true) : ofUnit? m u = .ok ⟨m, u, h⟩ :=
  dif_pos h

/-- A quantity that was made of a unit expression has the unit that the expression resolves to. -/
theorem ofExpr?_eq_ok (hu : MeasureUnit.resolve expr = .ok u) (h : ofExpr? m expr = .ok q) :
    q.magnitude = m ∧ q.unit = u := by
  unfold ofExpr? at h
  rw [hu] at h
  exact ofUnit?_eq_ok h

/-- A finite magnitude makes a quantity with the unit of an expression that resolves. -/
theorem ofExpr?_of_isFinite (hu : MeasureUnit.resolve expr = .ok u) (h : m.isFinite = true) :
    ofExpr? m expr = .ok ⟨m, u, h⟩ := by
  unfold ofExpr?
  rw [hu]
  exact ofUnit?_of_isFinite h

/-- What was converted to base units has a magnitude multiplied by the size of the unit. The product
is rounded, but it is finite. -/
theorem toBase?_eq_ok (h : q.toBase? = .ok b) :
    b.magnitude = q.magnitude * q.unit.scale ∧ b.unit = .base q.unit.dimension :=
  ofUnit?_eq_ok h

/-- A magnitude in the base unit is divided by the size of the other unit, because the size of a
base unit is one. -/
theorem toUnit?_of_base (hb : b.unit = .base u.dimension) :
    b.toUnit? u = ofUnit? (b.magnitude / u.scale) u := by
  unfold toUnit?
  rw [hb, if_pos (show u.dimension = (MeasureUnit.base u.dimension).dimension from rfl)]
  exact congrArg (fun x => ofUnit? (x / u.scale) u) (Double.mul_one b.magnitude)

/-- A quantity that is converted to base units can always be converted back, to the unit and
dimension that it had and to what is left of its magnitude. `Regained` says how much is left, in
terms of the exact values of the doubles. -/
theorem toUnit?_toBase? (hu : MeasureUnit.resolve expr = .ok u) (hq : ofExpr? m expr = .ok q)
    (hb : q.toBase? = .ok b) :
    ∃ back, b.toUnit? u = .ok back ∧ back.unit = u ∧ back.dimension = q.dimension ∧
      ∃ M S P B, toRat? m = some M ∧ toRat? u.scale = some S ∧ toRat? b.magnitude = some P ∧
        toRat? back.magnitude = some B ∧ Regained M S P B := by
  obtain ⟨rfl, rfl⟩ := ofExpr?_eq_ok hu hq
  obtain ⟨hproduct, hbase⟩ := toBase?_eq_ok hb
  obtain ⟨hfinite, hpos⟩ := MeasureUnit.scale_of_resolve_eq_ok hu
  -- All doubles on the way are finite, so they have exact values.
  obtain ⟨M, hM⟩ := exists_toRat? q.finite
  obtain ⟨S, hS⟩ := exists_toRat? hfinite
  obtain ⟨P, hP⟩ := exists_toRat? b.finite
  have hSpos := (pos_iff_of_toRat? hS).1 hpos
  rw [hproduct] at hP
  obtain ⟨B, hB, hroundP, hroundB⟩ := exists_mul_div hM hS hSpos hP
  rw [← hproduct] at hB hP
  refine ⟨_, (toUnit?_of_base hbase).trans (ofUnit?_of_isFinite (isFinite_of_toRat? hB)), rfl, rfl,
    M, S, P, B, hM, hS, hP, hB, ?_⟩
  rw [hproduct] at hB hP
  exact regained_of_rounds hM hSpos hP hB hroundP hroundB

/-- The inch is a length of 0.0254 metres. -/
theorem resolve_inch :
    MeasureUnit.resolve "inch" = .ok ⟨"inch", { length := .ofInt32 1 }, 0.0254⟩ :=
  MeasureUnit.resolve_eq_ok_of_name (by decide) (by decide)
    (by decide) (by decide)
    (f := ⟨{ length := .ofInt32 1 }, 0.0254⟩) (by decide) (by decide)
    (by decide)

/-- A few inches come back as they were, but for a part in a billion. No magnitude on the way is
small, so nothing is lost but by rounding. -/
theorem toUnit?_toBase?_inches : ∃ u q b back M B, MeasureUnit.resolve "inch" = .ok u ∧
    ofExpr? 3.7 "inch" = .ok q ∧ q.toBase? = .ok b ∧ b.toUnit? u = .ok back ∧
    toRat? 3.7 = some M ∧ toRat? back.magnitude = some B ∧ |B - M| ≤ |M| / 10 ^ 9 := by
  have hq := ofExpr?_of_isFinite (m := 3.7) resolve_inch (by decide)
  have hb := ofUnit?_of_isFinite (m := 3.7 * 0.0254) (u := .base { length := .ofInt32 1 })
    (by decide)
  obtain ⟨back, hback, -, -, M, S, P, B, hM, hS, -, hB, h⟩ := toUnit?_toBase? resolve_inch hq hb
  refine ⟨_, _, _, back, M, B, resolve_inch, hq, hb, hback, hM, hB, h.near ?_⟩
  -- The exact values of the two doubles, as integers times powers of two.
  have hmagnitude : toRat? 3.7 = some (((8331659310635418 : ℕ) : ℚ) * 2 ^ (-51 : ℤ)) :=
    toRat?_of_eq_ofParts ⟨by decide, by decide, by decide, by decide, .inl (by decide)⟩
      (by decide)
  have hscale : toRat? 0.0254 = some (((7321051554253478 : ℕ) : ℚ) * 2 ^ (-58 : ℤ)) :=
    toRat?_of_eq_ofParts ⟨by decide, by decide, by decide, by decide, .inl (by decide)⟩
      (by decide)
  obtain rfl := Option.some.inj (hmagnitude.symm.trans hM)
  obtain rfl := Option.some.inj (hscale.symm.trans hS)
  refine (zpow_le_zpow_right₀ one_le_two (show (-1044 : ℤ) ≤ -10 by norm_num)).trans ?_
  norm_num

/-- The unit of cubic nanometres, with its size as it is computed from that of the nanometre. -/
def cubicNanometre : MeasureUnit := ⟨"nm**3", { length := .ofInt32 3 }, 1.0000000000000002e-27⟩

/-- The expression `nm**3` resolves to cubic nanometres. -/
theorem resolve_cubicNanometre : MeasureUnit.resolve "nm**3" = .ok cubicNanometre := by
  have htrim : Text.trim "nm**3".toList = "nm".toList ++ (['*', '*'] ++ ['3']) := by decide
  -- The expression is a power of a name, by the grammar of unit expressions.
  have htext : ExprText .product (Text.trim "nm**3".toList) (.power (.name "nm") 3 1) := by
    have hname : ExprText .factor "nm".toList (.name "nm") :=
      exprText_name (by decide) (by decide)
    have hspaced (symbol : List Char) : Spaced symbol symbol := ⟨[], nofun, rfl⟩
    have hdigit : IntText ['3'] 3 := .unsigned (List.forall_mem_singleton.2 (by decide)) (by decide)
    rw [htrim]
    exact .single (.power hname (.inl (hspaced _)) (.int hdigit (hspaced _)))
  have h := MeasureUnit.resolve_eq_ok_of_exprText
    (f := ⟨{ length := .ofInt32 3 }, 1.0000000000000002e-27⟩)
    (by rw [htrim]; decide) (by rw [htrim]; decide) htext (by decide +kernel) (by decide)
    (by decide)
  exact h.trans (by rw [htrim]; rfl)

/-- A tiny number of cubic nanometres is no cubic metre at all, and comes back as zero. So there is
no bound on the relative error of what comes back. -/
theorem toUnit?_toBase?_loses :
    ¬ ∀ (magnitude : Float) (expr : String) (u : MeasureUnit) (q b : Quantity),
    MeasureUnit.resolve expr = .ok u → ofExpr? magnitude expr = .ok q → q.toBase? = .ok b →
      ∃ back, b.toUnit? u = .ok back ∧ back.dimension = q.dimension ∧
        ∃ M B, toRat? magnitude = some M ∧ toRat? back.magnitude = some B ∧
          |B - M| ≤ 1 / 10 ^ 9 * |M| := by
  intro hnear
  have hq := ofExpr?_of_isFinite (m := 1e-300) resolve_cubicNanometre (by decide +kernel)
  have hb := ofUnit?_of_isFinite (m := 1e-300 * cubicNanometre.scale)
    (u := .base cubicNanometre.dimension) (by decide +kernel)
  obtain ⟨back, hback, -, M, B, hM, hB, hle⟩ := hnear _ _ _ _ _ resolve_cubicNanometre hq hb
  -- What comes back is exactly zero.
  have hmagnitude : back.magnitude = 0 := by
    rw [toUnit?_of_base rfl] at hback
    rw [(ofUnit?_eq_ok hback).1]
    decide +kernel
  rw [hmagnitude] at hB
  obtain rfl := Option.some.inj (toRat?_zero.symm.trans hB)
  have hpos : 0 < M := (pos_iff_of_toRat? hM).1 (by decide +kernel)
  rw [zero_sub, abs_neg, abs_of_pos hpos] at hle
  linarith

end UnitPlane.Quantity
