import UnitPlane.Proofs.Double.Reciprocal
import UnitPlane.Proofs.MeasureUnit.Resolution
import UnitPlane.Proofs.Swap

/-!
# `UnitPlane.Proofs.Display`: when results can be displayed

The factor that a result is divided by for display is one divided by the reciprocal of the size of
the display unit. A unit that resolves has a positive size, but at both ends of the doubles the
reciprocal of the reciprocal is no positive double: below it is zero, and above it is infinite.

* `Request.scaleFactor_of_run_eq_ok`: which display units give a factor that can be divided by, and
  what the others give.
* `Request.run_tinyTarget`: a result whose zeros are displayed as no number.
-/

set_option autoImplicit false

namespace UnitPlane

open Double

/-! ### Display units -/

/-- One base unit is one divided by the size of a unit, and the factor is one divided by that. Both
divisions are rounded, which is why the factor need not be the size. -/
theorem MeasureUnit.scaleFactor_base (d : Dimension) (target : MeasureUnit) :
    (MeasureUnit.base d).scaleFactor target = 1 / (1 / target.scale) := by
  show 1 / (1 * 1 / target.scale) = _
  rw [Double.mul_one]

namespace Request

variable {r : Request} {limits : Limits} {c : Contour}

/-- A result is displayed in the unit that the request names, with the factor that belongs to a grid
in the base unit. -/
theorem display_of_runPlain_eq_ok (h : r.runPlain limits = .ok c) :
    MeasureUnit.resolve r.targetUnit = .ok c.displayUnit ∧
      c.scaleFactor = 1 / (1 / c.displayUnit.scale) := by
  obtain ⟨xu, yu, target, f, x, y, g, hfinishes, rfl⟩ := exists_finishes_of_runPlain_eq_ok h
  obtain ⟨⟨p, d⟩, -, hgrid⟩ := Except.bind_eq_ok.1 hfinishes.grid
  cases hgrid
  exact ⟨hfinishes.resolve_target, MeasureUnit.scaleFactor_base d target⟩

/-- A result is displayed in the unit that the request names, also where its axes are exchanged,
which does not concern the factor. -/
theorem display_of_run_eq_ok (h : r.run limits = .ok c) :
    MeasureUnit.resolve r.targetUnit = .ok c.displayUnit ∧
      c.scaleFactor = 1 / (1 / c.displayUnit.scale) := by
  unfold run at h
  obtain ⟨plain, hplain, h⟩ := Except.bind_eq_ok.1 h
  obtain rfl := Except.ok.inj h
  obtain ⟨hresolve, hfactor⟩ := display_of_runPlain_eq_ok hplain
  cases r.swapAxes with
  | false => exact ⟨hresolve, hfactor⟩
  | true => exact ⟨hresolve, hfactor⟩

/-- The factor of a result can be divided by, and is finite and positive, exactly if the size of the
display unit is above `2 ^ -1024` and not one of the three largest doubles. It is zero if the unit
is smaller and infinite if it is larger.

With a factor that can be divided by, no finite cell is displayed as no number, and a zero is
displayed as a zero. With a factor of zero every zero is displayed as no number. -/
theorem scaleFactor_of_run_eq_ok (h : r.run limits = .ok c) :
    ∃ size, toRat? c.displayUnit.scale = some size ∧ 0 < size ∧
      (c.scaleFactor.isFinite = true ∧ 0 < c.scaleFactor ↔
        2 ^ (-1024 : ℤ) < size ∧ size < ((2 ^ 53 - 3 : ℕ) : ℚ) * 2 ^ (971 : ℤ)) ∧
      (size ≤ 2 ^ (-1024 : ℤ) → c.scaleFactor = 0) ∧
      (((2 ^ 53 - 3 : ℕ) : ℚ) * 2 ^ (971 : ℤ) ≤ size → c.scaleFactor = 1 / 0) ∧
      ∀ (j i : ℕ) (hj : j < c.grid.plane.rows) (hi : i < c.grid.plane.cols),
        let cell := c.grid.plane.cell j i hj hi
        let shown := (c.grid.plane.rescale c.scaleFactor).cell j i hj hi
        (c.scaleFactor.isFinite = true → 0 < c.scaleFactor →
          (cell.isFinite = true → shown.isNaN = false) ∧
          ((cell == 0) = true → (shown == 0) = true)) ∧
        (c.scaleFactor = 0 → (cell == 0) = true → shown.isNaN = true) := by
  obtain ⟨hresolve, hfactor⟩ := display_of_run_eq_ok h
  obtain ⟨hfinite, hpos⟩ := MeasureUnit.scale_of_resolve_eq_ok hresolve
  obtain ⟨size, hsize⟩ := exists_toRat? hfinite
  have hsizepos := (pos_iff_of_toRat? hsize).1 hpos
  -- What holds of the factor is known of the inverse of an inverse, and what holds of a cell of a
  -- division.
  refine ⟨size, hsize, hsizepos, ?_, fun hle => ?_, fun hge => ?_, ?_⟩
  · rw [hfactor]
    exact one_div_one_div_iff hsize hsizepos
  · rw [hfactor]
    exact one_div_one_div_of_le hsize hsizepos hle
  · rw [hfactor]
    exact eq_of_parts_eq ((parts_one_div_one_div_of_ge hsize hge).trans parts_one_div_zero.symm)
  · intro j i hj hi cell shown
    have hshown : shown = cell / c.scaleFactor := Plane.cell_map _ _ hj hi
    rw [hshown]
    refine ⟨fun hfactorfinite hfactorpos => ⟨fun hcell => ?_, fun hzero => ?_⟩,
      fun hzero hcell => ?_⟩
    · exact isNaN_div hcell hfactorfinite hfactorpos
    · exact zero_div_beq hzero hfactorfinite hfactorpos
    · rw [hzero]
      exact isNaN_zero_div hcell

/-- A percentage is a pure number, a hundredth in size. -/
theorem resolve_percent :
    MeasureUnit.resolve "percent" = .ok ⟨"percent", .dimensionless, 0.01⟩ :=
  MeasureUnit.resolve_eq_ok_of_name (by decide) (by decide)
    (by decide) (by decide)
    (f := ⟨.dimensionless, 0.01⟩) (by decide) (by decide) (by decide)

/-- The numbers zero, one half and one, displayed as percentages. -/
def percentages : Request where
  title := "t"
  xLabel := "x"
  yLabel := "y"
  formula := "x"
  targetUnit := "percent"
  xAxis := ⟨0, 1, .count 3, .linear, ""⟩
  yAxis := ⟨1, 2, .count 2, .linear, ""⟩

/-- Percentages are of a usual size, so all of their numbers are displayed as numbers, and the zero
among them as a zero. -/
theorem scaleFactor_of_run_eq_ok_percentages :
    ∃ c size, percentages.run {} = .ok c ∧ toRat? c.displayUnit.scale = some size ∧
      2 ^ (-1024 : ℤ) < size ∧
      ∀ (j i : ℕ) (hj : j < c.grid.plane.rows) (hi : i < c.grid.plane.cols),
        (c.grid.plane.cell j i hj hi == 0) = true →
          ((c.grid.plane.rescale c.scaleFactor).cell j i hj hi == 0) = true := by
  have haccepted : percentages.Accepted {} .dimensionless .dimensionless
      ⟨"percent", .dimensionless, 0.01⟩ ⟨.var .x, "x"⟩ .dimensionless
      ⟨#[0, 0.5, 1], .dimensionless⟩ ⟨#[1, 2], .dimensionless⟩ :=
    { xUnit := by decide
      yUnit := by decide
      targetUnit := resolve_percent
      formula := by decide +kernel
      preCheck := by decide +kernel
      xSamples := by decide +kernel
      ySamples := by decide +kernel
      cells := by decide }
  obtain ⟨c, hrun, -, htarget, -⟩ := haccepted.run_eq_ok (by decide)
  have hfactor : c.scaleFactor = 1 / (1 / 0.01) := by
    rw [(display_of_run_eq_ok hrun).2, htarget]
  have hfinite : c.scaleFactor.isFinite = true := by
    rw [hfactor]
    decide
  have hpos : 0 < c.scaleFactor := by
    rw [hfactor]
    decide
  obtain ⟨size, hsize, -, hiff, -, -, hcells⟩ := scaleFactor_of_run_eq_ok hrun
  refine ⟨c, size, hrun, hsize, (hiff.1 ⟨hfinite, hpos⟩).1, fun j i hj hi => ?_⟩
  exact ((hcells j i hj hi).1 hfinite hpos).2

/-! ### A display unit that is too small -/

open UnitExpression in
/-- The 35th power of a nanometre resolves, and its size has fewer than 53 bits. It is so small that
one divided by it is infinite. -/
theorem resolve_tiny : MeasureUnit.resolve "nm**35" =
    .ok ⟨"nm**35", { length := .ofInt32 35 }, Factor.powNat 1e-9 35⟩ := by
  have hspaced (symbol : List Char) : Spaced symbol symbol := ⟨[], nofun, rfl⟩
  have htrim : Text.trim "nm**35".toList = "nm".toList ++ (['*', '*'] ++ ['3', '5']) := by
    decide
  -- The text is derived by the grammar of unit expressions, from the name up to the product.
  have hnm : ExprText .factor "nm".toList (.name "nm") :=
    exprText_name (by decide) (by decide)
  have hexponent : ExponentText ['3', '5'] 35 1 :=
    .int (.unsigned (List.all_eq_true.1 (by decide)) (by decide)) (hspaced _)
  have htext : ExprText .product (Text.trim "nm**35".toList) (.power (.name "nm") 35 1) := by
    rw [htrim]
    exact .single (.power hnm (.inl (hspaced _)) hexponent)
  have hfactor : (Expr.power (.name "nm") 35 1).factor? =
      some ⟨{ length := .ofInt32 35 }, Factor.powNat 1e-9 35⟩ := by
    decide +kernel
  have hresolve := MeasureUnit.resolve_eq_ok_of_exprText (by rw [htrim]; decide)
    (by rw [htrim]; decide) htext hfactor (by decide +kernel) (by decide +kernel)
  rw [hresolve, htrim]
  decide +kernel

/-- Zero, one and two 35th powers of a nanometre, displayed in that unit. -/
def tinyTarget : Request where
  title := "t"
  xLabel := "x"
  yLabel := "y"
  formula := "x"
  targetUnit := "nm**35"
  xAxis := ⟨0, 2, .count 3, .linear, "nm**35"⟩
  yAxis := ⟨1, 2, .count 2, .linear, ""⟩

/-- The factor of a result can be zero, and a cell that is zero is then displayed as no number: it
is a zero divided by a zero. -/
theorem run_tinyTarget :
    ∃ c, tinyTarget.run {} = .ok c ∧ c.scaleFactor = 0 ∧
      ∃ (hj : 0 < c.grid.plane.rows) (hi : 0 < c.grid.plane.cols),
        c.grid.plane.cell 0 0 hj hi = 0 ∧
          ((c.payload tinyTarget.title).displayValues.cell 0 0 hj hi).isNaN = true := by
  let size := Factor.powNat 1e-9 35
  let unit : MeasureUnit := ⟨"nm**35", { length := .ofInt32 35 }, size⟩
  have haccepted : tinyTarget.Accepted {} unit .dimensionless unit ⟨.var .x, "x"⟩
      { length := .ofInt32 35 } ⟨#[0, size, 2 * size], unit⟩ ⟨#[1, 2], .dimensionless⟩ :=
    { xUnit := resolve_tiny
      yUnit := by decide +kernel
      targetUnit := resolve_tiny
      formula := by decide +kernel
      preCheck := by decide +kernel
      xSamples := by decide +kernel
      ySamples := by decide +kernel
      cells := by decide }
  obtain ⟨c, hrun, hformula, htarget, -⟩ := haccepted.run_eq_ok (by decide)
  have hplain : tinyTarget.runPlain {} = .ok c := by
    rw [← run_eq_runPlain rfl]
    exact hrun
  have hfactor : c.scaleFactor = 0 := by
    rw [(display_of_run_eq_ok hrun).2, htarget]
    decide +kernel
  obtain ⟨x, y, hx, hy, hshows, hswapped⟩ := shows_of_runPlain_eq_ok hplain
  have hx' := Axis.samples?_eq haccepted.xUnit haccepted.xSamples
  have hy' := Axis.samples?_eq haccepted.yUnit haccepted.ySamples
  obtain rfl := Except.ok.inj (hx.symm.trans hx')
  obtain rfl := Except.ok.inj (hy.symm.trans hy')
  have hhorizontal := hshows.horizontal
  have hvertical := hshows.vertical
  rw [hswapped, if_neg Bool.false_ne_true] at hhorizontal hvertical
  have hj : 0 < c.grid.plane.rows := by
    rw [hshows.rows, hvertical]
    decide
  have hi : 0 < c.grid.plane.cols := by
    rw [hshows.cols, hhorizontal]
    decide
  -- The first samples of the two axes are zero and one.
  have hcell : c.grid.plane.cell 0 0 hj hi = 0 := by
    rw [hshows.cell 0 0 hj hi 0 1 (by rw [hhorizontal]; rfl) (by rw [hvertical]; rfl),
      hswapped, hformula]
    rfl
  refine ⟨c, hrun, hfactor, hj, hi, hcell, ?_⟩
  have hshown : (c.payload tinyTarget.title).displayValues.cell 0 0 hj hi =
      c.grid.plane.cell 0 0 hj hi / c.scaleFactor := Plane.cell_map _ _ hj hi
  rw [hshown, hcell, hfactor]
  exact isNaN_zero_div (by decide)

end Request

end UnitPlane
