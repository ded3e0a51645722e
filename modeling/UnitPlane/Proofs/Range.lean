import UnitPlane.Proofs.Display
import UnitPlane.Proofs.Double.Division

/-!
# `UnitPlane.Proofs.Range`: the range of what is displayed

The range of a payload is found before the cells are divided by the factor of the display unit, and
its two ends are divided afterwards. Division by a factor keeps the order of the cells, so the ends
are still displayed cells with all finite ones between them. What it does not keep is that they are
finite: a small display unit can make an end overflow while other cells do not, and a factor of zero
leaves no displayed number finite.

* `Grid.Bounds.map_div`: division by a positive factor keeps bounds.
* `Payload.Spans`: how the ends of a range lie among the displayed cells.
* `Request.displayRange_of_run_eq_ok`: the range of every payload, and when its ends are finite.
* `Request.displayRange_overflows`: a range that ends at infinity.
-/

set_option autoImplicit false

namespace UnitPlane

open Double

variable {low high v factor : Float}

/-- Division by a positive double takes bounds of finite values to bounds of the quotients. It keeps
the order, since rounding does, and infinite quotients have their place in it. -/
theorem Grid.Bounds.map_div {values : List Float} (h : Bounds values low high)
    (hfinite : ∀ v ∈ values, v.isFinite = true) (hpos : 0 < factor) :
    Bounds (values.map (· / factor)) (low / factor) (high / factor) where
  low_mem := List.mem_map_of_mem h.low_mem
  high_mem := List.mem_map_of_mem h.high_mem
  low_le u hu := by
    obtain ⟨v, hv, rfl⟩ := List.mem_map.1 hu
    exact div_le_div_right (hfinite low h.low_mem) (hfinite v hv) (h.low_le v hv) hpos
  le_high u hu := by
    obtain ⟨v, hv, rfl⟩ := List.mem_map.1 hu
    exact div_le_div_right (hfinite v hv) (hfinite high h.high_mem) (h.le_high v hv) hpos

/-! ### The range of a payload -/

namespace Payload

variable {p : Payload}

/-- Two displayed cells have all finite ones between them. They are finite themselves just when no
finite cell of the grid overflows on the way to the display unit. -/
structure Spans (p : Payload) (low high : Float) : Prop where
  low_mem : low ∈ p.displayValues.cells.toList
  high_mem : high ∈ p.displayValues.cells.toList
  low_le : ∀ v ∈ p.displayValues.cells.toList, v.isFinite = true → low ≤ v
  le_high : ∀ v ∈ p.displayValues.cells.toList, v.isFinite = true → v ≤ high
  low_le_high : p.scaleFactor = 0 ∨ low ≤ high
  finite_iff : low.isFinite = true ∧ high.isFinite = true ↔
    ∀ v ∈ p.grid.plane.cells.toList, v.isFinite = true → (v / p.scaleFactor).isFinite = true

/-- The displayed cells are the quotients of the cells of the grid. -/
theorem mem_displayValues_iff :
    v ∈ p.displayValues.cells.toList ↔ ∃ u ∈ p.grid.plane.cells.toList, u / p.scaleFactor = v := by
  have hcells : p.displayValues.cells.toList = p.grid.plane.cells.toList.map (· / p.scaleFactor) :=
    Array.toList_map
  rw [hcells, List.mem_map]

/-- A displayed cell is finite only if the cell of the grid is, and the factor is not zero. -/
theorem exists_finite_of_mem_displayValues (h : v ∈ p.displayValues.cells.toList)
    (hv : v.isFinite = true) :
    p.scaleFactor ≠ 0 ∧
      ∃ u ∈ p.grid.plane.cells.toList, u.isFinite = true ∧ u / p.scaleFactor = v := by
  obtain ⟨u, hu, rfl⟩ := mem_displayValues_iff.1 h
  refine ⟨fun hzero => ?_, u, hu, isFinite_of_div hv, rfl⟩
  rw [hzero, isFinite_div_zero] at hv
  cases hv

/-- The bounds of the finite cells, divided by the factor, are the range of the displayed cells. The
factor is zero or positive, because both sizes of units are. -/
theorem spans_of_bounds (hfactor : p.scaleFactor = 0 ∨ 0 < p.scaleFactor)
    (h : Grid.Bounds (p.grid.plane.cells.toList.filter Float.isFinite) low high) :
    p.Spans (low / p.scaleFactor) (high / p.scaleFactor) := by
  have hfinite : ∀ v ∈ p.grid.plane.cells.toList.filter Float.isFinite, v.isFinite = true :=
    fun v hv => (List.mem_filter.1 hv).2
  -- With a factor of zero no displayed cell is finite, so only the other one needs the order.
  have hquotients (hne : p.scaleFactor ≠ 0) := h.map_div hfinite (hfactor.resolve_left hne)
  have hdisplayed {v : Float} (hv : v ∈ p.displayValues.cells.toList)
      (hvfinite : v.isFinite = true) :
      p.scaleFactor ≠ 0 ∧ v ∈ (p.grid.plane.cells.toList.filter Float.isFinite).map
        (· / p.scaleFactor) := by
    obtain ⟨hne, u, hu, hufinite, rfl⟩ := exists_finite_of_mem_displayValues hv hvfinite
    exact ⟨hne, List.mem_map_of_mem (List.mem_filter.2 ⟨hu, hufinite⟩)⟩
  obtain ⟨hlow, hlowfinite⟩ := List.mem_filter.1 h.low_mem
  obtain ⟨hhigh, hhighfinite⟩ := List.mem_filter.1 h.high_mem
  constructor
  case low_mem => exact mem_displayValues_iff.2 ⟨low, hlow, rfl⟩
  case high_mem => exact mem_displayValues_iff.2 ⟨high, hhigh, rfl⟩
  case low_le =>
    intro v hv hvfinite
    obtain ⟨hne, hmem⟩ := hdisplayed hv hvfinite
    exact (hquotients hne).low_le v hmem
  case le_high =>
    intro v hv hvfinite
    obtain ⟨hne, hmem⟩ := hdisplayed hv hvfinite
    exact (hquotients hne).le_high v hmem
  case low_le_high =>
    refine hfactor.imp_right fun hpos => ?_
    exact div_le_div_right hlowfinite hhighfinite (h.low_le high h.high_mem) hpos
  case finite_iff =>
    constructor
    · -- With finite ends the factor is not zero, and all quotients lie between them.
      rintro ⟨hl, hh⟩ v hv hvfinite
      have hmem := List.mem_map_of_mem (f := (· / p.scaleFactor)) (List.mem_filter.2 ⟨hv, hvfinite⟩)
      have hne :=
        (exists_finite_of_mem_displayValues (mem_displayValues_iff.2 ⟨low, hlow, rfl⟩) hl).1
      exact isFinite_of_le_of_le hl hh ((hquotients hne).low_le _ hmem)
        ((hquotients hne).le_high _ hmem)
    · exact fun hall => ⟨hall low hlow hlowfinite, hall high hhigh hhighfinite⟩

end Payload

namespace Request

variable {r : Request} {limits : Limits} {c : Contour}

/-- Results are divided by zero or by a positive double, which may be infinite. The size of the
display unit decides which, as it is inverted on the way. -/
theorem scaleFactor_eq_zero_or_pos (h : r.run limits = .ok c) :
    c.scaleFactor = 0 ∨ 0 < c.scaleFactor := by
  obtain ⟨hresolve, hfactor⟩ := display_of_run_eq_ok h
  obtain ⟨hfinite, hpos⟩ := MeasureUnit.scale_of_resolve_eq_ok hresolve
  obtain ⟨size, hsize⟩ := exists_toRat? hfinite
  have hsizepos := (pos_iff_of_toRat? hsize).1 hpos
  rw [hfactor]
  -- A tiny size has an infinite inverse, and that of a huge one is so small that its own inverse is
  -- infinite.
  by_cases hlow : size ≤ 2 ^ (-1024 : ℤ)
  · exact .inl (one_div_one_div_of_le hsize hsizepos hlow)
  · right
    by_cases hhigh : size < ((2 ^ 53 - 3 : ℕ) : ℚ) * 2 ^ (971 : ℤ)
    · exact ((one_div_one_div_iff hsize hsizepos).2 ⟨not_le.1 hlow, hhigh⟩).2
    · rw [lt_iff, parts_one_div_one_div_of_ge hsize (not_lt.1 hhigh), parts_zero]
      rfl

/-- A payload has no range just when no cell of its grid is finite. The ends of a range are
displayed cells with all finite ones between them, and they are finite just when every finite cell
is displayed as a finite number. -/
theorem displayRange_of_run_eq_ok (h : r.run limits = .ok c) (title : String) :
    ((c.payload title).displayRange = none ↔
      ∀ v ∈ (c.payload title).grid.plane.cells.toList, v.isFinite = false) ∧
    ∀ low high, (c.payload title).displayRange = some (low, high) →
      (c.payload title).Spans low high := by
  constructor
  · exact Option.map_eq_none_iff.trans Grid.rangeOf?_eq_none_iff
  · intro low high hrange
    obtain ⟨⟨low', high'⟩, hcells, hends⟩ := Option.map_eq_some_iff.1 hrange
    cases hends
    exact Payload.spans_of_bounds (scaleFactor_eq_zero_or_pos h)
      (Grid.bounds_of_rangeOf?_eq_some hcells)

/-! ### An end that overflows -/

/-- Lengths of up to `3e299` metres, displayed in nanometres. -/
def largeLengths : Request where
  title := "t"
  xLabel := "x"
  yLabel := "y"
  formula := "x"
  targetUnit := "nm"
  xAxis := ⟨1, 3e299, .count 3, .linear, "m"⟩
  yAxis := ⟨1, 2, .count 2, .linear, ""⟩

/-- The largest of these lengths is finite, but not in nanometres. -/
theorem run_largeLengths :
    ∃ c, largeLengths.run {} = .ok c ∧ c.scaleFactor = 1e-9 ∧
      c.grid.plane.cells = #[1, 1.5e299, 3e299, 1, 1.5e299, 3e299] := by
  let metres : MeasureUnit := ⟨"m", { length := 1 }, 1⟩
  let nanometres : MeasureUnit := ⟨"nm", { length := 1 }, 1e-9⟩
  -- What each step of the job gives.
  have haccepted : largeLengths.Accepted {} metres .dimensionless nanometres ⟨.var .x, "x"⟩
      { length := 1 } ⟨#[1, 1.5e299, 3e299], metres⟩ ⟨#[1, 2], .dimensionless⟩ :=
    { xUnit := MeasureUnit.resolve_eq_ok_of_name (by decide) (by decide)
        (by decide) (by decide) (f := ⟨{ length := 1 }, 1⟩) (by decide)
        (by decide)
        (by decide)
      yUnit := by decide
      targetUnit := MeasureUnit.resolve_eq_ok_of_name (by decide) (by decide)
        (by decide) (by decide) (f := ⟨{ length := 1 }, 1e-9⟩) (by decide)
        (by decide) (by decide)
      formula := by decide +kernel
      preCheck := by decide +kernel
      xSamples := by decide +kernel
      ySamples := by decide +kernel
      cells := by decide }
  let plane : Plane := ⟨2, 3, #[1, 1.5e299, 3e299, 1, 1.5e299, 3e299], rfl⟩
  have hgrid : (Tree.var .x).grid? ⟨#[1, 1.5e299, 3e299], metres⟩ ⟨#[1, 2], .dimensionless⟩ {} =
      .ok (.inBaseUnit plane { length := 1 }) := by
    decide +kernel
  have htarget : ({ length := 1 } : Dimension) = nanometres.dimension := rfl
  have hrun := haccepted.runPlain_eq_bind hgrid
  rw [← run_eq_runPlain rfl, (Grid.postCheck_inBaseUnit plane htarget).1
    (by decide)] at hrun
  exact ⟨_, hrun, by decide, rfl⟩

/-- The cells from `1` to `3e299` are all finite, so they are what the range is made of. -/
theorem displayRange_largeLengths {c : Contour} (hfactor : c.scaleFactor = 1e-9)
    (hcells : c.grid.plane.cells = #[1, 1.5e299, 3e299, 1, 1.5e299, 3e299]) (title : String) :
    (c.payload title).displayRange = some (1 / 1e-9, 3e299 / 1e-9) := by
  have hrange : c.grid.finiteRange? = some (1, 3e299) := by
    unfold Grid.finiteRange?
    rw [hcells]
    decide +kernel
  unfold Contour.payload
  dsimp only
  rw [hrange, hfactor]
  rfl

/-- The range of these lengths has every finite displayed length within it. -/
theorem displayRange_of_run_eq_ok_largeLengths :
    ∃ c low high, largeLengths.run {} = .ok c ∧ (c.payload "t").displayRange = some (low, high) ∧
      (c.payload "t").Spans low high := by
  obtain ⟨c, hrun, hfactor, hcells⟩ := run_largeLengths
  have hrange := displayRange_largeLengths hfactor hcells "t"
  exact ⟨c, _, _, hrun, hrange, (displayRange_of_run_eq_ok hrun "t").2 _ _ hrange⟩

/-- The range of a result can end at infinity although larger cells than its lower end are displayed
as finite numbers. -/
theorem displayRange_overflows :
    ∃ c low high, largeLengths.run {} = .ok c ∧ (c.payload "t").displayRange = some (low, high) ∧
      high.isFinite = false ∧
      ∃ v ∈ (c.payload "t").displayValues.cells.toList, v.isFinite = true ∧ low < v := by
  obtain ⟨c, hrun, hfactor, hcells⟩ := run_largeLengths
  refine ⟨c, _, _, hrun, displayRange_largeLengths hfactor hcells "t", by decide +kernel,
    1.5e299 / 1e-9, ?_, by decide +kernel, by decide +kernel⟩
  refine Payload.mem_displayValues_iff.2 ⟨1.5e299, ?_, congrArg (1.5e299 / ·) hfactor⟩
  show 1.5e299 ∈ c.grid.plane.cells.toList
  rw [hcells]
  simp

end Request

end UnitPlane
