import UnitPlane.Payload
import UnitPlane.Proofs.Contour
import UnitPlane.Proofs.Grid

/-!
# `UnitPlane.Proofs.Swap`: one request drawn both ways

A request can ask for `y` on the horizontal axis. The result is then drawn the other way round after
everything has been computed and checked, so this is a matter of drawing only: the variables stay
bound to their own axes, and every fault is the same.

* `Contour.Shows`: the cells of a result are the values of its formula, whichever way it is drawn.
* `Contour.Turned` and `Payload.Turned`: what two drawings of the same values have in common.
* `Request.run_swapAxes`: both ways of drawing a request fail with the same fault, or they give two
  drawings of the same values.
-/

set_option autoImplicit false

namespace UnitPlane

/-! ### Results and what they show -/

/-- A result has a row for each vertical sample and a column for each horizontal one, and every cell
holds the value of the formula where each variable is bound to a sample of its own axis. Which axis
is horizontal is said by `swapped`. -/
structure Contour.Shows (c : Contour) (x y : PlacedAxis) : Prop where
  horizontal : c.horizontal = if c.swapped then y else x
  vertical : c.vertical = if c.swapped then x else y
  rows : c.grid.plane.rows = c.vertical.samples.values.size
  cols : c.grid.plane.cols = c.horizontal.samples.values.size
  cell : ∀ (j i : Nat) (hj : j < c.grid.plane.rows) (hi : i < c.grid.plane.cols) (u v : Float),
    c.horizontal.samples.values[i]? = some u → c.vertical.samples.values[j]? = some v →
      c.grid.plane.cell j i hj hi =
        if c.swapped then c.formula.tree.value v u else c.formula.tree.value u v

/-- Two results are the same values drawn in two ways: their axes and planes are exchanged, and
everything else is the same. -/
structure Contour.Turned (c c' : Contour) : Prop where
  formula : c'.formula = c.formula
  displayUnit : c'.displayUnit = c.displayUnit
  scaleFactor : c'.scaleFactor = c.scaleFactor
  dimension : c'.grid.dimension = c.grid.dimension
  unit : c'.grid.unit = c.grid.unit
  horizontal : c'.horizontal = c.vertical
  vertical : c'.vertical = c.horizontal
  plane : c.grid.plane.Transposed c'.grid.plane
  swapped : c'.swapped = !c.swapped

/-- Two payloads display the same values, drawn in two ways. The order of the cells shows in the
sign of a zero at an end of the range, and nowhere else. -/
structure Payload.Turned (p p' : Payload) : Prop where
  nonFiniteCells : p'.nonFiniteCells = p.nonFiniteCells
  displayRange : Grid.SameRange p.displayRange p'.displayRange
  displayValues : p.displayValues.Transposed p'.displayValues

namespace Contour

variable {c : Contour} {x y : PlacedAxis}

/-- Exchanging the axes of a result turns it. -/
theorem turned_swap (c : Contour) : c.Turned c.swap where
  formula := rfl
  displayUnit := rfl
  scaleFactor := rfl
  dimension := rfl
  unit := rfl
  horizontal := rfl
  vertical := rfl
  plane := c.grid.plane.transposed_transpose
  swapped := rfl

/-- Exchanging the axes of a result leaves the variables bound to their own. The flag is flipped
together with the axes, so a cell has the value that it had. -/
theorem Shows.swap (h : c.Shows x y) : c.swap.Shows x y where
  horizontal := by
    show c.vertical = if (!c.swapped) = true then y else x
    rw [h.vertical]
    cases c.swapped <;> rfl
  vertical := by
    show c.horizontal = if (!c.swapped) = true then x else y
    rw [h.horizontal]
    cases c.swapped <;> rfl
  rows := h.cols
  cols := h.rows
  cell j i hj hi u v hu hv := by
    have htranspose : c.swap.grid.plane.cell j i hj hi = c.grid.plane.cell i j hi hj :=
      Plane.cell_transpose (p := c.grid.plane) hi hj
    rw [htranspose, h.cell i j hi hj v u hv hu]
    show _ = if (!c.swapped) = true then c.formula.tree.value v u else c.formula.tree.value u v
    cases c.swapped <;> rfl

/-- The payloads of a result and of the result with the axes exchanged display the same values,
because both are divided by the same factor. -/
theorem turned_payload_swap (c : Contour) (title : String) :
    (c.payload title).Turned (c.swap.payload title) where
  nonFiniteCells := c.grid.nonFiniteCount_transpose
  displayRange := c.grid.sameRange_transpose.map_div c.scaleFactor
  displayValues := c.grid.plane.transposed_transpose.map fun v => v / c.scaleFactor

end Contour

/-! ### Requests drawn both ways -/

/-- The grid of a formula over two axes holds its values, with `x` on the horizontal axis. -/
theorem Tree.shows_place {f : Formula} {x y : Samples} {limits : Limits} {grid : Grid}
    (h : f.tree.grid? x y limits = .ok grid) (xLabel yLabel : String) (target : MeasureUnit) :
    (Contour.place f grid ⟨xLabel, x⟩ ⟨yLabel, y⟩ target).Shows ⟨xLabel, x⟩ ⟨yLabel, y⟩ := by
  obtain ⟨⟨p, d⟩, hfield, hgrid⟩ := Except.bind_eq_ok.1 h
  rw [Tree.field?_eq _ _ _ _ _ (Tree.le_maxCells_of_field?_eq_ok hfield)] at hfield
  -- There is a grid, so the formula has a dimension.
  cases hd : f.tree.dimension? x.dimension y.dimension with
  | error e =>
    rw [hd] at hfield
    cases hfield
  | ok d' =>
    rw [hd] at hfield
    cases hfield
    cases hgrid
    refine ⟨rfl, rfl, rfl, rfl, ?_⟩
    intro j i hj hi u v hu hv
    obtain ⟨_, hxi⟩ := Array.getElem?_eq_some_iff.1 hu
    obtain ⟨_, hyj⟩ := Array.getElem?_eq_some_iff.1 hv
    have hcell := f.tree.cell_valuesAt (show j < y.values.size from hj)
      (show i < x.values.size from hi)
    exact hcell.trans (congrArg₂ f.tree.value hxi hyj)

/-- The samples of an axis are those in its own unit. -/
theorem Axis.samples?_eq {a : Axis} {u : MeasureUnit} {limits : Limits} {s : Samples}
    (hu : MeasureUnit.resolve a.unit = .ok u) (hs : a.samplesIn? u limits = .ok s) :
    a.samples? limits = .ok s := by
  unfold samples?
  rw [hu, Except.ok_bind, hs]

namespace Request

variable {r : Request} {limits : Limits} {c : Contour}

/-- A result drawn with `x` on the horizontal axis shows the samples of the axes of the request.
Every request is run like this at first. -/
theorem shows_of_runPlain_eq_ok (h : r.runPlain limits = .ok c) :
    ∃ x y, r.xAxis.samples? limits = .ok x ∧ r.yAxis.samples? limits = .ok y ∧
      c.Shows ⟨r.xLabel, x⟩ ⟨r.yLabel, y⟩ ∧ c.swapped = false := by
  obtain ⟨xu, yu, target, f, x, y, g, hfinishes, rfl⟩ := exists_finishes_of_runPlain_eq_ok h
  exact ⟨x, y, Axis.samples?_eq hfinishes.resolve_x hfinishes.xSamples,
    Axis.samples?_eq hfinishes.resolve_y hfinishes.ySamples,
    Tree.shows_place hfinishes.grid r.xLabel r.yLabel target, rfl⟩

/-- Whether the axes of a request are exchanged decides how its result is drawn and nothing else.
Either both ways of drawing fail with the same fault, or both have a result. The two results then
show the values of the formula over the same samples, with rows and columns exchanged, and their
payloads display the same values and the same range. -/
theorem run_swapAxes (r : Request) (limits : Limits) :
    (∃ fault, { r with swapAxes := false }.run limits = .error fault ∧
      { r with swapAxes := true }.run limits = .error fault) ∨
    ∃ c c' x y, { r with swapAxes := false }.run limits = .ok c ∧
      { r with swapAxes := true }.run limits = .ok c' ∧
      r.xAxis.samples? limits = .ok x ∧ r.yAxis.samples? limits = .ok y ∧
      c.Shows ⟨r.xLabel, x⟩ ⟨r.yLabel, y⟩ ∧ c'.Shows ⟨r.xLabel, x⟩ ⟨r.yLabel, y⟩ ∧
      c.swapped = false ∧ c.Turned c' ∧
      ∀ title, (c.payload title).Turned (c'.payload title) := by
  rw [run_eq_map, run_eq_map]
  show (∃ fault, (r.runPlain limits).map (fun c => c) = .error fault ∧
      (r.runPlain limits).map Contour.swap = .error fault) ∨
    ∃ c c' x y, (r.runPlain limits).map (fun c => c) = .ok c ∧
      (r.runPlain limits).map Contour.swap = .ok c' ∧ _
  -- Both ways start with the same plain run.
  cases h : r.runPlain limits with
  | error fault => exact .inl ⟨fault, rfl, rfl⟩
  | ok c =>
    obtain ⟨x, y, hx, hy, hshows, hswapped⟩ := shows_of_runPlain_eq_ok h
    exact .inr ⟨c, c.swap, x, y, rfl, rfl, hx, hy, hshows, hshows.swap, hswapped, c.turned_swap,
      c.turned_payload_swap⟩

end Request

end UnitPlane
