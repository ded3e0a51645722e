import UnitPlane.Proofs.Contour.Stages
import UnitPlane.Proofs.Field
import UnitPlane.Proofs.MeasureUnit.BaseUnit

/-!
# `UnitPlane.Proofs.Contour`: which requests have a result

`Request.Accepted` collects what a request is checked for before its formula is evaluated: units
that resolve, a formula, a dimension that is wanted, samples, and a plane that is small enough. A
request that is accepted can still fail, but in one way only. The grid is in the base unit of its
dimension, and the last check reads that unit from its text, which it refuses if an exponent is
beyond the bound on written exponents.

* `Request.run_isOk_iff`: a request has a result when it is accepted and the dimension of its target
  is within that bound. All dimensions of the result are then the same.
* `Request.run_target_beyond_bound`: a request that is accepted and has no result.
-/

set_option autoImplicit false

namespace UnitPlane

/-! ### The two checks -/

/-- The first check passes just when the formula has a value at the point where both variables are
one, and has the dimension of the target. What it gives is this dimension. -/
theorem Tree.preCheck_eq_ok_iff {t : Tree} {x y d : Dimension} {target : MeasureUnit} :
    t.preCheck x y target = .ok d ↔
      (∃ v, t.value? 1 1 = .ok v) ∧ t.dimension? x y = .ok d ∧ d = target.dimension := by
  unfold Tree.preCheck
  cases t.value? 1 1 with
  | error e => simp
  | ok v =>
    cases t.dimension? x y with
    | error e => simp
    | ok actual =>
      -- The two are compared only here, after both ways to fail before.
      by_cases h : actual = target.dimension
      · simp [Dimension.require, h, eq_comm]
      · simp [Dimension.require, h]
        rintro rfl
        exact h

/-- On a grid in the base unit of the target's dimension, the last check passes exactly if that
dimension is within the bound on written exponents. Otherwise it cannot read the unit of its own
grid. -/
theorem Grid.postCheck_inBaseUnit (p : Plane) {d : Dimension} {target : MeasureUnit}
    (h : d = target.dimension) :
    (d.Writable → (Grid.inBaseUnit p d).postCheck target = .ok d) ∧
    (¬ d.Writable →
      ∃ cause, (Grid.inBaseUnit p d).postCheck target =
        .error (.undefinedUnit d.baseUnit cause)) := by
  obtain ⟨hok, herror⟩ := MeasureUnit.resolve_baseUnit d
  have hunit : (Grid.inBaseUnit p d).unit.expr = d.baseUnit := rfl
  unfold Grid.postCheck
  rw [hunit]
  constructor
  · intro hd
    rw [hok hd]
    simp [MeasureUnit.base, Grid.inBaseUnit, Dimension.require, h]
  · intro hd
    obtain ⟨cause, hcause⟩ := herror hd
    exact ⟨cause, by rw [hcause]; rfl⟩

/-- Samples are in the unit that they were asked for in. Their dimension is therefore that of the
unit on the axis. -/
theorem Axis.unit_of_samplesIn?_eq_ok {a : Axis} {u : MeasureUnit} {limits : Limits} {s : Samples}
    (h : a.samplesIn? u limits = .ok s) : s.unit = u := by
  unfold Axis.samplesIn? at h
  obtain ⟨_, -, h⟩ := Except.bind_eq_ok.1 h
  obtain ⟨start, -, h⟩ := Except.bind_eq_ok.1 h
  obtain ⟨stop, -, h⟩ := Except.bind_eq_ok.1 h
  split at h
  · cases h
  obtain ⟨values, -, h⟩ := Except.bind_eq_ok.1 h
  obtain ⟨_, -, h⟩ := Except.bind_eq_ok.1 h
  cases h
  rfl

namespace Request

/-! ### Accepted requests -/

/-- What a request is checked for before its formula is evaluated, and what the checks find:

- `xUnit`, `yUnit`, `targetUnit`: the three units resolve;
- `formula`: the text of the formula has a tree;
- `preCheck`: the formula has the dimension of the target;
- `xSamples`, `ySamples`: both axes have samples;
- `cells`: their plane is within the limit. -/
structure Accepted (r : Request) (limits : Limits) (xu yu target : MeasureUnit) (f : Formula)
    (d : Dimension) (x y : Samples) : Prop where
  xUnit : MeasureUnit.resolve r.xAxis.unit = .ok xu
  yUnit : MeasureUnit.resolve r.yAxis.unit = .ok yu
  targetUnit : MeasureUnit.resolve r.targetUnit = .ok target
  formula : Formula.parse limits r.formula = .ok f
  preCheck : f.tree.preCheck xu.dimension yu.dimension target = .ok d
  xSamples : r.xAxis.samplesIn? xu limits = .ok x
  ySamples : r.yAxis.samplesIn? yu limits = .ok y
  cells : y.values.size * x.values.size ≤ limits.maxCells

variable {r : Request} {limits : Limits} {xu yu target : MeasureUnit} {f : Formula} {d : Dimension}
  {x y : Samples}

/-- The grid of an accepted request is there, in the base unit of the target's dimension. The
dimension that the evaluation finds is the one that the first check found. -/
theorem Accepted.grid?_eq (h : r.Accepted limits xu yu target f d x y) :
    ∃ p, f.tree.grid? x y limits = .ok (.inBaseUnit p d) := by
  have hdim := (Tree.preCheck_eq_ok_iff.1 h.preCheck).2.1
  have hx : x.dimension = xu.dimension :=
    congrArg MeasureUnit.dimension (Axis.unit_of_samplesIn?_eq_ok h.xSamples)
  have hy : y.dimension = yu.dimension :=
    congrArg MeasureUnit.dimension (Axis.unit_of_samplesIn?_eq_ok h.ySamples)
  rw [Tree.grid?, Tree.field?_eq _ _ _ _ _ h.cells, hx, hy, hdim]
  exact ⟨_, rfl⟩

/-- An accepted request is decided by the last check of its grid, since everything before it has
succeeded. -/
theorem Accepted.runPlain_eq_bind {g : Grid} (h : r.Accepted limits xu yu target f d x y)
    (hgrid : f.tree.grid? x y limits = .ok g) :
    r.runPlain limits =
      g.postCheck target >>= fun _ => .ok (.place f g ⟨r.xLabel, x⟩ ⟨r.yLabel, y⟩ target) := by
  unfold runPlain
  rw [h.xUnit, h.yUnit, h.targetUnit, h.formula]
  simp only [Except.ok_bind, h.preCheck, h.xSamples, h.ySamples, hgrid, Except.pure_eq_ok]

/-- An accepted request is its grid, the last check, and the placing of the result. Which cells the
grid has does not matter for the check. -/
theorem Accepted.runPlain_eq (h : r.Accepted limits xu yu target f d x y) :
    ∃ p, r.runPlain limits =
      (Grid.inBaseUnit p d).postCheck target >>= fun _ =>
        .ok (.place f (.inBaseUnit p d) ⟨r.xLabel, x⟩ ⟨r.yLabel, y⟩ target) := by
  obtain ⟨p, hgrid⟩ := h.grid?_eq
  exact ⟨p, h.runPlain_eq_bind hgrid⟩

/-- A request with a result was accepted. Where its plane was too large there would be no grid. -/
theorem accepted_of_runPlain_eq_ok {c : Contour} (h : r.runPlain limits = .ok c) :
    ∃ xu yu target f d x y, r.Accepted limits xu yu target f d x y := by
  -- What the stages gave are the conditions; the grid bounds the cells.
  obtain ⟨xu, yu, target, f, x, y, g, hfinishes, -⟩ := exists_finishes_of_runPlain_eq_ok h
  obtain ⟨d, hd⟩ := hfinishes.preCheck
  obtain ⟨_, hfield, -⟩ := Except.bind_eq_ok.1 hfinishes.grid
  exact ⟨xu, yu, target, f, d, x, y, hfinishes.resolve_x, hfinishes.resolve_y,
    hfinishes.resolve_target, hfinishes.parse, hd, hfinishes.xSamples, hfinishes.ySamples,
      Tree.le_maxCells_of_field?_eq_ok hfield⟩

/-- Exchanging the axes of a result does not change what it measures, and it is done at the end, so
it cannot make a job fail. -/
theorem run_eq_map (r : Request) (limits : Limits) :
    r.run limits = (r.runPlain limits).map fun c => if r.swapAxes then c.swap else c := by
  unfold run
  cases r.runPlain limits with
  | error e => rfl
  | ok c => rfl

/-- A result is drawn as it is if the axes are not exchanged, so the job ends where its stages
end. -/
theorem run_eq_runPlain (h : r.swapAxes = false) : r.run limits = r.runPlain limits := by
  rw [run_eq_map, h]
  cases r.runPlain limits with
  | error e => rfl
  | ok c => rfl

/-- An accepted request whose target is within the bound has a result of the target's dimension,
with the formula that was read and in the unit that was asked for. -/
theorem Accepted.run_eq_ok (h : r.Accepted limits xu yu target f d x y) (hd : d.Writable) :
    ∃ c, r.run limits = .ok c ∧ c.formula = f ∧ c.displayUnit = target ∧ c.grid.dimension = d := by
  obtain ⟨p, hrun⟩ := h.runPlain_eq
  have htarget := (Tree.preCheck_eq_ok_iff.1 h.preCheck).2.2
  rw [run_eq_map, hrun, (Grid.postCheck_inBaseUnit p htarget).1 hd]
  refine ⟨_, rfl, ?_⟩
  cases r.swapAxes with
  | true => exact ⟨rfl, rfl, rfl⟩
  | false => exact ⟨rfl, rfl, rfl⟩

/-- An accepted request whose target is beyond the bound fails on the unit of its own grid. The
fault names the base unit, which nobody wrote. -/
theorem Accepted.run_eq_error (h : r.Accepted limits xu yu target f d x y) (hd : ¬ d.Writable) :
    ∃ cause, r.run limits = .error (.undefinedUnit d.baseUnit cause) := by
  obtain ⟨p, hrun⟩ := h.runPlain_eq
  have htarget := (Tree.preCheck_eq_ok_iff.1 h.preCheck).2.2
  obtain ⟨cause, hcause⟩ := (Grid.postCheck_inBaseUnit p htarget).2 hd
  exact ⟨cause, by rw [run_eq_map, hrun, hcause]; rfl⟩

/-- A request has a result exactly if it is accepted and every exponent of the target's dimension is
within the bound on written exponents. The grid, the formula and the target then have the dimension
that was found before any sample was taken. Beyond the bound, an accepted request fails on the base
unit of its own grid. -/
theorem run_isOk_iff (r : Request) (limits : Limits) :
    ((∃ c, r.run limits = .ok c) ↔
      ∃ xu yu target f d x y, r.Accepted limits xu yu target f d x y ∧ target.dimension.Writable) ∧
    (∀ xu yu target f d x y, r.Accepted limits xu yu target f d x y →
      (∀ c, r.run limits = .ok c → c.grid.dimension = d ∧ target.dimension = d ∧
        f.tree.dimension? xu.dimension yu.dimension = .ok d) ∧
      (¬ target.dimension.Writable →
        ∃ cause, r.run limits = .error (.undefinedUnit d.baseUnit cause))) := by
  refine ⟨⟨?_, ?_⟩, ?_⟩
  · rintro ⟨c, hc⟩
    rw [run_eq_map] at hc
    cases hplain : r.runPlain limits with
    | error e =>
      rw [hplain] at hc
      cases hc
    | ok c' =>
      obtain ⟨xu, yu, target, f, d, x, y, h⟩ := accepted_of_runPlain_eq_ok hplain
      refine ⟨xu, yu, target, f, d, x, y, h, ?_⟩
      have htarget := (Tree.preCheck_eq_ok_iff.1 h.preCheck).2.2
      -- Beyond the bound the run would have failed, and it has a result.
      refine Decidable.not_not.1 fun hd => ?_
      obtain ⟨cause, hcause⟩ := h.run_eq_error (htarget ▸ hd)
      rw [run_eq_map, hplain] at hcause
      cases hcause
  · rintro ⟨xu, yu, target, f, d, x, y, h, hd⟩
    have htarget := (Tree.preCheck_eq_ok_iff.1 h.preCheck).2.2
    obtain ⟨c, hc, -⟩ := h.run_eq_ok (htarget ▸ hd)
    exact ⟨c, hc⟩
  · intro xu yu target f d x y h
    obtain ⟨-, hdim, htarget⟩ := Tree.preCheck_eq_ok_iff.1 h.preCheck
    refine ⟨fun c hc => ⟨?_, htarget.symm, hdim⟩, fun hd => h.run_eq_error (htarget ▸ hd)⟩
    by_cases hd : d.Writable
    · obtain ⟨c', hc', -, -, hgrid⟩ := h.run_eq_ok hd
      rw [hc] at hc'
      cases hc'
      exact hgrid
    · obtain ⟨cause, hcause⟩ := h.run_eq_error hd
      rw [hc] at hcause
      cases hcause

/-! ### A target beyond the bound -/

open UnitExpression in
/-- The product of a thousandth power and a first power is read, with the exponent 1001. The bound
is on written exponents, and 1001 is written nowhere. -/
theorem read_thousand_and_one :
    read "m**1000*m".toList = .ok ⟨{ length := .ofInt32 1001 }, 1⟩ := by
  -- Both powers are within the bound by themselves, and only their product is beyond it.
  have hfirst : Except.plain (readTerm "m**1000*m".toList) =
      .ok (⟨.single .length (Exponent.magnitude (.ofInt32 1000)), 1⟩, ['*', 'm']) :=
    (plain_readTerm_written .length (.ofInt32 1000) (.times (by decide))).1 (by decide)
  have hsecond : Except.plain (readTerm ['m']) =
      .ok (⟨.single .length (Exponent.magnitude (.ofInt32 1)), 1⟩, []) :=
    (plain_readTerm_written .length (.ofInt32 1) .stop).1 (by decide)
  have hstar : ['m'].head? ≠ some '*' := by decide
  obtain ⟨_, hsign⟩ := productSign?_times hstar
  have hstop : productSign? [] = none := by decide
  have happly : ProductSign.times.apply
      ⟨.single .length (Exponent.magnitude (.ofInt32 1000)), 1⟩
      ⟨.single .length (Exponent.magnitude (.ofInt32 1)), 1⟩ =
        some ⟨{ length := .ofInt32 1001 }, 1⟩ := by
    decide
  rw [read_eq, plain_readProduct, hfirst, Except.ok_bind, plain_readProductRest, hsign]
  dsimp only
  rw [hsecond, Except.ok_bind]
  simp only [happly]
  rw [plain_readProductRest, hstop]
  rfl

/-- The product of a thousandth power and a first power resolves, with the exponent 1001 and the
size one. -/
theorem resolve_thousand_and_one :
    MeasureUnit.resolve "m**1000*m" = .ok ⟨"m**1000*m", { length := .ofInt32 1001 }, 1⟩ := by
  have hevaluate : UnitExpression.evaluate "m**1000*m".toList =
      .ok ⟨{ length := .ofInt32 1001 }, 1⟩ := by
    unfold UnitExpression.evaluate
    rw [if_neg (by decide), read_thousand_and_one]
    rfl
  have htrim : Text.trim "m**1000*m".toList = "m**1000*m".toList := by decide
  unfold MeasureUnit.resolve
  dsimp only
  rw [htrim, if_neg (by decide), hevaluate]
  rfl

/-- A request with the 1001st power of a length on both axes and as its target. Its formula is just
the first variable. -/
def thousandAndOne : Request where
  title := "t"
  xLabel := "x"
  yLabel := "y"
  formula := "x"
  targetUnit := "m**1000*m"
  xAxis := ⟨1, 3, .count 2, .linear, "m**1000*m"⟩
  yAxis := ⟨1, 2, .count 2, .linear, "m**1000*m"⟩

/-- A request whose target has the exponent 1001 is accepted, and has no result. -/
theorem run_target_beyond_bound :
    (∃ xu yu target f d x y, thousandAndOne.Accepted {} xu yu target f d x y) ∧
      ¬ ∃ c, thousandAndOne.run {} = .ok c := by
  have haccepted : thousandAndOne.Accepted {}
      ⟨"m**1000*m", { length := .ofInt32 1001 }, 1⟩ ⟨"m**1000*m", { length := .ofInt32 1001 }, 1⟩
      ⟨"m**1000*m", { length := .ofInt32 1001 }, 1⟩ ⟨.var .x, "x"⟩ { length := .ofInt32 1001 }
      ⟨#[1, 3], "m**1000*m", { length := .ofInt32 1001 }, 1⟩
      ⟨#[1, 2], "m**1000*m", { length := .ofInt32 1001 }, 1⟩ :=
    { xUnit := resolve_thousand_and_one
      yUnit := resolve_thousand_and_one
      targetUnit := resolve_thousand_and_one
      formula := by decide +kernel
      preCheck := by decide +kernel
      xSamples := by decide +kernel
      ySamples := by decide +kernel
      cells := by decide }
  refine ⟨⟨_, _, _, _, _, _, _, haccepted⟩, ?_⟩
  rintro ⟨c, hc⟩
  -- The base unit of the grid is `m**1001`, and 1001 is beyond the bound.
  obtain ⟨cause, hcause⟩ := haccepted.run_eq_error (by decide)
  rw [hc] at hcause
  cases hcause

end Request

end UnitPlane
