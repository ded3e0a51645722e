import UnitPlane.Proofs.Contour
import UnitPlane.Proofs.Formula.Exchange
import UnitPlane.Proofs.Plane

/-!
# `UnitPlane.Proofs.Exchange`: jobs with the axes exchanged

Which variable belongs to which axis is decided in several places: where the coordinates of the
points of a plane are laid out, where the variables are bound to them, and where the result is
drawn. Together they treat the two axes alike. If the variables of a formula are exchanged and the
axes with them, the plane is transposed, and drawn the other way round it is the same picture.

* `Mirrors.field?`: the plane of the formula with the variables exchanged is the transposed plane.
* `exchanged_outcomes`: the same for dimensions, planes and whole jobs.
-/

set_option autoImplicit false

namespace UnitPlane

/-! ### Planes -/

/-- The values of the formula with the variables exchanged are the transposed values. The
coordinates of a cell are exchanged with its row and its column. -/
theorem Tree.ofVector_valuesAt_exchanged (t : Tree) (xs ys : Array Float) :
    (Plane.ofVector (t.valuesAt (columnValues xs ys) (rowValues xs ys))).transpose =
      .ofVector (t.exchanged.valuesAt (columnValues ys xs) (rowValues ys xs)) := by
  refine Plane.ext_cell rfl rfl ?_
  intro i j hi hj
  have hcell := Plane.cell_transpose
    (p := .ofVector (t.valuesAt (columnValues xs ys) (rowValues xs ys))) hj hi
  rw [hcell]
  exact (t.cell_valuesAt hj hi).trans
    ((t.value_exchanged _ _).symm.trans (t.exchanged.cell_valuesAt hi hj).symm)

namespace Mirrors

/-- With the samples and the dimensions of the variables exchanged too, the plane is transposed, and
a fault has the same code. The number of cells is the same product. -/
theorem field? (t : Tree) (xs ys : Array Float) (x y : Dimension) (limits : Limits) :
    Mirrors (fun r => (r.1.transpose, r.2)) (t.field? xs ys x y limits)
      (t.exchanged.field? ys xs y x limits) := by
  by_cases h : ys.size * xs.size ≤ limits.maxCells
  · rw [Tree.field?_eq _ _ _ _ _ h, Tree.field?_eq _ _ _ _ _ (by rwa [Nat.mul_comm])]
    refine (dimension? x y t).map ?_
    intro d
    rw [Tree.ofVector_valuesAt_exchanged]
    rfl
  · unfold Tree.field?
    dsimp only
    rw [if_pos (Nat.lt_of_not_le h), if_pos (by rw [Nat.mul_comm]; exact Nat.lt_of_not_le h)]
    exact .error rfl

/-- The grid of the formula with the variables exchanged is the transposed grid, in the same
unit. -/
theorem grid? (t : Tree) (xs ys : Samples) (limits : Limits) :
    Mirrors Grid.transpose (t.grid? xs ys limits) (t.exchanged.grid? ys xs limits) :=
  (field? t xs.values ys.values xs.dimension ys.dimension limits).bind fun _ => .ok _ _

/-- What is checked before sampling does not depend on which variable is which. Both variables are
one at the point where the formula is tried. -/
theorem preCheck (t : Tree) (x y : Dimension) (target : MeasureUnit) :
    Mirrors id (t.preCheck x y target) (t.exchanged.preCheck y x target) :=
  (value? 1 1 t).bind fun _ => (dimension? x y t).bind fun _ => .step fun _ => .ok _ _

end Mirrors

/-! ### Jobs -/

/-- Transposing a grid twice gives the grid back. -/
theorem Grid.transpose_transpose (g : Grid) : g.transpose.transpose = g := by
  unfold transpose
  rw [Plane.transpose_transpose]

/-- A formula is its tree and the text that it was read from, and whether there is one depends on
the tree alone. -/
theorem Formula.toOption_parse_eq (limits : Limits) (source : String) :
    (parse limits source).toOption = ((parse limits source).toOption.map tree).map fun t =>
      ⟨t, source⟩ := by
  cases h : parse limits source with
  | error e => rfl
  | ok f =>
    unfold parse at h
    split at h
    · cases h
    obtain ⟨ts, -, h⟩ := Except.bind_eq_ok.1 h
    obtain ⟨t, -, h⟩ := Except.bind_eq_ok.1 h
    cases h
    rfl

/-- The text is read as the formula with the variables exchanged, or refused if the formula is. -/
def Formula.ExchangedBy (limits : Limits) (source text : String) : Prop :=
  (parse limits text).toOption.map tree = (parse limits source).toOption.map fun f =>
    f.tree.exchanged

/-- The text with the letters exchanged is such a text. It is refused under the same limits, because
it has the same length. -/
theorem Formula.exchangedBy_exchangeLetters (limits : Limits) (source : String) :
    ExchangedBy limits source (exchangeLetters source) := by
  unfold ExchangedBy
  rw [(Mirrors.parse limits source).toOption, Option.map_map]
  rfl

/-- Such a text is read as the formula whose tree has the variables exchanged. -/
theorem Formula.ExchangedBy.toOption_parse {limits : Limits} {source text : String}
    (h : ExchangedBy limits source text) :
    (parse limits text).toOption =
      (parse limits source).toOption.map fun f => ⟨f.tree.exchanged, text⟩ := by
  unfold ExchangedBy at h
  rw [toOption_parse_eq limits text, h, Option.map_map]
  rfl

/-- The result with the variables of the formula exchanged, as the text now has them, and drawn the
other way round. -/
def Contour.exchanged (text : String) (c : Contour) : Contour :=
  { c.swap with formula := ⟨c.formula.tree.exchanged, text⟩, swapped := c.swapped }

namespace Request

/-- The request with another text for its formula and with the axes and their labels exchanged. The
result is drawn the other way round. -/
def exchanged (r : Request) (text : String) : Request :=
  { r with
    formula := text
    xLabel := r.yLabel
    yLabel := r.xLabel
    xAxis := r.yAxis
    yAxis := r.xAxis
    swapAxes := !r.swapAxes }

/-- What a job has a result from, step by step. The faults are left out, since exchanging the axes
changes which of two comes first. -/
theorem toOption_runPlain (r : Request) (limits : Limits) :
    (r.runPlain limits).toOption =
      (MeasureUnit.resolve r.xAxis.unit).toOption.bind fun xu =>
      (MeasureUnit.resolve r.yAxis.unit).toOption.bind fun yu =>
      (MeasureUnit.resolve r.targetUnit).toOption.bind fun target =>
      (Formula.parse limits r.formula).toOption.bind fun f =>
      (f.tree.preCheck xu.dimension yu.dimension target).toOption.bind fun _ =>
      (r.xAxis.samplesIn? xu limits).toOption.bind fun x =>
      (r.yAxis.samplesIn? yu limits).toOption.bind fun y =>
      (f.tree.grid? x y limits).toOption.bind fun grid =>
      (grid.postCheck target).toOption.bind fun _ =>
        some (.place f grid ⟨r.xLabel, x⟩ ⟨r.yLabel, y⟩ target) := by
  unfold runPlain
  simp only [Except.toOption_bind]
  rfl

variable {r : Request} {limits : Limits} {text : String}

/-- The stages of the exchanged request give the exchanged result. Two pairs of stages are done the
other way round, and the stages between see each variable in the other's place. -/
theorem toOption_runPlain_exchanged (h : Formula.ExchangedBy limits r.formula text) :
    ((r.exchanged text).runPlain limits).toOption =
      (r.runPlain limits).toOption.map (Contour.exchanged text) := by
  rw [toOption_runPlain, toOption_runPlain]
  show ((MeasureUnit.resolve r.yAxis.unit).toOption.bind fun yu =>
      (MeasureUnit.resolve r.xAxis.unit).toOption.bind fun xu =>
      (MeasureUnit.resolve r.targetUnit).toOption.bind fun target =>
      (Formula.parse limits text).toOption.bind fun f =>
      (f.tree.preCheck yu.dimension xu.dimension target).toOption.bind fun _ =>
      (r.yAxis.samplesIn? yu limits).toOption.bind fun y =>
      (r.xAxis.samplesIn? xu limits).toOption.bind fun x =>
      (f.tree.grid? y x limits).toOption.bind fun grid =>
      (grid.postCheck target).toOption.bind fun _ =>
        some (Contour.place f grid ⟨r.yLabel, y⟩ ⟨r.xLabel, x⟩ target)) = _
  -- The order of the units and that of the samples make no difference to whether there is a result.
  rw [Option.bind_comm]
  simp only [Option.map_bind, Function.comp_def]
  refine congrArg _ (funext fun xu =>
    congrArg _ (funext fun yu => congrArg _ (funext fun target => ?_)))
  rw [h.toOption_parse, Option.bind_map]
  refine congrArg _ (funext fun f => ?_)
  have hcheck := (Mirrors.preCheck f.tree xu.dimension yu.dimension target).toOption
  rw [Option.map_id] at hcheck
  show ((f.tree.exchanged.preCheck yu.dimension xu.dimension target).toOption.bind fun _ =>
      (r.yAxis.samplesIn? yu limits).toOption.bind fun y =>
      (r.xAxis.samplesIn? xu limits).toOption.bind fun x =>
      (f.tree.exchanged.grid? y x limits).toOption.bind fun grid =>
      (grid.postCheck target).toOption.bind fun _ =>
        some (Contour.place ⟨f.tree.exchanged, text⟩ grid ⟨r.yLabel, y⟩ ⟨r.xLabel, x⟩ target)) = _
  rw [hcheck]
  refine congrArg _ (funext fun _ => ?_)
  rw [Option.bind_comm]
  refine congrArg _ (funext fun x => congrArg _ (funext fun y => ?_))
  -- The last check reads the unit and the dimension of the grid, which transposing keeps.
  rw [(Mirrors.grid? f.tree x y limits).toOption, Option.bind_map]
  rfl

/-- The picture is the same, but for the names of the variables: what the exchange of the axes
transposes, drawing the other way round transposes back. -/
theorem toOption_run_exchanged (h : Formula.ExchangedBy limits r.formula text) :
    ((r.exchanged text).run limits).toOption = (r.run limits).toOption.map fun c =>
      { c with formula := ⟨c.formula.tree.exchanged, text⟩, swapped := !c.swapped } := by
  rw [run_eq_map, run_eq_map, Except.toOption_map, Except.toOption_map,
    toOption_runPlain_exchanged h, Option.map_map, Option.map_map]
  refine congrArg (fun f => Option.map f (r.runPlain limits).toOption) (funext fun c => ?_)
  show (if (!r.swapAxes) = true then (c.exchanged text).swap else c.exchanged text) =
    { (if r.swapAxes = true then c.swap else c) with
      formula := ⟨(if r.swapAxes = true then c.swap else c).formula.tree.exchanged, text⟩
      swapped := !(if r.swapAxes = true then c.swap else c).swapped }
  -- One of the two requests draws its result the other way round, and the other does not.
  cases r.swapAxes with
  | false =>
    show (c.exchanged text).swap =
      { c with formula := ⟨c.formula.tree.exchanged, text⟩, swapped := !c.swapped }
    unfold Contour.exchanged Contour.swap
    dsimp only
    rw [c.grid.transpose_transpose]
  | true =>
    show c.exchanged text =
      { c.swap with formula := ⟨c.formula.tree.exchanged, text⟩, swapped := !c.swap.swapped }
    unfold Contour.exchanged Contour.swap
    dsimp only
    rw [Bool.not_not]

end Request

/-- Exchanging the variables of a formula exchanges the axes and nothing else.

- `dimension?`: the dimension is the same once the dimensions of the variables are exchanged too, or
  the fault has the same code.
- `field?`: the plane is transposed once the samples are exchanged too, or the fault has the same
  code.
- `run`: a request with the axes and their labels exchanged, the result drawn the other way round,
  and a text that is read as the formula with the variables exchanged, has a result if and only if
  the request has. It is the same result but for the names of the variables.
- The text of the formula with the letters exchanged is such a text. -/
theorem exchanged_outcomes (t : Tree) (x y : Dimension) (xs ys : Array Float) (r : Request)
    (limits : Limits) :
    (t.exchanged.dimension? y x).mapError Fault.code = (t.dimension? x y).mapError Fault.code ∧
    (t.exchanged.field? ys xs y x limits).mapError Fault.code =
      ((t.field? xs ys x y limits).map fun p => (p.1.transpose, p.2)).mapError Fault.code ∧
    (∀ text, Formula.ExchangedBy limits r.formula text →
      ((r.exchanged text).run limits).toOption = (r.run limits).toOption.map fun c =>
        { c with formula := ⟨c.formula.tree.exchanged, text⟩, swapped := !c.swapped }) ∧
    Formula.ExchangedBy limits r.formula (exchangeLetters r.formula) := by
  refine ⟨?_, Mirrors.field? t xs ys x y limits, fun _ => Request.toOption_run_exchanged,
    Formula.exchangedBy_exchangeLetters limits r.formula⟩
  have hdimension := Mirrors.dimension? x y t
  unfold Mirrors at hdimension
  rwa [Except.map_id] at hdimension

/-- The differences of the numbers from one to three and of one and two. -/
def Request.differences : Request where
  title := "t"
  xLabel := "x"
  yLabel := "y"
  formula := "x-y"
  targetUnit := ""
  xAxis := ⟨1, 3, .count 3, .linear, ""⟩
  yAxis := ⟨1, 2, .count 2, .linear, ""⟩

/-- The differences are those of the other axes with the variables exchanged, drawn the other way
round. -/
theorem exchanged_outcomes_differences :
    ∃ c, Request.differences.run {} = .ok c ∧ Formula.ExchangedBy {} "x-y" "y-x" ∧
      ((Request.differences.exchanged "y-x").run {}).toOption =
        some { c with formula := ⟨c.formula.tree.exchanged, "y-x"⟩, swapped := !c.swapped } := by
  have hrun : (Request.differences.run {}).toOption.isSome = true := by decide +kernel
  obtain ⟨-, -, hexchanged, htext⟩ :=
    exchanged_outcomes (.var .x) .dimensionless .dimensionless #[] #[] Request.differences {}
  have hletters : exchangeLetters "x-y" = "y-x" := by decide
  change Formula.ExchangedBy {} "x-y" (exchangeLetters "x-y") at htext
  rw [hletters] at htext
  cases h : Request.differences.run {} with
  | error fault =>
    rw [h] at hrun
    cases hrun
  | ok c =>
    refine ⟨c, rfl, htext, ?_⟩
    rw [hexchanged "y-x" htext, h]
    rfl

end UnitPlane
