import UnitPlane.Proofs.Axis
import UnitPlane.Proofs.Contour
import UnitPlane.Proofs.Formula.Arena.Trees

/-!
# `UnitPlane.Proofs.Limits`: limits only refuse jobs

Limits are compared in seven places, between steps that fail for other reasons. Each comparison
either refuses with the fault of the limit, or leaves no trace in the result. So a job under lower
limits does what it does under higher ones, or is refused by a limit.

The comparisons of an axis are between doubles. A higher limit is a double that is no lower, though
it may be the same one, and that is all that the proof needs of them.

* `Request.run_within_and_settles`: a result keeps all limits, and it is also the result under all
  higher ones.
-/

set_option autoImplicit false

namespace UnitPlane

namespace Settles

variable {l l' : Limits}

/-! ### Axes -/

/-- Counts and limits are compared as doubles, and a higher limit is no lower as a double. So a
count that is let through is let through by higher limits. -/
theorem checkCount (h : l.Below l') (count : ℤ) :
    Settles (Axis.checkCount l count : Except Fault Unit) (Axis.checkCount l' count) := by
  unfold Axis.checkCount
  by_cases hlt : Float.ofNat l.maxCells < Float.ofInt count
  · rw [if_pos hlt]
    exact .of_limitExceeded .cells nofun _ _ _
  · -- Conversion to a double is monotone, so what the lower limit lets through the higher one does
    -- too.
    have hlt' : ¬ Float.ofNat l'.maxCells < Float.ofInt count := by
      intro hcount
      exact hlt (Double.lt_of_le_of_lt (Double.ofNat_le_ofNat h.cells) hcount)
    rw [if_neg hlt, if_neg hlt']
    exact .refl _

/-- The number of steps is counted in the same way under all limits, and then compared. -/
theorem stepCount (h : l.Below l') (start stop step : Float) :
    Settles (Axis.stepCount l start stop step) (Axis.stepCount l' start stop step) := by
  unfold Axis.stepCount
  cases Axis.stepsIn? ((stop - start) / step) with
  | none => exact .refl _
  | some count => exact (checkCount h count).bind fun _ => .refl _

/-- The number of samples is compared with the limit after it is known to be a count at all. -/
theorem sampleCount (h : l.Below l') (n : Float) :
    Settles (Axis.sampleCount l n) (Axis.sampleCount l' n) := by
  unfold Axis.sampleCount
  cases Rounding.toInt? n with
  | none => exact .refl _
  | some count =>
    dsimp only
    split
    · exact (Settles.refl _).bind fun _ => (checkCount h count).bind fun _ => .refl _
    · exact (checkCount h count).bind fun _ => .refl _

/-- The samples of an axis settle. The limits are looked at in one place for each kind of
density. -/
theorem values (h : l.Below l') (a : Axis) (u : MeasureUnit) (start stop : Float) :
    Settles (a.values u l start stop) (a.values u l' start stop) := by
  unfold Axis.values
  -- The four kinds of axis are the cases, and a logarithmic one with a step size is refused before
  -- any limit.
  cases a.density with
  | step size =>
    cases a.spacing with
    | logarithmic => exact .refl _
    | linear => exact (Settles.refl _).bind fun _ => (stepCount h _ _ _).bind fun _ => .refl _
  | count n =>
    cases a.spacing with
    | linear => exact (sampleCount h n).bind fun _ => .refl _
    | logarithmic =>
      dsimp only
      split
      · exact (Settles.refl _).bind fun _ => (sampleCount h n).bind fun _ => .refl _
      · exact (sampleCount h n).bind fun _ => .refl _

/-- The samples of an axis in a unit settle, as the faults of its ends and its unit have nothing to
do with limits. -/
theorem samplesIn? (h : l.Below l') (a : Axis) (u : MeasureUnit) :
    Settles (a.samplesIn? u l) (a.samplesIn? u l') := by
  unfold Axis.samplesIn?
  refine (Settles.refl _).bind fun _ => (Settles.refl _).bind fun start => ?_
  refine (Settles.refl _).bind fun stop => ?_
  split
  · exact (Settles.refl _).bind fun _ => (values h a u start stop).bind fun _ => .refl _
  · exact (values h a u start stop).bind fun _ => .refl _

/-! ### Grids and jobs -/

/-- A grid settles. The number of its cells is compared before any value is computed. -/
theorem grid? (h : l.Below l') (t : Tree) (xs ys : Samples) :
    Settles (t.grid? xs ys l) (t.grid? xs ys l') := by
  refine Settles.bind ?_ fun _ => .refl _
  unfold Tree.field?
  dsimp only
  by_cases hlt : l.maxCells < ys.values.size * xs.values.size
  · rw [if_pos hlt]
    exact .of_limitExceeded .cells nofun _ _ _
  · have hlt' : ¬ l'.maxCells < ys.values.size * xs.values.size := by
      intro hcells
      exact hlt (lt_of_le_of_lt h.cells hcells)
    rw [if_neg hlt, if_neg hlt']
    exact .refl _

/-- A job with a result, or refused for anything but a limit, has the same outcome under higher
limits. It is a chain of steps that do. -/
theorem run (h : l.Below l') (r : Request) : Settles (r.run l) (r.run l') := by
  refine Settles.bind ?_ fun _ => .refl _
  unfold Request.runPlain
  -- The units are resolved before any limit is looked at.
  refine (Settles.refl _).bind fun xu => (Settles.refl _).bind fun yu => ?_
  refine (Settles.refl _).bind fun target => (Settles.parse h r.formula).bind fun f => ?_
  refine (Settles.refl _).bind fun _ => (samplesIn? h r.xAxis xu).bind fun x => ?_
  exact (samplesIn? h r.yAxis yu).bind fun y => (grid? h f.tree x y).bind fun _ => .refl _

end Settles

/-- A plane that was computed has a cell for each pair of samples, and these were counted before. -/
theorem Tree.cells_le_of_grid?_eq_ok {t : Tree} {xs ys : Samples} {l : Limits}
    {g : Grid} (h : t.grid? xs ys l = .ok g) : g.plane.rows * g.plane.cols ≤ l.maxCells := by
  obtain ⟨⟨p, d⟩, hfield, h⟩ := Except.bind_eq_ok.1 h
  have hcells := Tree.le_maxCells_of_field?_eq_ok hfield
  rw [Tree.field?_eq _ _ _ _ _ hcells] at hfield
  obtain ⟨d', -, hplane⟩ := Except.bind_eq_ok.1 hfield
  cases hplane
  cases h
  exact hcells

namespace Request

/-- A result keeps the limits: on the length of the text, on the nodes and the depth of the tree,
and on the cells of the grid. -/
structure Within (r : Request) (l : Limits) (c : Contour) : Prop where
  formulaLen : r.formula.utf8ByteSize ≤ l.maxFormulaLen
  nodes : c.formula.tree.size ≤ l.maxNodes
  depth : c.formula.tree.depth ≤ l.maxDepth
  cells : c.grid.plane.rows * c.grid.plane.cols ≤ l.maxCells

/-- The result of a job keeps the limits, because each was compared on the way to it. -/
theorem within_of_runPlain_eq_ok {r : Request} {l : Limits} {c : Contour}
    (h : r.runPlain l = .ok c) : r.Within l c := by
  obtain ⟨xu, yu, target, f, x, y, g, hfinishes, rfl⟩ := exists_finishes_of_runPlain_eq_ok h
  obtain ⟨hlen, hnodes, hdepth⟩ := Formula.within_of_parse hfinishes.parse
  exact ⟨hlen, hnodes, hdepth, Tree.cells_le_of_grid?_eq_ok hfinishes.grid⟩

/-- Exchanged axes leave as many cells, and the same formula. -/
theorem Within.swap {r : Request} {l : Limits} {c : Contour} (h : r.Within l c) :
    r.Within l c.swap where
  formulaLen := h.formulaLen
  nodes := h.nodes
  depth := h.depth
  cells := by
    show c.grid.plane.cols * c.grid.plane.rows ≤ l.maxCells
    rw [Nat.mul_comm]
    exact h.cells

/-- The result of a job keeps the limits, whichever way it is drawn. -/
theorem within_of_run_eq_ok {r : Request} {l : Limits} {c : Contour} (h : r.run l = .ok c) :
    r.Within l c := by
  unfold run at h
  obtain ⟨c', hplain, h⟩ := Except.bind_eq_ok.1 h
  have hwithin := within_of_runPlain_eq_ok hplain
  -- Exchanging the axes is the last step, and it looks at no limit.
  cases hswap : r.swapAxes with
  | false =>
    rw [hswap] at h
    cases h
    exact hwithin
  | true =>
    rw [hswap] at h
    cases h
    exact hwithin.swap

/-- Limits do nothing but refuse. A result keeps all of them, and a result or a fault that is not
that of a limit is the outcome under all higher limits too. -/
theorem run_within_and_settles (r : Request) (l : Limits) :
    (∀ c, r.run l = .ok c → r.Within l c) ∧
      ∀ l', l.Below l' → (∀ fault, r.run l = .error fault → ¬ fault.OfLimits) →
        r.run l' = r.run l :=
  ⟨fun _ h => within_of_run_eq_ok h, fun _ h hno => (Settles.run h r hno).symm⟩

/-- The sum of two axes with three samples and two. It is a small job that keeps all limits. -/
def sums : Request where
  title := "t"
  xLabel := "x"
  yLabel := "y"
  formula := "x+y"
  targetUnit := ""
  xAxis := ⟨1, 3, .count 3, .linear, ""⟩
  yAxis := ⟨1, 2, .count 2, .linear, ""⟩

/-- The sums keep the limits that all jobs start from, and are the same where more cells are
allowed. -/
theorem run_within_and_settles_sums :
    ∃ c, sums.run {} = .ok c ∧ sums.Within {} c ∧ sums.run { maxCells := 5000000 } = .ok c := by
  have hrun : (sums.run {}).toOption.isSome = true := by decide +kernel
  have hbelow : ({} : Limits).Below { maxCells := 5000000 } := ⟨le_rfl, le_rfl, le_rfl, by decide⟩
  obtain ⟨hwithin, hsettles⟩ := run_within_and_settles sums {}
  cases h : sums.run {} with
  | error fault =>
    rw [h] at hrun
    cases hrun
  | ok c =>
    refine ⟨c, rfl, hwithin c h, ?_⟩
    rw [hsettles _ hbelow, h]
    intro fault hfault
    rw [h] at hfault
    cases hfault

end Request

end UnitPlane
