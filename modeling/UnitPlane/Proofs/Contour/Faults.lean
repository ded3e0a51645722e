import UnitPlane.Proofs.Contour.Stages
import UnitPlane.Proofs.Formula.Walk
import UnitPlane.Proofs.MeasureUnit.Lines

/-!
# `UnitPlane.Proofs.Contour.Faults`: faults of jobs are on one line

The faults of a job are on one line as long as the unit expressions are: each stage either writes
anew what its faults say, or takes over words of the formula, or the expression of a unit. A formula
may itself have line breaks, because white space separates its words. Its faults have none, since
they name single words, or print a part of the tree.

The stages are gone through in the order of a job: the walks over the tree, the checks before and
after them, the axes, and the job as a whole. A stage is a chain of steps, and each step is on one
line by its own lemma.

* `Request.inline_of_run_eq_error`: with unit expressions on one line, the fault of a job is on one
  line.
-/

set_option autoImplicit false

namespace UnitPlane

/-! ### Walks -/

/-- Whatever a stage gives, its fault is on one line. -/
abbrev InlineStage {α : Type} (x : Except Fault α) : Prop :=
  Except.Outcome (fun _ => True) Fault.Inline x

/-- A walk whose operators fail on one line fails on one line. Variables and literals do not
fail. -/
theorem Walk.inline_run {α : Type} {w : Walk α}
    (h : ∀ op l r a b, InlineStage (w.result op l r a b)) (t : Tree) :
    InlineStage (w.run t) := by
  -- The induction is on the tree; a node fails where one of its operands does or its operator.
  induction t with
  | var v =>
    rw [run_var]
    trivial
  | literal value =>
    rw [run_literal]
    trivial
  | binary op l r ihl ihr =>
    rw [run_binary]
    exact ihl.bind fun a _ => ihr.bind fun b _ => h op l r a b

namespace Tree

/-- The fault of an evaluation names the part that divides by zero, as it is printed, and printed
text is on one line. -/
theorem inline_value? (x y : Float) (t : Tree) : InlineStage (t.value? x y) := by
  refine Walk.inline_run (fun op l r a b => ?_) t
  unfold Walk.point
  dsimp only
  split
  · exact List.forall_mem_singleton.2 (oneLine_text _)
  · trivial

end Tree

/-- The fault of an exponent that is too large takes over nothing. -/
theorem Dimension.inline_orOverflow (d : Option Dimension) :
    InlineStage (Dimension.orOverflow d) := by
  cases d with
  | none => exact nofun
  | some d => trivial

namespace Operator

/-- The faults of a power name its exponent or its base, as they are printed. -/
theorem inline_combinePower (exponent : Tree) (base dimension : Dimension)
    (constant : Option Float) :
    InlineStage (combinePower exponent base dimension constant) := by
  have htext : ∀ s ∈ [exponent.text], OneLine s := List.forall_mem_singleton.2 exponent.oneLine_text
  unfold combinePower
  -- The four checks of a power, in their order; the first, the third and the fourth name the
  -- exponent.
  split
  · exact htext
  split
  · trivial
  split
  · exact htext
  split
  · exact htext
  · exact Dimension.inline_orOverflow _

/-- The fault of an operator names the whole node or its right operand, as they are printed. -/
theorem inline_combine (op : Operator) (whole right : Tree) (l r : Dimension)
    (constant : Option Float) :
    InlineStage (op.combine whole right l r constant) := by
  have hsum :
      InlineStage (if l = r then pure l else throw (.dimensionMismatch whole.text l r)) := by
    split
    · trivial
    · exact List.forall_mem_singleton.2 whole.oneLine_text
  cases op with
  | add => exact hsum
  | sub => exact hsum
  | mul => exact Dimension.inline_orOverflow _
  | div => exact Dimension.inline_orOverflow _
  | pow => exact inline_combinePower right l r constant

end Operator

namespace Tree

/-- What a formula without a dimension is refused with is on one line. -/
theorem inline_dimension? (x y : Dimension) (t : Tree) : InlineStage (t.dimension? x y) := by
  have htyping : InlineStage (t.typing? x y) := by
    refine Walk.inline_run (fun op l r a b => ?_) t
    exact (op.inline_combine (.binary op l r) r a.dimension b.dimension b.constant).bind fun _ _ =>
      trivial
  exact htyping.bind fun _ _ => trivial

/-- A formula that cannot be evaluated on a plane is refused on one line. -/
theorem inline_measure {n : Nat} (xs ys : Vector Float n) (x y : Dimension) (t : Tree) :
    InlineStage (t.measure xs ys x y) := by
  refine Walk.inline_run (fun op l r a b => ?_) t
  exact (op.inline_combine (.binary op l r) r a.dimension b.dimension _).bind fun _ _ => trivial

end Tree

/-! ### Checks and grids -/

/-- The fault of a dimension that is not the one wanted has the two dimensions as they are printed,
without line breaks. -/
theorem Dimension.inline_require (stage : Stage) (actual expected : Dimension) :
    InlineStage (Dimension.require stage actual expected) := by
  unfold Dimension.require
  split
  · trivial
  · exact nofun

/-- The first check fails on one line: where the formula has no value, where it has no dimension,
and where it has the wrong one. -/
theorem Tree.inline_preCheck (t : Tree) (x y : Dimension) (target : MeasureUnit) :
    InlineStage (t.preCheck x y target) :=
  (t.inline_value? 1 1).bind fun _ _ => (t.inline_dimension? x y).bind fun _ _ =>
    (Dimension.inline_require _ _ _).bind fun _ _ => trivial

/-- A grid is in a base unit, whose expression is on one line, and an evaluation that fails does so
on one line. The last check needs the first of these. -/
theorem Tree.inline_grid? (t : Tree) (xs ys : Samples) (limits : Limits) :
    Except.Outcome (fun g : Grid => OneLine g.unit.expr) Fault.Inline (t.grid? xs ys limits) := by
  have hfield : InlineStage (t.field? xs.values ys.values xs.dimension ys.dimension limits) := by
    unfold Tree.field?
    dsimp only
    split
    · exact nofun
    · exact (t.inline_measure _ _ _ _).bind fun _ _ => trivial
  exact hfield.bind fun field _ => oneLine_baseUnit field.2

/-- The last check fails on one line if the expression of the grid's unit is on one line, which the
fault may take over. -/
theorem Grid.inline_postCheck {g : Grid} (h : OneLine g.unit.expr) (target : MeasureUnit) :
    InlineStage (g.postCheck target) :=
  (MeasureUnit.inline_resolve (MeasureUnit.oneLine_trim h)).bind fun _ _ =>
    (Dimension.inline_require _ _ _).bind fun _ _ =>
      (Dimension.inline_require _ _ _).bind fun _ _ => trivial

/-! ### Axes -/

namespace Axis

/-- A magnitude that is not finite in its unit is refused with the expression of the unit. -/
theorem inline_ofUnit? {u : MeasureUnit} (h : OneLine u.expr) (magnitude : Float) :
    InlineStage (Quantity.ofUnit? magnitude u) := by
  unfold Quantity.ofUnit?
  split
  · trivial
  · exact List.forall_mem_singleton.2 (MeasureUnit.oneLine_displayName h)

/-- A magnitude that is not finite in the base unit is refused on one line. -/
theorem inline_baseMagnitude {u : MeasureUnit} (h : OneLine u.expr) (value : Float) :
    InlineStage (baseMagnitude value u) :=
  (inline_ofUnit? h value).bind fun _ _ => (inline_ofUnit? (oneLine_baseUnit _) _).bind fun _ _ =>
    trivial

/-- The fault of a count beyond the limit has two numbers in it, and no words from outside. -/
theorem inline_checkCount (limits : Limits) (count : Int) :
    InlineStage (checkCount limits count) := by
  unfold checkCount
  split
  · exact nofun
  · trivial

/-- Counting the steps of a range fails on one line. -/
theorem inline_stepCount (limits : Limits) (start stop step : Float) :
    InlineStage (stepCount limits start stop step) := by
  unfold stepCount
  split
  · exact nofun
  · refine (inline_checkCount limits _).bind fun _ _ => ?_
    split
    · exact nofun
    · trivial

/-- A number of samples that is refused is refused on one line. -/
theorem inline_sampleCount (limits : Limits) (n : Float) : InlineStage (sampleCount limits n) := by
  unfold sampleCount
  split
  · exact nofun
  split
  · exact nofun
  · exact (inline_checkCount limits _).bind fun _ _ => trivial

/-- The checks of the numbers of an axis fail on one line, with the numbers as they are written. -/
theorem inline_checkBounds (a : Axis) : InlineStage a.checkBounds := by
  unfold checkBounds
  dsimp only
  split
  · exact nofun
  split
  · exact nofun
  split
  · cases a.density <;> exact nofun
  · trivial

/-- Sampling fails on one line, whichever way the samples are computed. The unit is taken over where
the size of a step is not finite. -/
theorem inline_values (a : Axis) {u : MeasureUnit} (h : OneLine u.expr) (limits : Limits)
    (start stop : Float) :
    InlineStage (a.values u limits start stop) := by
  unfold values
  split
  · exact nofun
  · exact (inline_baseMagnitude h _).bind fun _ _ =>
      (inline_stepCount limits _ _ _).bind fun _ _ => trivial
  · exact (inline_sampleCount limits _).bind fun _ _ => trivial
  · split
    · exact nofun
    · exact (inline_sampleCount limits _).bind fun _ _ => trivial

/-- Samples that are not finite or not increasing are refused on one line. -/
theorem inline_checkValues (values : Array Float) : InlineStage (checkValues values) := by
  unfold checkValues
  split
  · exact nofun
  split
  · exact nofun
  · trivial

/-- Of its job, an axis that cannot be sampled takes over only the unit, and so it fails on one line
if the unit is on one line. -/
theorem inline_samplesIn? (a : Axis) {u : MeasureUnit} (h : OneLine u.expr) (limits : Limits) :
    InlineStage (a.samplesIn? u limits) := by
  refine a.inline_checkBounds.bind fun _ _ => (inline_baseMagnitude h _).bind fun _ _ =>
    (inline_baseMagnitude h _).bind fun _ _ => ?_
  split
  · exact List.forall_mem_singleton.2 (MeasureUnit.oneLine_displayName h)
  · exact (a.inline_values h limits _ _).bind fun _ _ =>
      (inline_checkValues _).bind fun _ _ => trivial

end Axis

/-! ### Jobs -/

namespace Request

/-- The unit expressions of a request, without the white space around them, are on one line. -/
def InlineUnits (r : Request) : Prop :=
  ∀ expr ∈ [r.xAxis.unit, r.yAxis.unit, r.targetUnit],
    OneLine (String.ofList (Text.trim expr.toList))

/-- With unit expressions on one line, a job fails on one line. -/
theorem inline_of_run_eq_error {r : Request} {limits : Limits} {e : Fault} (hunits : r.InlineUnits)
    (h : r.run limits = .error e) : e.Inline := by
  have hx := MeasureUnit.inline_resolve (hunits r.xAxis.unit (by simp))
  have hy := MeasureUnit.inline_resolve (hunits r.yAxis.unit (by simp))
  have ht := MeasureUnit.inline_resolve (hunits r.targetUnit (by simp))
  -- The stages are taken one by one, each with what is known of the unit that it may take over.
  cases run_eq_error_iff.1 h with
  | xUnit h => exact hx.of_eq_error h
  | yUnit _ h => exact hy.of_eq_error h
  | targetUnit _ _ h => exact ht.of_eq_error h
  | formula _ h => exact (inline_parse limits r.formula).of_eq_error h
  | preCheck _ _ h => exact (Tree.inline_preCheck _ _ _ _).of_eq_error h
  | @xSamples x _ _ _ _ hreads h =>
    have hexpr := hx.of_eq_ok hreads.resolve_x
    exact (r.xAxis.inline_samplesIn? hexpr limits).of_eq_error h
  | @ySamples _ y _ _ _ _ hreads _ h =>
    have hexpr := hy.of_eq_ok hreads.resolve_y
    exact (r.yAxis.inline_samplesIn? hexpr limits).of_eq_error h
  | grid _ _ _ h => exact (Tree.inline_grid? _ _ _ limits).of_eq_error h
  | @postCheck _ _ _ _ _ _ g _ _ _ _ hg h =>
    have hexpr := (Tree.inline_grid? _ _ _ limits).of_eq_ok hg
    exact (Grid.inline_postCheck hexpr _).of_eq_error h

end Request

end UnitPlane
