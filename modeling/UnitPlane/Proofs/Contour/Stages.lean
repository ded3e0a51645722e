import UnitPlane.Contour
import UnitPlane.Proofs.Support.Except

/-!
# `UnitPlane.Proofs.Contour.Stages`: the stages of a job

A job goes through nine stages. If all of them succeed it has a result, and otherwise it ends with
the fault of the first one that fails. `Request.Finishes` collects what the stages gave, and
`Request.FirstFault` lists the stages in their order, each with what the stages before it gave. What
is said of jobs elsewhere is read off these two, without going through the stages again.

* `Request.exists_finishes_of_runPlain_eq_ok`: what a result is made of.
* `Request.run_eq_error_iff`: the fault of a job is that of its first stage that fails.
-/

set_option autoImplicit false

namespace UnitPlane.Request

variable {r : Request} {limits : Limits} {x y target : MeasureUnit} {f : Formula}

/-- What the unit expressions of a request stand for. The units are resolved before anything else is
done. -/
structure Resolves (r : Request) (x y target : MeasureUnit) : Prop where
  resolve_x : MeasureUnit.resolve r.xAxis.unit = .ok x
  resolve_y : MeasureUnit.resolve r.yAxis.unit = .ok y
  resolve_target : MeasureUnit.resolve r.targetUnit = .ok target

/-- What the formula of a request is, once it has been read and found to have the dimension
wanted. -/
structure Reads (r : Request) (limits : Limits) (x y target : MeasureUnit) (f : Formula) :
    Prop extends Resolves r x y target where
  parse : Formula.parse limits r.formula = .ok f
  preCheck : ∃ d, f.tree.preCheck x.dimension y.dimension target = .ok d

/-- What all the stages of a request gave. Each field is one stage, and says what it was given and
what it gave. -/
structure Finishes (r : Request) (limits : Limits) (x y target : MeasureUnit) (f : Formula)
    (xs ys : Samples) (g : Grid) : Prop extends Reads r limits x y target f where
  xSamples : r.xAxis.samplesIn? x limits = .ok xs
  ySamples : r.yAxis.samplesIn? y limits = .ok ys
  grid : f.tree.grid? xs ys limits = .ok g
  postCheck : ∃ d, g.postCheck target = .ok d

/-! ### What is left of a job -/

/-- A job whose units resolve is what comes after them. The first three stages are taken off at
once. -/
theorem Resolves.runPlain_eq (h : r.Resolves x y target) :
    r.runPlain limits = (do
      let f ← Formula.parse limits r.formula
      let _ ← f.tree.preCheck x.dimension y.dimension target
      let xs ← r.xAxis.samplesIn? x limits
      let ys ← r.yAxis.samplesIn? y limits
      let grid ← f.tree.grid? xs ys limits
      let _ ← grid.postCheck target
      pure (.place f grid ⟨r.xLabel, xs⟩ ⟨r.yLabel, ys⟩ target)) := by
  unfold runPlain
  rw [h.resolve_x, Except.ok_bind, h.resolve_y, Except.ok_bind, h.resolve_target, Except.ok_bind]

/-- A job whose formula has been checked is sampling, evaluation and one more check. The dimension
that the first check finds is not used any further. -/
theorem Reads.runPlain_eq (h : r.Reads limits x y target f) :
    r.runPlain limits = (do
      let xs ← r.xAxis.samplesIn? x limits
      let ys ← r.yAxis.samplesIn? y limits
      let grid ← f.tree.grid? xs ys limits
      let _ ← grid.postCheck target
      pure (.place f grid ⟨r.xLabel, xs⟩ ⟨r.yLabel, ys⟩ target)) := by
  obtain ⟨d, hd⟩ := h.preCheck
  rw [h.toResolves.runPlain_eq, h.parse, Except.ok_bind, hd, Except.ok_bind]

/-! ### Results -/

/-- A result is made of what the stages gave. Every stage that comes before the result has
succeeded, so all of them are there. -/
theorem exists_finishes_of_runPlain_eq_ok {c : Contour} (h : r.runPlain limits = .ok c) :
    ∃ x y target f xs ys g, r.Finishes limits x y target f xs ys g ∧
      c = .place f g ⟨r.xLabel, xs⟩ ⟨r.yLabel, ys⟩ target := by
  unfold runPlain at h
  -- The steps of a job, in their order.
  obtain ⟨x, hx, h⟩ := Except.bind_eq_ok.1 h
  obtain ⟨y, hy, h⟩ := Except.bind_eq_ok.1 h
  obtain ⟨target, htarget, h⟩ := Except.bind_eq_ok.1 h
  obtain ⟨f, hf, h⟩ := Except.bind_eq_ok.1 h
  obtain ⟨d, hd, h⟩ := Except.bind_eq_ok.1 h
  obtain ⟨xs, hxs, h⟩ := Except.bind_eq_ok.1 h
  obtain ⟨ys, hys, h⟩ := Except.bind_eq_ok.1 h
  obtain ⟨g, hg, h⟩ := Except.bind_eq_ok.1 h
  obtain ⟨d', hd', h⟩ := Except.bind_eq_ok.1 h
  cases h
  have hreads : r.Reads limits x y target f := ⟨⟨hx, hy, htarget⟩, hf, d, hd⟩
  exact ⟨x, y, target, f, xs, ys, g, ⟨hreads, hxs, hys, hg, d', hd'⟩, rfl⟩

/-! ### Faults -/

/-- The fault of the first stage of a job that fails. Each stage comes with what those before it
gave, so two of them never apply to the same job. -/
inductive FirstFault (r : Request) (limits : Limits) : Fault → Prop
  /-- The unit of the first axis is unknown. -/
  | xUnit {e : Fault} (h : MeasureUnit.resolve r.xAxis.unit = .error e) : FirstFault r limits e
  /-- The unit of the second axis is unknown. -/
  | yUnit {x : MeasureUnit} {e : Fault} (hx : MeasureUnit.resolve r.xAxis.unit = .ok x)
    (h : MeasureUnit.resolve r.yAxis.unit = .error e) : FirstFault r limits e
  /-- The unit wanted is unknown. -/
  | targetUnit {x y : MeasureUnit} {e : Fault} (hx : MeasureUnit.resolve r.xAxis.unit = .ok x)
    (hy : MeasureUnit.resolve r.yAxis.unit = .ok y)
    (h : MeasureUnit.resolve r.targetUnit = .error e) :
    FirstFault r limits e
  /-- The formula cannot be read. -/
  | formula {x y target : MeasureUnit} {e : Fault} (hunits : r.Resolves x y target)
    (h : Formula.parse limits r.formula = .error e) : FirstFault r limits e
  /-- The formula does not have the dimension wanted. -/
  | preCheck {x y target : MeasureUnit} {f : Formula} {e : Fault} (hunits : r.Resolves x y target)
    (hf : Formula.parse limits r.formula = .ok f)
    (h : f.tree.preCheck x.dimension y.dimension target = .error e) : FirstFault r limits e
  /-- The first axis cannot be sampled. -/
  | xSamples {x y target : MeasureUnit} {f : Formula} {e : Fault}
      (hreads : r.Reads limits x y target f)
    (h : r.xAxis.samplesIn? x limits = .error e) : FirstFault r limits e
  /-- The second axis cannot be sampled. -/
  | ySamples {x y target : MeasureUnit} {f : Formula} {xs : Samples} {e : Fault}
    (hreads : r.Reads limits x y target f) (hxs : r.xAxis.samplesIn? x limits = .ok xs)
    (h : r.yAxis.samplesIn? y limits = .error e) : FirstFault r limits e
  /-- The formula cannot be evaluated on the plane. -/
  | grid {x y target : MeasureUnit} {f : Formula} {xs ys : Samples} {e : Fault}
    (hreads : r.Reads limits x y target f) (hxs : r.xAxis.samplesIn? x limits = .ok xs)
    (hys : r.yAxis.samplesIn? y limits = .ok ys) (h : f.tree.grid? xs ys limits = .error e) :
    FirstFault r limits e
  /-- The grid does not have the dimension wanted. -/
  | postCheck {x y target : MeasureUnit} {f : Formula} {xs ys : Samples} {g : Grid} {e : Fault}
    (hreads : r.Reads limits x y target f) (hxs : r.xAxis.samplesIn? x limits = .ok xs)
    (hys : r.yAxis.samplesIn? y limits = .ok ys) (hg : f.tree.grid? xs ys limits = .ok g)
    (h : g.postCheck target = .error e) : FirstFault r limits e

/-- A job fails with the fault of its first stage that fails. From the fault of a job this gives the
stage, and from the stage the fault. -/
theorem run_eq_error_iff {e : Fault} : r.run limits = .error e ↔ r.FirstFault limits e := by
  -- Placing and exchanging the axes cannot fail.
  have hplain : r.run limits = .error e ↔ r.runPlain limits = .error e := by
    unfold run
    simp [Except.bind_eq_error]
  rw [hplain]
  constructor
  · intro h
    unfold runPlain at h
    rcases Except.bind_eq_error.1 h with h | ⟨x, hx, h⟩
    · exact .xUnit h
    rcases Except.bind_eq_error.1 h with h | ⟨y, hy, h⟩
    · exact .yUnit hx h
    rcases Except.bind_eq_error.1 h with h | ⟨target, ht, h⟩
    · exact .targetUnit hx hy h
    have hunits : r.Resolves x y target := ⟨hx, hy, ht⟩
    rcases Except.bind_eq_error.1 h with h | ⟨f, hf, h⟩
    · exact .formula hunits h
    rcases Except.bind_eq_error.1 h with h | ⟨d, hd, h⟩
    · exact .preCheck hunits hf h
    have hreads : r.Reads limits x y target f := ⟨hunits, hf, d, hd⟩
    rcases Except.bind_eq_error.1 h with h | ⟨xs, hxs, h⟩
    · exact .xSamples hreads h
    rcases Except.bind_eq_error.1 h with h | ⟨ys, hys, h⟩
    · exact .ySamples hreads hxs h
    rcases Except.bind_eq_error.1 h with h | ⟨g, hg, h⟩
    · exact .grid hreads hxs hys h
    rcases Except.bind_eq_error.1 h with h | ⟨_, _, h⟩
    · exact .postCheck hreads hxs hys hg h
    · exact nomatch h
  · intro h
    cases h with
    | xUnit h =>
      unfold runPlain
      rw [h, Except.error_bind]
    | yUnit hx h =>
      unfold runPlain
      rw [hx, Except.ok_bind, h, Except.error_bind]
    | targetUnit hx hy h =>
      unfold runPlain
      rw [hx, Except.ok_bind, hy, Except.ok_bind, h, Except.error_bind]
    | formula hunits h => rw [hunits.runPlain_eq, h, Except.error_bind]
    | preCheck hunits hf h => rw [hunits.runPlain_eq, hf, Except.ok_bind, h, Except.error_bind]
    | xSamples hreads h => rw [hreads.runPlain_eq, h, Except.error_bind]
    | ySamples hreads hxs h => rw [hreads.runPlain_eq, hxs, Except.ok_bind, h, Except.error_bind]
    | grid hreads hxs hys h =>
      rw [hreads.runPlain_eq, hxs, Except.ok_bind, hys, Except.ok_bind, h, Except.error_bind]
    | postCheck hreads hxs hys hg h =>
      rw [hreads.runPlain_eq, hxs, Except.ok_bind, hys, Except.ok_bind, hg, Except.ok_bind, h,
        Except.error_bind]

end UnitPlane.Request
