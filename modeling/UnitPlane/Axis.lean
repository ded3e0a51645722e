import UnitPlane.Limits
import UnitPlane.Quantity
import UnitPlane.Rounding
import UnitPlane.Samples

/-!
# `UnitPlane.Axis`: how an axis is sampled

An axis runs from `start` to `stop` in a unit. It is sampled with a fixed step, where `stop` is left
out, or with a fixed number of samples, where both ends are samples. A logarithmic axis has a fixed
number of samples, evenly spaced in the logarithm. `Axis.samples?` gives the samples in the base
unit: at least two of them, all finite, each greater than the one before.
-/

set_option autoImplicit false

namespace UnitPlane

/-- How many samples an axis has. -/
inductive Density where
  /-- As many as there are steps of this size. -/
  | step (size : Float)
  /-- This many, if it is a whole number. -/
  | count (n : Float)
deriving DecidableEq

/-- The number that a density is given by. -/
def Density.amount : Density → Float
  | step size => size
  | count n => n

/-- How the samples of an axis are spread. -/
inductive Spacing where
  | linear
  | logarithmic
deriving DecidableEq

/-- An axis, its numbers in the unit that its expression stands for. -/
structure Axis where
  start : Float
  stop : Float
  density : Density
  spacing : Spacing
  unit : String
deriving DecidableEq

namespace Axis

/-- An axis with a fixed step. -/
def stepped (start stop step : Float) (unit : String) : Axis :=
  ⟨start, stop, .step step, .linear, unit⟩

/-- An axis with a fixed number of samples. -/
def counted (start stop : Float) (count : Nat) (unit : String) : Axis :=
  ⟨start, stop, .count (Float.ofNat count), .linear, unit⟩

/-- An axis with a fixed number of samples, evenly spaced in the logarithm. -/
def logarithmic (start stop : Float) (count : Nat) (unit : String) : Axis :=
  ⟨start, stop, .count (Float.ofNat count), .logarithmic, unit⟩

/-! ### Checks -/

/-- The fault of a configuration. -/
def refuse {α : Type} (cause : ConfigurationCause) : Except Fault α := throw (.configuration cause)

/-- The numbers of an axis have to be finite, its start below its stop, and its density positive. -/
def checkBounds (a : Axis) : Except Fault PUnit :=
  let amount := a.density.amount
  if !(a.start.isFinite && a.stop.isFinite && amount.isFinite) then
    refuse (.boundsNotFinite a.start a.stop amount)
  else if a.stop ≤ a.start then refuse (.startNotBelowStop a.start a.stop)
  else if amount ≤ 0 then
    match a.density with
    | .step size => refuse (.stepNotPositive size)
    | .count n => refuse (.countNotPositive n)
  else pure ⟨⟩

/-- The finite magnitude in the base unit. -/
def baseMagnitude (value : Float) (unit : MeasureUnit) : Except Fault Float := do
  let q ← Quantity.ofUnit? value unit
  let base ← q.toBase?
  pure base.magnitude

/-- A number of samples has to stay within the limit on cells. -/
def checkCount (limits : Limits) (count : Int) : Except Fault PUnit :=
  if Float.ofNat limits.maxCells < Float.ofInt count then
    throw (.limitExceeded .cells (min count.toNat Limits.ceiling) limits.maxCells)
  else pure ⟨⟩

/-! ### Counts -/

/-- A ratio this close to an integer counts as the integer. -/
def ratioTolerance : Float := 1e-9

/-- The number of steps in a range: the ratio of the two if it is close to an integer, otherwise the
next integer above it. -/
def stepsIn? (ratio : Float) : Option Int := do
  let nearest ← Rounding.nearest? ratio
  let scale := if ratio.abs < 1 then 1 else ratio.abs
  if (ratio - Float.ofInt nearest).abs ≤ ratioTolerance * scale then pure nearest
  else Rounding.ceiling? ratio

/-- The number of samples with a fixed step. -/
def stepCount (limits : Limits) (start stop step : Float) : Except Fault Nat :=
  match stepsIn? ((stop - start) / step) with
  | none => refuse (.stepTooSmall step start stop)
  | some count => do
    checkCount limits count
    if count < 2 then refuse (.stepTooLarge step start stop)
    else pure count.toNat

/-- The number of samples, where it is given. -/
def sampleCount (limits : Limits) (n : Float) : Except Fault Nat :=
  match Rounding.toInt? n with
  | none => refuse (.countNotInteger n)
  | some count => do
    if count < 2 then refuse (.tooFewSamples n)
    checkCount limits count
    pure count.toNat

/-! ### Samples -/

/-- `count` samples from `start` on with a fixed step. -/
def steppedValues (count : Nat) (start step : Float) : Array Float :=
  Array.ofFn fun i : Fin count => start + Float.ofNat i * step

/-- `count` samples that start with `start` and end with `stop`, those between as `inner` gives them
for the part of the way they have come. -/
def spreadValues (count : Nat) (start stop : Float) (inner : Float → Float) : Array Float :=
  Array.ofFn fun i : Fin count =>
    if i.val = 0 then start
    else if i.val + 1 = count then stop
    else inner (Float.ofNat i / Float.ofNat (count - 1))

/-- The values of an axis between its ends in the base unit. -/
def values (a : Axis) (unit : MeasureUnit) (limits : Limits) (start stop : Float) :
    Except Fault (Array Float) :=
  match a.density, a.spacing with
  | .step _, .logarithmic => refuse .logarithmicStep
  | .step size, .linear => do
    let step ← baseMagnitude size unit
    let count ← stepCount limits a.start a.stop size
    pure (steppedValues count start step)
  | .count n, .linear => do
    let count ← sampleCount limits n
    let span := stop - start
    pure (spreadValues count start stop fun part => start + span * part)
  | .count n, .logarithmic => do
    if a.start ≤ 0 ∨ a.stop ≤ 0 then refuse (.logarithmicBounds a.start a.stop)
    let count ← sampleCount limits n
    let low := start.log
    let high := stop.log
    pure (spreadValues count start stop fun part => (low + (high - low) * part).exp)

/-- The first sample that is not finite, from index `i` on, with its index. -/
def firstNotFinite? (values : Array Float) (i : Nat) : Option (Nat × Float) :=
  if h : i < values.size then
    if values[i].isFinite then firstNotFinite? values (i + 1) else some (i, values[i])
  else none
termination_by values.size - i

/-- The first sample that is not greater than the one before, from index `i + 1` on, with its
index. -/
def firstNotAbove? (values : Array Float) (i : Nat) : Option (Nat × Float) :=
  if h : i + 1 < values.size then
    if values[i] < values[i + 1] then firstNotAbove? values (i + 1) else some (i + 1, values[i + 1])
  else none
termination_by values.size - i

/-- Samples have to be finite and increasing. -/
def checkValues (values : Array Float) : Except Fault PUnit :=
  match firstNotFinite? values 0 with
  | some (i, v) => refuse (.sampleNotFinite i v)
  | none =>
    match firstNotAbove? values 0 with
    | some (i, v) => refuse (.samplesNotIncreasing i v)
    | none => pure ⟨⟩

/-- The samples of an axis whose unit has been resolved. -/
def samplesIn? (a : Axis) (unit : MeasureUnit) (limits : Limits) : Except Fault Samples := do
  a.checkBounds
  let start ← baseMagnitude a.start unit
  let stop ← baseMagnitude a.stop unit
  if !(stop - start).isFinite then
    refuse (.rangeOverflows a.start a.stop unit.displayName)
  let values ← a.values unit limits start stop
  checkValues values
  pure ⟨values, unit⟩

/-- The samples of an axis. -/
def samples? (a : Axis) (limits : Limits) : Except Fault Samples := do
  a.samplesIn? (← MeasureUnit.resolve a.unit) limits

end Axis

end UnitPlane
