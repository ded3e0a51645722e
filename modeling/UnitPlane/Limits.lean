/-!
# `UnitPlane.Limits`: how much work one job may ask for
-/

set_option autoImplicit false

namespace UnitPlane

/-- Ceilings for one job. -/
structure Limits where
  /-- The formula's text, in bytes. -/
  maxFormulaLen : Nat := 4096
  /-- The nesting of the formula's text and the depth of its tree. -/
  maxDepth : Nat := 256
  /-- The nodes of the formula's tree. -/
  maxNodes : Nat := 10000
  /-- The samples of one axis, and the cells of the grid. -/
  maxCells : Nat := 4000000
  /-- The time for one evaluation, in milliseconds. -/
  timeBudgetMs : Nat := 10000
deriving DecidableEq

/-- The largest ceiling that can be set. -/
def Limits.ceiling : Nat := 18446744073709551615

end UnitPlane
