import UnitPlane.Json.Number
import UnitPlane.Json.Reader
import UnitPlane.Json.Record
import UnitPlane.Limits

/-!
# `UnitPlane.Limits.Json`: limits from JSON texts
-/

set_option autoImplicit false

namespace UnitPlane.Limits

open Json

/-- The names of the limits. -/
def fieldNames : List String :=
  ["max_formula_len", "max_depth", "max_nodes", "max_cells", "time_budget_ms"]

/-- The limits of a record; those that are not there keep their defaults. -/
def ofRaw? (r : Raw) : Option Limits :=
  let standard : Limits := {}
  match r.fields? fieldNames with
  | some [formulaLen, depth, nodes, cells, time] => do
    let maxFormulaLen ← fieldOr standard.maxFormulaLen Raw.toNat? formulaLen
    let maxDepth ← fieldOr standard.maxDepth Raw.toNat? depth
    let maxNodes ← fieldOr standard.maxNodes Raw.toNat? nodes
    let maxCells ← fieldOr standard.maxCells Raw.toNat? cells
    let timeBudgetMs ← fieldOr standard.timeBudgetMs Raw.toNat? time
    pure { maxFormulaLen, maxDepth, maxNodes, maxCells, timeBudgetMs }
  | _ => none

/-- The limits that a text stands for. -/
def ofJson? (s : String) : Option Limits := (Json.read? s).bind ofRaw?

end UnitPlane.Limits
