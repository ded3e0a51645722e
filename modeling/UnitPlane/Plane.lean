/-!
# `UnitPlane.Plane`: rectangles of numbers

A plane has rows and columns, and its cells are kept row by row. Row `j` and column `i` meet in cell
`j * cols + i`.
-/

set_option autoImplicit false

namespace UnitPlane

/-- A rectangle of numbers, row by row. -/
structure Plane where
  rows : Nat
  cols : Nat
  cells : Array Float
  size_cells : cells.size = rows * cols
deriving DecidableEq

namespace Plane

/-- The position of row `j` and column `i` is that of a cell. -/
theorem index_lt {rows cols j i : Nat} (hj : j < rows) (hi : i < cols) :
    j * cols + i < rows * cols :=
  calc j * cols + i < j * cols + cols := Nat.add_lt_add_left hi _
    _ = (j + 1) * cols := (Nat.succ_mul j cols).symm
    _ ≤ rows * cols := Nat.mul_le_mul_right _ hj

/-- The number in a cell. -/
def cell (p : Plane) (j i : Nat) (hj : j < p.rows) (hi : i < p.cols) : Float :=
  have : j * p.cols + i < p.cells.size := by rw [p.size_cells]; exact index_lt hj hi
  p.cells[j * p.cols + i]

/-- The row and the column of a cell are within the plane. -/
theorem row_col_lt {rows cols k : Nat} (h : k < rows * cols) :
    k / cols < rows ∧ k % cols < cols := by
  have hc : 0 < cols := Nat.pos_of_mul_pos_left (Nat.lt_of_le_of_lt (Nat.zero_le _) h)
  exact ⟨(Nat.div_lt_iff_lt_mul hc).2 h, Nat.mod_lt _ hc⟩

/-- The plane whose cell in row `j` and column `i` is `f j i`. -/
def ofFn (rows cols : Nat) (f : Fin rows → Fin cols → Float) : Plane where
  rows := rows
  cols := cols
  cells := Array.ofFn fun k : Fin (rows * cols) =>
    f ⟨k.val / cols, (row_col_lt k.isLt).1⟩ ⟨k.val % cols, (row_col_lt k.isLt).2⟩
  size_cells := by simp

/-- The plane of a vector of cells. -/
def ofVector {rows cols : Nat} (cells : Vector Float (rows * cols)) : Plane where
  rows := rows
  cols := cols
  cells := cells.toArray
  size_cells := cells.size_toArray

/-- The plane with the given rows, if they all have as many cells as the first. -/
def ofRows? (rows : List (List Float)) : Option Plane :=
  let cols := (rows.head?.map List.length).getD 0
  let cells := rows.flatten.toArray
  if h : (∀ row ∈ rows, row.length = cols) ∧ cells.size = rows.length * cols then
    some ⟨rows.length, cols, cells, h.2⟩
  else none

/-- Every cell changed in the same way. -/
def map (f : Float → Float) (p : Plane) : Plane where
  rows := p.rows
  cols := p.cols
  cells := p.cells.map f
  size_cells := by rw [Array.size_map, p.size_cells]

/-- Rows and columns exchanged. -/
def transpose (p : Plane) : Plane :=
  ofFn p.cols p.rows fun i j => p.cell j i j.isLt i.isLt

/-- The rows as lists. -/
def toRows (p : Plane) : List (List Float) :=
  (List.range p.rows).map fun j => (p.cells.extract (j * p.cols) ((j + 1) * p.cols)).toList

end Plane

end UnitPlane
