import UnitPlane.Plane

/-!
# `UnitPlane.Proofs.Plane`: planes and their cells

A plane is known from its numbers of rows and columns and its cells, so planes are compared cell by
cell, although the cells are kept in one row. Only here is an index divided by the number of
columns: the rest of the development goes by rows and columns.

* `ext_cell`: planes of the same shape with the same cells are the same.
* `cell_ofFn`: a plane made from a function has the values of the function in its cells.
* `transpose_transpose`: exchanging rows and columns twice gives the plane back.
-/

set_option autoImplicit false

namespace UnitPlane.Plane

variable {p q : Plane}

/-- Planes of the same shape with the same cells are the same. The cells are kept in one row, but
each index of the row is that of one row and column of the plane, so they may be compared by
these. -/
theorem ext_cell (hrows : p.rows = q.rows) (hcols : p.cols = q.cols)
    (h : ∀ (j i : Nat) (hj : j < p.rows) (hi : i < p.cols),
      p.cell j i hj hi = q.cell j i (hrows ▸ hj) (hcols ▸ hi)) : p = q := by
  obtain ⟨rows, cols, cells, hsize⟩ := p
  obtain ⟨rows', cols', cells', hsize'⟩ := q
  obtain rfl : rows = rows' := hrows
  obtain rfl : cols = cols' := hcols
  have hcells : cells = cells' := by
    refine Array.ext (hsize.trans hsize'.symm) ?_
    intro k hk hk'
    -- Every index is that of a row and a column.
    obtain ⟨hj, hi⟩ := row_col_lt (hsize ▸ hk)
    have hcell := h (k / cols) (k % cols) hj hi
    simp only [cell, Nat.div_add_mod'] at hcell
    exact hcell
  subst hcells
  rfl

/-- The cell of a plane that is made from a function is what the function gives for its row and
column. The index of the cell in the row of all cells is divided into both again. -/
theorem cell_ofFn {rows cols j i : Nat} (f : Fin rows → Fin cols → Float) (hj : j < rows)
    (hi : i < cols) : (ofFn rows cols f).cell j i hj hi = f ⟨j, hj⟩ ⟨i, hi⟩ := by
  -- Dividing the index by the number of columns gives the row, and what remains is the column.
  have hpos : 0 < cols := by omega
  have hrow : (j * cols + i) / cols = j := by
    rw [Nat.mul_comm, Nat.mul_add_div hpos, Nat.div_eq_of_lt hi, Nat.add_zero]
  have hcol : (j * cols + i) % cols = i := Nat.mul_add_mod_of_lt hi
  have hlt : j * cols + i < rows * cols := index_lt hj hi
  have hget : (ofFn rows cols f).cell j i hj hi =
      f ⟨(j * cols + i) / cols, (row_col_lt hlt).1⟩ ⟨(j * cols + i) % cols, (row_col_lt hlt).2⟩ :=
    Array.getElem_ofFn _
  rw [hget]
  simp only [hrow, hcol]

/-- Rows and columns are exchanged cell by cell: the cell in column `i` of row `j` is found in
column `j` of row `i`. -/
theorem cell_transpose {j i : Nat} (hj : j < p.rows) (hi : i < p.cols) :
    p.transpose.cell i j hi hj = p.cell j i hj hi :=
  cell_ofFn _ _ _

/-- Exchanging rows and columns twice gives the plane back, because every cell is where it was. -/
theorem transpose_transpose (p : Plane) : p.transpose.transpose = p := by
  refine ext_cell rfl rfl ?_
  intro j i hj hi
  exact (cell_transpose (p := p.transpose) hi hj).trans (cell_transpose (p := p) hj hi)

end UnitPlane.Plane
