import UnitPlane.Grid
import UnitPlane.Proofs.Double.Order
import UnitPlane.Proofs.Plane

/-!
# `UnitPlane.Proofs.Grid`: the cells of a grid in another order

The range of a grid is found by widening it from cell to cell. It ends at two of the finite cells,
with all others between them, in whatever order the cells come. A transposed grid has its cells in
another order, so it has the same range and as many cells that are not finite. Only of two zeros
with different signs the one that comes last is kept, so the order can show in the sign of a zero.

* `Grid.rangeOf?_eq_none_iff` and `Grid.bounds_of_rangeOf?_eq_some`: what the range is.
* `Plane.cells_transpose_perm`: the cells of the transposed plane are the cells in another order.
* `Grid.sameRange_transpose`: a transposed grid has the same range, but for the sign of a zero.
-/

set_option autoImplicit false

namespace UnitPlane

/-! ### Ranges -/

namespace Grid

/-- Two of the values are the smallest and the largest. Zeros with different signs count as equal
here, so the two are not unique. -/
structure Bounds (values : List Float) (low high : Float) : Prop where
  low_mem : low ∈ values
  high_mem : high ∈ values
  low_le : ∀ v ∈ values, low ≤ v
  le_high : ∀ v ∈ values, v ≤ high

variable {values more : List Float} {low high v : Float}

/-- A finite value alone is both the smallest and the largest. It has to be a number, for otherwise
it is not even below itself. -/
theorem bounds_singleton (h : v.isFinite = true) : Bounds [v] v v where
  low_mem := List.mem_singleton_self v
  high_mem := List.mem_singleton_self v
  low_le u hu := by
    obtain rfl := List.mem_singleton.1 hu
    exact Double.le_refl h
  le_high u hu := by
    obtain rfl := List.mem_singleton.1 hu
    exact Double.le_refl h

/-- The smaller of two finite values is one of them, and not above either. Finite values are
comparable, so it is not above the one that was not taken. -/
theorem min_spec {a b : Float} (ha : a.isFinite = true) (hb : b.isFinite = true) :
    (if a ≤ b then a else b) ≤ a ∧ (if a ≤ b then a else b) ≤ b := by
  by_cases h : a ≤ b
  · rw [if_pos h]
    exact ⟨Double.le_refl ha, h⟩
  · rw [if_neg h]
    exact ⟨Double.le_of_lt (Double.lt_of_not_le hb ha h), Double.le_refl hb⟩

/-- The larger of two finite values is one of them, and not below either. -/
theorem max_spec {a b : Float} (ha : a.isFinite = true) (hb : b.isFinite = true) :
    a ≤ (if a ≤ b then b else a) ∧ b ≤ (if a ≤ b then b else a) := by
  by_cases h : a ≤ b
  · rw [if_pos h]
    exact ⟨h, Double.le_refl hb⟩
  · rw [if_neg h]
    exact ⟨Double.le_refl ha, Double.le_of_lt (Double.lt_of_not_le hb ha h)⟩

/-- One more finite value widens the range to it, or leaves the range as it is. -/
theorem Bounds.widen (h : Bounds values low high) (hvalues : ∀ u ∈ values, u.isFinite = true)
    (hv : v.isFinite = true) :
    Bounds (values ++ [v]) (if v ≤ low then v else low) (if high ≤ v then v else high) := by
  obtain ⟨hvlow, hlow⟩ := min_spec hv (hvalues low h.low_mem)
  obtain ⟨hhigh, hvhigh⟩ := max_spec (hvalues high h.high_mem) hv
  -- The new ends are among the values, and by the two lemmas above no value is beyond them.
  constructor
  · split
    · simp
    · simp [h.low_mem]
  · split
    · simp
    · simp [h.high_mem]
  · intro u hu
    rcases List.mem_append.1 hu with hu | hu
    · exact Double.le_trans hlow (h.low_le u hu)
    · exact List.mem_singleton.1 hu ▸ hvlow
  · intro u hu
    rcases List.mem_append.1 hu with hu | hu
    · exact Double.le_trans (h.le_high u hu) hhigh
    · exact List.mem_singleton.1 hu ▸ hvhigh

/-- Widening a range by all of a list of finite values. The values so far, `values`, grow with every
step. -/
theorem Bounds.foldl_widen (h : Bounds values low high) (hvalues : ∀ u ∈ values, u.isFinite = true)
    (hmore : ∀ u ∈ more, u.isFinite = true) :
    ∃ low' high', more.foldl Grid.widen (some (low, high)) = some (low', high') ∧
      Bounds (values ++ more) low' high' := by
  -- The induction is on the values to come.
  induction more generalizing values low high with
  | nil => exact ⟨low, high, rfl, by rwa [List.append_nil]⟩
  | cons v more ih =>
    have hv := hmore v List.mem_cons_self
    have hall : ∀ u ∈ values ++ [v], u.isFinite = true := by
      intro u hu
      rcases List.mem_append.1 hu with hu | hu
      · exact hvalues u hu
      · exact List.mem_singleton.1 hu ▸ hv
    obtain ⟨low', high', hfold, hbounds⟩ :=
      ih (h.widen hvalues hv) hall fun u hu => hmore u (List.mem_cons_of_mem v hu)
    exact ⟨low', high', hfold, by rwa [List.append_assoc] at hbounds⟩

/-- The range is missing if there are no finite values, and otherwise ends at two of them. The first
finite value is the range to start from. -/
theorem rangeOf?_eq_none_or_bounds (values : List Float) :
    rangeOf? values = none ∧ (∀ v ∈ values, v.isFinite = false) ∨
      ∃ low high, rangeOf? values = some (low, high) ∧
        Bounds (values.filter Float.isFinite) low high := by
  have hfinite : ∀ u ∈ values.filter Float.isFinite, u.isFinite = true :=
    fun u hu => (List.mem_filter.1 hu).2
  unfold rangeOf?
  -- The first finite value alone is a range, and the others widen it.
  cases h : values.filter Float.isFinite with
  | nil =>
    refine .inl ⟨rfl, fun v hv => ?_⟩
    exact Bool.eq_false_iff.2 (List.filter_eq_nil_iff.1 h v hv)
  | cons v more =>
    rw [h] at hfinite
    have hv := hfinite v List.mem_cons_self
    have hone : ∀ u ∈ [v], u.isFinite = true := fun u hu => List.mem_singleton.1 hu ▸ hv
    exact .inr ((bounds_singleton hv).foldl_widen hone fun u hu =>
      hfinite u (List.mem_cons_of_mem v hu))

/-- There is no range just when no value is finite. Infinite values and what is no number do not
count. -/
theorem rangeOf?_eq_none_iff : rangeOf? values = none ↔ ∀ v ∈ values, v.isFinite = false := by
  rcases rangeOf?_eq_none_or_bounds values with ⟨hnone, hall⟩ | ⟨low, high, hsome, hbounds⟩
  · exact ⟨fun _ => hall, fun _ => hnone⟩
  · refine ⟨fun hnone => ?_, fun hall => ?_⟩
    · rw [hsome] at hnone
      cases hnone
    · obtain ⟨hmem, hfinite⟩ := List.mem_filter.1 hbounds.low_mem
      rw [hall low hmem] at hfinite
      cases hfinite

/-- The range ends at two of the finite values, and all others are between them. -/
theorem bounds_of_rangeOf?_eq_some (h : rangeOf? values = some (low, high)) :
    Bounds (values.filter Float.isFinite) low high := by
  rcases rangeOf?_eq_none_or_bounds values with ⟨hnone, -⟩ | ⟨low', high', hsome, hbounds⟩
  · rw [h] at hnone
    cases hnone
  · rw [h] at hsome
    cases hsome
    exact hbounds

/-- No range, or ranges with the same ends but for the sign of a zero. This is as much as can be
said of a range without the order of the cells. -/
def SameRange : Option (Float × Float) → Option (Float × Float) → Prop
  | none, none => True
  | some (low, high), some (low', high') =>
    Double.SameUpToZeroSign low low' ∧ Double.SameUpToZeroSign high high'
  | _, _ => False

/-- The order of the values shows in the sign of a zero at most. There are as many values as before,
so either both ranges are missing or both are there. -/
theorem sameRange_of_perm (h : values.Perm more) : SameRange (rangeOf? values) (rangeOf? more) := by
  cases hvalues : rangeOf? values with
  | none =>
    rw [rangeOf?_eq_none_iff] at hvalues
    rw [rangeOf?_eq_none_iff.2 fun v hv => hvalues v (h.mem_iff.2 hv)]
    trivial
  | some range =>
    cases hmore : rangeOf? more with
    | none =>
      rw [rangeOf?_eq_none_iff] at hmore
      rw [rangeOf?_eq_none_iff.2 fun v hv => hmore v (h.mem_iff.1 hv)] at hvalues
      cases hvalues
    | some range' =>
      have hb := bounds_of_rangeOf?_eq_some hvalues
      have hb' := bounds_of_rangeOf?_eq_some hmore
      have hmem (u : Float) : u ∈ values.filter Float.isFinite ↔ u ∈ more.filter Float.isFinite :=
        (h.filter _).mem_iff
      -- Each end is one of the values that the other end bounds.
      exact ⟨Double.sameUpToZeroSign_of_le_of_le (hb.low_le _ ((hmem _).2 hb'.low_mem))
          (hb'.low_le _ ((hmem _).1 hb.low_mem)),
        Double.sameUpToZeroSign_of_le_of_le (hb'.le_high _ ((hmem _).1 hb.high_mem))
          (hb.le_high _ ((hmem _).2 hb'.high_mem))⟩

/-- Ranges that are divided by one factor stay the same but for the sign of a zero. -/
theorem SameRange.map_div {r r' : Option (Float × Float)} (h : SameRange r r') (factor : Float) :
    SameRange (r.map fun (low, high) => (low / factor, high / factor))
      (r'.map fun (low, high) => (low / factor, high / factor)) := by
  cases r with
  | none =>
    cases r' with
    | none => trivial
    | some _ => exact h
  | some _ =>
    cases r' with
    | none => exact h
    | some _ => exact ⟨h.1.div factor, h.2.div factor⟩

end Grid

/-! ### Transposed planes -/

namespace Plane

/-- The same cells with rows and columns exchanged. Each cell is found in the other plane with its
row and column the other way round. -/
def Transposed (p q : Plane) : Prop :=
  ∃ (hrows : q.rows = p.cols) (hcols : q.cols = p.rows),
    ∀ (j i : Nat) (hj : j < p.rows) (hi : i < p.cols),
      q.cell i j (hrows ▸ hi) (hcols ▸ hj) = p.cell j i hj hi

/-- Transposing a plane exchanges its rows and columns. -/
theorem transposed_transpose (p : Plane) : p.Transposed p.transpose :=
  ⟨rfl, rfl, fun _ _ hj hi => cell_transpose hj hi⟩

/-- Each cell is changed where it is. -/
theorem cell_map (f : Float → Float) (p : Plane) {j i : Nat} (hj : j < p.rows) (hi : i < p.cols) :
    (p.map f).cell j i hj hi = f (p.cell j i hj hi) :=
  Array.getElem_map ..

/-- Planes that are transposed to each other stay so when all cells are changed in the same way. -/
theorem Transposed.map {p q : Plane} (h : p.Transposed q) (f : Float → Float) :
    (p.map f).Transposed (q.map f) := by
  obtain ⟨hrows, hcols, hcell⟩ := h
  refine ⟨hrows, hcols, fun j i hj hi => ?_⟩
  exact (cell_map f q _ _).trans ((congrArg f (hcell j i hj hi)).trans (cell_map f p hj hi).symm)

/-- Where a cell of the transposed plane comes from. Cells are stored row by row, so this is the
exchange of the two coordinates of a position. -/
def exchangePositions (rows cols : Nat) : Fin (cols * rows) ≃ Fin (rows * cols) :=
  finProdFinEquiv.symm.trans ((Equiv.prodComm _ _).trans finProdFinEquiv)

/-- The cells of the transposed plane are the cells of the plane in another order, because each
position of the plane is that of one cell. -/
theorem cells_transpose_perm (p : Plane) : p.transpose.cells.toList.Perm p.cells.toList := by
  obtain ⟨rows, cols, cells, hsize⟩ := p
  let cellAt (k : Fin (rows * cols)) : Float := cells[Fin.cast hsize.symm k]
  have hcells : cells.toList = (List.finRange (rows * cols)).map cellAt := by
    refine List.ext_getElem (by simp [hsize]) fun k hk hk' => ?_
    simp [cellAt]
  have htransposed : (transpose ⟨rows, cols, cells, hsize⟩).cells.toList =
      ((List.finRange (cols * rows)).map (exchangePositions rows cols)).map cellAt := by
    show (Array.ofFn _).toList = _
    rw [Array.toList_ofFn, List.ofFn_eq_map, List.map_map]
    refine List.map_congr_left fun k _ => ?_
    have hindex : k.val % rows * cols + k.val / rows = (exchangePositions rows cols k).val := by
      rw [Nat.mul_comm, Nat.add_comm]
      rfl
    exact getElem_congr_idx hindex
  -- Every position is that of one cell of the transposed plane.
  have hpositions : ((List.finRange (cols * rows)).map (exchangePositions rows cols)).Perm
      (List.finRange (rows * cols)) := by
    refine (List.perm_ext_iff_of_nodup ?_ (List.nodup_finRange _)).2 fun k => ?_
    · exact (List.nodup_finRange _).map (exchangePositions rows cols).injective
    · simp only [List.mem_map, List.mem_finRange, true_and, iff_true]
      exact (exchangePositions rows cols).surjective k
  show (transpose ⟨rows, cols, cells, hsize⟩).cells.toList.Perm cells.toList
  rw [hcells, htransposed]
  exact hpositions.map cellAt

end Plane

/-! ### Transposed grids -/

namespace Grid

variable (g : Grid)

/-- A transposed grid has the range of the grid, but for the sign of a zero. -/
theorem sameRange_transpose : SameRange g.finiteRange? g.transpose.finiteRange? :=
  sameRange_of_perm g.plane.cells_transpose_perm.symm

/-- A transposed grid has as many cells that are not finite, since the order does not count. -/
theorem nonFiniteCount_transpose : g.transpose.nonFiniteCount = g.nonFiniteCount :=
  g.plane.cells_transpose_perm.countP_eq _

end Grid

end UnitPlane
