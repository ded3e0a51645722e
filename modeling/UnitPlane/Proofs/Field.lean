import UnitPlane.Field
import UnitPlane.Proofs.Formula.Evaluation
import UnitPlane.Proofs.Formula.Typing

/-!
# `UnitPlane.Proofs.Field`: a formula on a plane, at a point and on paper

A formula is evaluated on a plane, at single points, and on dimensions alone, each in a walk of its
own over the nodes. The three agree:

* `Tree.measure_eq`: the measured values of a formula are its values at every point together with
  what its typing says, the constant included.
* `Tree.field?_cells_eq_value`: every cell of a plane holds the value at its point.
* `Tree.map_dimension_field?_eq_dimension?`: the dimension of a plane is the one found without
  samples, and so is the fault where there is none.
-/

set_option autoImplicit false

namespace UnitPlane

/-! ### Magnitudes -/

namespace Magnitude

variable {n : Nat}

/-- The magnitude with the given values, or with the constant that takes their place. A constant is
kept as one number however many points there are. -/
def ofValues (constant : Option Float) (values : Vector Float n) : Magnitude n :=
  match constant with
  | some v => .constant v
  | none => .varying values

/-- The constant of such a magnitude is the one that was given. -/
@[simp] theorem constant?_ofValues (constant : Option Float) (values : Vector Float n) :
    (ofValues constant values).constant? = constant := by
  cases constant <;> rfl

/-- An operator acts on the values at each point, whichever of the operands is a constant. Two
constants are combined once, to the constant that stands for all points. -/
theorem combine_ofValues (op : Operator) {a b : Option Float} {as bs : Vector Float n}
    (ha : ∀ v, a = some v → as = Vector.replicate n v)
    (hb : ∀ v, b = some v → bs = Vector.replicate n v) :
    (ofValues a as).combine op (ofValues b bs) =
      ofValues (do let u ← a; let v ← b; pure (op.apply u v)) (Vector.zipWith op.apply as bs) := by
  -- There is a case for each pair of a constant and values.
  cases a with
  | none =>
    cases b with
    | none => rfl
    | some v =>
      rw [hb v rfl]
      show varying (as.map fun u => op.apply u v) = varying _
      congr 1
      ext i hi
      simp
  | some u =>
    cases b with
    | none =>
      rw [ha u rfl]
      show varying (bs.map fun v => op.apply u v) = varying _
      congr 1
      ext i hi
      simp
    | some v => rfl

/-- A constant stands for its value at every point, so the values are those that were given. -/
theorem values_ofValues {constant : Option Float} {values : Vector Float n}
    (h : ∀ v, constant = some v → values = Vector.replicate n v) :
    (ofValues constant values).values = values := by
  cases constant with
  | none => rfl
  | some v => exact (h v rfl).symm

end Magnitude

/-! ### The three walks -/

namespace Tree

variable {n : Nat}

/-- The values of a tree at points whose coordinates are `xs` and `ys`. -/
def valuesAt (xs ys : Vector Float n) (t : Tree) : Vector Float n :=
  Vector.ofFn fun k => t.value xs[k] ys[k]

/-- The values of a node are those of its operands, combined point by point. -/
theorem valuesAt_binary (xs ys : Vector Float n) (op : Operator) (l r : Tree) :
    (binary op l r).valuesAt xs ys =
      Vector.zipWith op.apply (l.valuesAt xs ys) (r.valuesAt xs ys) := by
  ext i hi
  simp [valuesAt, value]

/-- A tree with a constant has that value at all points, since its value is the same wherever it is
taken. -/
theorem valuesAt_of_constant (xs ys : Vector Float n) {x y : Dimension} (t : Tree) {ty : Typing}
    {v : Float} (ht : t.typing? x y = .ok ty) (hv : ty.constant = some v) :
    t.valuesAt xs ys = Vector.replicate n v := by
  ext i hi
  simp [valuesAt, value_eq_of_constant ht hv]

/-- The measured variable is the row of its coordinates, with its dimension. -/
theorem measure_var (xs ys : Vector Float n) (x y : Dimension) (v : Variable) :
    (var v).measure xs ys x y = .ok ((Walk.measure xs ys x y).variableOperand v) :=
  Walk.run_var _ v

/-- A measured literal is a constant without a dimension. -/
theorem measure_literal (xs ys : Vector Float n) (x y : Dimension) (value : Float) :
    (literal value).measure xs ys x y = .ok ⟨.constant value, .dimensionless⟩ :=
  Walk.run_literal _ _

/-- A node is measured by measuring its operands, asking the operator for the dimension, and
combining the magnitudes. -/
theorem measure_binary (xs ys : Vector Float n) (x y : Dimension) (op : Operator) (l r : Tree) :
    (binary op l r).measure xs ys x y =
      l.measure xs ys x y >>= fun left => r.measure xs ys x y >>= fun right =>
        op.combine (binary op l r) r left.dimension right.dimension right.magnitude.constant?
          >>= fun dimension => .ok ⟨left.magnitude.combine op right.magnitude, dimension⟩ :=
  Walk.run_binary _ op l r

/-- The values on a plane are the values at its points, kept as one number where the typing has a
constant; the dimension and the faults are those of the typing. -/
theorem measure_eq (xs ys : Vector Float n) (x y : Dimension) (t : Tree) :
    t.measure xs ys x y =
      (t.typing? x y).map fun ty => ⟨.ofValues ty.constant (t.valuesAt xs ys), ty.dimension⟩ := by
  induction t with
  | var v =>
    rw [measure_var, typing?_var]
    cases v with
    | x =>
      show Except.ok _ = Except.ok _
      simp [Magnitude.ofValues, valuesAt, value, Walk.measure, Walk.typing]
    | y =>
      show Except.ok _ = Except.ok _
      simp [Magnitude.ofValues, valuesAt, value, Walk.measure, Walk.typing]
  | literal value =>
    rw [measure_literal, typing?_literal]
    rfl
  | binary op l r ihl ihr =>
    rw [measure_binary, typing?_binary, ihl, ihr]
    cases hl : l.typing? x y with
    | error e => rfl
    | ok left =>
      cases hr : r.typing? x y with
      | error e => rfl
      | ok right =>
        have hcombine := Magnitude.combine_ofValues op
          (fun v hv => l.valuesAt_of_constant xs ys hl hv)
          (fun v hv => r.valuesAt_of_constant xs ys hr hv)
        -- Both sides ask the operator for a dimension, with the same constant exponent.
        simp only [Except.map, Except.ok_bind, Magnitude.constant?_ofValues]
        cases op.combine (binary op l r) r left.dimension right.dimension right.constant with
        | error e => rfl
        | ok d =>
          rw [valuesAt_binary, hcombine]
          rfl

/-! ### Planes -/

/-- Where the cells are few enough, the plane of a formula holds its values, and the dimension and
the faults are those found without samples. The limit is the only thing that evaluation on a plane
adds. -/
theorem field?_eq (t : Tree) (xs ys : Array Float) (x y : Dimension) {limits : Limits}
    (h : ys.size * xs.size ≤ limits.maxCells) :
    t.field? xs ys x y limits =
      (t.dimension? x y).map fun d =>
        (.ofVector (t.valuesAt (columnValues xs ys) (rowValues xs ys)), d) := by
  rw [field?, if_neg (Nat.not_lt.2 h), measure_eq, dimension?]
  cases ht : t.typing? x y with
  | error e => rfl
  | ok ty =>
    have hvalues := Magnitude.values_ofValues fun v hv =>
      t.valuesAt_of_constant (columnValues xs ys) (rowValues xs ys) ht hv
    simp [Except.map, hvalues]

/-- A plane has no more cells than the limit, because a larger one is refused before anything is
evaluated. -/
theorem le_maxCells_of_field?_eq_ok {t : Tree} {xs ys : Array Float} {x y d : Dimension}
    {limits : Limits} {p : Plane} (h : t.field? xs ys x y limits = .ok (p, d)) :
    ys.size * xs.size ≤ limits.maxCells := by
  refine Nat.not_lt.1 fun hlt => ?_
  rw [field?, if_pos hlt] at h
  cases h

/-- The position of a cell of a plane with a row for each of `ys` and a column for each of `xs`.
Rows are kept one after the other. -/
def position {xs ys : Array Float} {j i : Nat} (hj : j < ys.size) (hi : i < xs.size) :
    Fin (ys.size * xs.size) :=
  ⟨j * xs.size + i, Plane.index_lt hj hi⟩

/-- The first coordinate of a cell is the sample of its column: what remains when the position is
divided by the length of a row. -/
theorem columnValues_position {xs ys : Array Float} {j i : Nat} (hj : j < ys.size)
    (hi : i < xs.size) : (columnValues xs ys)[position hj hi] = xs[i] := by
  simp [columnValues, position, Nat.mul_add_mod_of_lt hi]

/-- The second coordinate of a cell is the sample of its row: the quotient of the position and the
length of a row. -/
theorem rowValues_position {xs ys : Array Float} {j i : Nat} (hj : j < ys.size)
    (hi : i < xs.size) : (rowValues xs ys)[position hj hi] = ys[j] := by
  have hpos : 0 < xs.size := by omega
  have hrow : (j * xs.size + i) / xs.size = j := by
    rw [Nat.mul_comm, Nat.mul_add_div hpos, Nat.div_eq_of_lt hi, Nat.add_zero]
  simp [rowValues, position, hrow]

/-- A cell of the plane of a tree's values holds the value at its point, with the sample of its
column first. -/
theorem cell_valuesAt (t : Tree) {xs ys : Array Float} {j i : Nat} (hj : j < ys.size)
    (hi : i < xs.size) :
    (Plane.ofVector (t.valuesAt (columnValues xs ys) (rowValues xs ys))).cell j i hj hi =
      t.value xs[i] ys[j] := by
  show (t.valuesAt (columnValues xs ys) (rowValues xs ys))[position hj hi] = _
  have hget : (t.valuesAt (columnValues xs ys) (rowValues xs ys))[position hj hi] =
      t.value (columnValues xs ys)[position hj hi] (rowValues xs ys)[position hj hi] := by
    simp [valuesAt]
  rw [hget, columnValues_position hj hi, rowValues_position hj hi]

/-- A plane has a row for each of `ys` and a column for each of `xs`, and every cell holds the plain
value at its point. Evaluation at that point alone gives the same number, unless a part of the
formula divides by zero there; the fault then names the first such part in post-order, and there is
no other fault. -/
theorem field?_cells_eq_value {t : Tree} {xs ys : Array Float} {x y d : Dimension} {limits : Limits}
    {p : Plane} (h : t.field? xs ys x y limits = .ok (p, d)) :
    ∃ (hrows : p.rows = ys.size) (hcols : p.cols = xs.size),
      ∀ (j i : Nat) (hj : j < ys.size) (hi : i < xs.size),
        p.cell j i (hrows ▸ hj) (hcols ▸ hi) = t.value xs[i] ys[j] ∧
        (∀ v, t.value? xs[i] ys[j] = .ok v ↔
          (∀ s ∈ t.subtrees, ¬ s.DividesByZero xs[i] ys[j]) ∧
            v = p.cell j i (hrows ▸ hj) (hcols ▸ hi)) ∧
        (∀ e, t.value? xs[i] ys[j] = .error e ↔
          ∃ before s after, t.subtrees = before ++ s :: after ∧
            (∀ u ∈ before, ¬ u.DividesByZero xs[i] ys[j]) ∧ s.DividesByZero xs[i] ys[j] ∧
            e = .zeroDivision s.text xs[i] ys[j]) := by
  rw [field?_eq t xs ys x y (le_maxCells_of_field?_eq_ok h)] at h
  cases hd : t.dimension? x y with
  | error e =>
    rw [hd] at h
    cases h
  | ok d' =>
    rw [hd] at h
    cases h
    -- The sizes are those of the plane by definition, so the cell needs no cast.
    refine ⟨rfl, rfl, fun j i hj hi => ?_⟩
    have hcell := t.cell_valuesAt hj hi
    refine ⟨hcell, fun v => ?_, fun e => value?_eq_error_iff⟩
    rw [hcell]
    exact value?_eq_ok_iff

/-- Speeds over two lengths and two durations: the second duration gives the second row. -/
theorem field?_cells_eq_value_speed :
    (binary .div (var .x) (var .y)).field? #[1, 2] #[0, 4] { length := 1 } { time := 1 } {} =
        .ok (⟨2, 2, #[1 / 0, 2 / 0, 1 / 4, 2 / 4], rfl⟩, { length := 1, time := .ofInt32 (-1) }) ∧
      (binary .div (var .x) (var .y)).value? 2 4 = .ok (2 / 4) ∧
      (binary .div (var .x) (var .y)).value? 2 0 = .error (.zeroDivision "x/y" 2 0) := by
  have h : (binary .div (var .x) (var .y)).field? #[1, 2] #[0, 4] { length := 1 } { time := 1 } {} =
      .ok (⟨2, 2, #[1 / 0, 2 / 0, 1 / 4, 2 / 4], rfl⟩, { length := 1, time := .ofInt32 (-1) }) := by
    decide +kernel
  obtain ⟨_, _, hcells⟩ := field?_cells_eq_value h
  refine ⟨h, ?_, ?_⟩
  · exact ((hcells 1 1 (by decide) (by decide)).2.1 _).2 ⟨by decide, rfl⟩
  · refine ((hcells 0 1 (by decide) (by decide)).2.2 _).2
      ⟨[var .x, var .y], binary .div (var .x) (var .y), [], rfl,
        ?_, by decide, by decide⟩
    decide

/-- The dimension of a plane, or the fault, is the one found from the dimensions of the variables
alone, so it does not depend on the samples. No fault of the two is one of syntax, since there is a
tree already. -/
theorem map_dimension_field?_eq_dimension? (t : Tree) (xs ys : Array Float) (x y : Dimension)
    {limits : Limits} (h : ys.size * xs.size ≤ limits.maxCells) :
    (t.field? xs ys x y limits).map Prod.snd = t.dimension? x y ∧
      (∀ e, t.dimension? x y = .error e → e.code ≠ "E_FORMULA_SYNTAX") ∧
      (∀ e, t.field? xs ys x y limits = .error e → e.code ≠ "E_FORMULA_SYNTAX") := by
  have hfield := field?_eq t xs ys x y h
  -- There is a field just when there is a dimension, and the faults are the same.
  cases hd : t.dimension? x y with
  | ok d =>
    rw [hd] at hfield
    rw [hfield]
    refine ⟨rfl, fun e he => ?_, fun e he => ?_⟩
    · cases he
    · cases he
  | error e =>
    rw [hd] at hfield
    rw [hfield]
    have hcode := code_ne_syntax_of_dimension?_eq_error hd
    refine ⟨rfl, fun e' he => ?_, fun e' he => ?_⟩
    · cases he
      exact hcode
    · cases he
      exact hcode

/-- The square root of an area: the exponent is a constant on both ways to the dimension. -/
theorem map_dimension_field?_eq_dimension?_root :
    #[4].size * #[1, 9].size ≤ ({} : Limits).maxCells ∧
      ((binary .pow (var .x) (binary .div (literal 1) (literal 2))).field? #[1, 9] #[4]
          { length := .ofInt32 2 } { time := 1 } {}).map Prod.snd =
        .ok { length := 1 } := by
  refine ⟨by decide, ?_⟩
  rw [(map_dimension_field?_eq_dimension? _ #[1, 9] #[4] _ _ (by decide)).1]
  decide +kernel

end Tree

end UnitPlane
