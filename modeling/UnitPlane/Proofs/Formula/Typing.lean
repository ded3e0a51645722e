import UnitPlane.Formula.Typing
import UnitPlane.Formula.Value
import UnitPlane.Proofs.Formula.Walk

/-!
# `UnitPlane.Proofs.Formula.Typing`: what a typing knows, and how it fails

A typing is found by one walk through the tree that keeps the dimension of each subtree, and its
value if it is constant. The rules for dimensions are those of the operators, and only a power needs
the value of its right operand: the exponent of a quantity with a dimension is to be a constant.

* `Operator.combine_eq_ok_iff`: dimensions are combined as the rules of the operators say.
* `Tree.value_eq_of_constant`: the constant of a typing is the value of the tree, at any point.
* `Tree.code_of_typing?_eq_error`: a tree without a typing has a fault of dimensions, and no other.
-/

set_option autoImplicit false

namespace UnitPlane

/-- The kinds of fault that a dimension can have. All of them come from combining two dimensions. -/
def Fault.dimensionCodes : List String :=
  ["E_DIM_MISMATCH", "E_DIM_EXPONENT", "E_DIM_EXPONENT_CONST", "E_LIMIT"]

/-- An exponent out of range is one of these faults. -/
theorem Dimension.code_of_orOverflow_eq_error {d : Option Dimension} {e : Fault}
    (h : Dimension.orOverflow d = .error e) : e.code ∈ Fault.dimensionCodes := by
  cases d with
  | some d => cases h
  | none =>
    cases h
    simp [Fault.exponentOverflow, Fault.code, Fault.dimensionCodes]

/-- An operation on dimensions succeeds just when its exponents are in range. -/
theorem Dimension.orOverflow_eq_ok_iff {o : Option Dimension} {d : Dimension} :
    Dimension.orOverflow o = .ok d ↔ o = some d := by
  cases o with
  | none => exact ⟨nofun, nofun⟩
  | some d' => exact ⟨fun h => congrArg some (Except.ok.inj h), fun h => by cases h; rfl⟩

namespace Operator

/-! ### Rules -/

/-- The rules for the dimension of an operator's result, from those of its operands. A power of a
pure number is one. Another power needs an exponent that is a constant and a simple fraction. -/
inductive Rule (constant : Option Float) : Operator → Dimension → Dimension → Dimension → Prop
  | add (d : Dimension) : Rule constant add d d d
  | sub (d : Dimension) : Rule constant sub d d d
  | mul {l r d : Dimension} (h : l.mul? r = some d) : Rule constant mul l r d
  | div {l r d : Dimension} (h : l.div? r = some d) : Rule constant div l r d
  | powOfNumber : Rule constant pow .dimensionless .dimensionless .dimensionless
  | pow {l d : Dimension} {v : Float} {p : Exponent} (hl : l ≠ .dimensionless)
      (hv : constant = some v) (hp : Exponent.ofFloat? v = some p) (h : l.pow? p = some d) :
      Rule constant pow l .dimensionless d

/-- Powers are combined as the rules say. The guards come in the order of the conditions: the
exponent is a pure number, the base is one or not, the exponent is constant, and it is a
fraction. -/
theorem combinePower_eq_ok_iff {right : Tree} {l r d : Dimension} {constant : Option Float} :
    combinePower right l r constant = .ok d ↔ Rule constant .pow l r d := by
  constructor
  -- Each guard that is passed is a condition of the rule.
  · intro h
    unfold combinePower at h
    split at h
    · cases h
    next hr =>
      obtain rfl : r = .dimensionless := by simpa [Dimension.isDimensionless] using hr
      split at h
      next hl =>
        obtain rfl : l = .dimensionless := by simpa [Dimension.isDimensionless] using hl
        cases h
        exact .powOfNumber
      next hl =>
        split at h
        · cases h
        next value =>
          split at h
          · cases h
          next p hp =>
            refine .pow (fun heq => hl ?_) rfl hp (Dimension.orOverflow_eq_ok_iff.1 h)
            rw [heq]
            decide
  · intro h
    cases h with
    | powOfNumber => rfl
    | pow hl hv hp h =>
      subst hv
      have hl' : l.isDimensionless = false := decide_eq_false hl
      unfold combinePower
      rw [if_neg (by decide), hl', if_neg (by decide)]
      simp only [hp]
      exact Dimension.orOverflow_eq_ok_iff.2 h

/-- Dimensions are combined as the rules say, whatever the operands are. The trees only matter for
the text of a fault. -/
theorem combine_eq_ok_iff {op : Operator} {whole right : Tree} {l r d : Dimension}
    {constant : Option Float} :
    op.combine whole right l r constant = .ok d ↔ op.Rule constant l r d := by
  -- Sums and differences share this condition.
  have hsum : (if l = r then Except.ok l
      else .error (Fault.dimensionMismatch whole.text l r)) = .ok d ↔
      l = r ∧ l = d := by
    split
    next heq => exact ⟨fun h => ⟨heq, Except.ok.inj h⟩, fun h => congrArg Except.ok h.2⟩
    next hne => exact ⟨nofun, fun h => absurd h.1 hne⟩
  cases op with
  | add =>
    refine hsum.trans ⟨?_, ?_⟩
    · rintro ⟨rfl, rfl⟩
      exact .add l
    · rintro ⟨⟩
      exact ⟨rfl, rfl⟩
  | sub =>
    refine hsum.trans ⟨?_, ?_⟩
    · rintro ⟨rfl, rfl⟩
      exact .sub l
    · rintro ⟨⟩
      exact ⟨rfl, rfl⟩
  | mul =>
    refine Dimension.orOverflow_eq_ok_iff.trans ⟨.mul, ?_⟩
    rintro ⟨⟩
    assumption
  | div =>
    refine Dimension.orOverflow_eq_ok_iff.trans ⟨.div, ?_⟩
    rintro ⟨⟩
    assumption
  | pow => exact combinePower_eq_ok_iff

/-! ### Faults -/

/-- A power is refused with one of these faults. Every guard has one of its own. -/
theorem code_of_combinePower_eq_error {right : Tree} {l r : Dimension} {constant : Option Float}
    {e : Fault} (h : combinePower right l r constant = .error e) :
    e.code ∈ Fault.dimensionCodes := by
  unfold combinePower at h
  split at h
  · cases h
    simp [Fault.code, Fault.dimensionCodes]
  split at h
  · cases h
  split at h
  · cases h
    simp [Fault.code, Fault.dimensionCodes]
  split at h
  · cases h
    simp [Fault.code, Fault.dimensionCodes]
  · exact Dimension.code_of_orOverflow_eq_error h

/-- An operator is refused with one of these faults, whatever its operands are. -/
theorem code_of_combine_eq_error {op : Operator} {whole right : Tree} {l r : Dimension}
    {constant : Option Float} {e : Fault} (h : op.combine whole right l r constant = .error e) :
    e.code ∈ Fault.dimensionCodes := by
  cases op with
  | add | sub =>
    rw [combine] at h
    split at h
    · cases h
    · cases h
      simp [Fault.code, Fault.dimensionCodes]
  | mul | div => exact Dimension.code_of_orOverflow_eq_error h
  | pow => exact code_of_combinePower_eq_error h

end Operator

namespace Tree

/-- A variable has its own dimension and no constant. -/
theorem typing?_var (x y : Dimension) (v : Variable) :
    (var v).typing? x y = .ok ((Walk.typing x y).variableOperand v) :=
  Walk.run_var _ v

/-- A number is a pure number, and it is its own constant. -/
theorem typing?_literal (x y : Dimension) (value : Float) :
    (literal value).typing? x y = .ok ⟨.dimensionless, some value⟩ :=
  Walk.run_literal _ _

/-- An operation has the dimension that its operator makes of those of its operands, and a constant
if both operands have one. The left operand is typed first. -/
theorem typing?_binary (x y : Dimension) (op : Operator) (l r : Tree) :
    (binary op l r).typing? x y =
      l.typing? x y >>= fun left => r.typing? x y >>= fun right =>
        op.combine (binary op l r) r left.dimension right.dimension right.constant
          >>= fun dimension =>
            .ok ⟨dimension, do pure (op.apply (← left.constant) (← right.constant))⟩ :=
  Walk.run_binary _ op l r

/-- The constant of a typing is the value at every point. Only trees without variables have one. -/
theorem value_eq_of_constant {x y : Dimension} {t : Tree} {ty : Typing} {v : Float}
    (ht : t.typing? x y = .ok ty) (hv : ty.constant = some v) (a b : Float) : t.value a b = v := by
  -- The induction is on the tree. The constant of an operation is made from those of its operands.
  induction t generalizing ty v with
  | var w =>
    rw [typing?_var] at ht
    cases ht
    cases w <;> cases hv
  | literal value =>
    rw [typing?_literal] at ht
    cases ht
    cases hv
    rfl
  | binary op l r ihl ihr =>
    rw [typing?_binary] at ht
    obtain ⟨left, hl, ht⟩ := Except.bind_eq_ok.1 ht
    obtain ⟨right, hr, ht⟩ := Except.bind_eq_ok.1 ht
    obtain ⟨dimension, -, ht⟩ := Except.bind_eq_ok.1 ht
    cases ht
    obtain ⟨u, hu, hv⟩ := Option.bind_eq_some_iff.1 hv
    obtain ⟨w, hw, hv⟩ := Option.bind_eq_some_iff.1 hv
    cases hv
    show op.apply (l.value a b) (r.value a b) = op.apply u w
    rw [ihl hl hu, ihr hr hw]

/-- Whatever a tree without a typing fails by comes from combining two dimensions, and not from the
walk. -/
theorem code_of_typing?_eq_error {x y : Dimension} {t : Tree} {e : Fault}
    (h : t.typing? x y = .error e) : e.code ∈ Fault.dimensionCodes := by
  -- The induction is on the tree. The first of three steps that fails gives the fault.
  induction t with
  | var v =>
    rw [typing?_var] at h
    cases h
  | literal value =>
    rw [typing?_literal] at h
    cases h
  | binary op l r ihl ihr =>
    rw [typing?_binary] at h
    rcases Except.bind_eq_error.1 h with hl | ⟨left, -, h⟩
    · exact ihl hl
    rcases Except.bind_eq_error.1 h with hr | ⟨right, -, h⟩
    · exact ihr hr
    rcases Except.bind_eq_error.1 h with hop | ⟨dimension, -, h⟩
    · exact Operator.code_of_combine_eq_error hop
    · cases h

/-- A tree without a dimension has one of these faults, since its dimension is that of its
typing. -/
theorem code_of_dimension?_eq_error {x y : Dimension} {t : Tree} {e : Fault}
    (h : t.dimension? x y = .error e) : e.code ∈ Fault.dimensionCodes := by
  rcases Except.bind_eq_error.1 h with ht | ⟨ty, -, h⟩
  · exact code_of_typing?_eq_error ht
  · cases h

/-- A tree is never refused as malformed. That would be the fault of a walk that lacks an
operand. -/
theorem code_ne_syntax_of_dimension?_eq_error {x y : Dimension} {t : Tree} {e : Fault}
    (h : t.dimension? x y = .error e) : e.code ≠ "E_FORMULA_SYNTAX" := by
  have hmem := code_of_dimension?_eq_error h
  intro hcode
  rw [hcode] at hmem
  simp [Fault.dimensionCodes] at hmem

end Tree

end UnitPlane
