import UnitPlane.Proofs.Double.Arithmetic
import UnitPlane.Proofs.Formula.Evaluation
import UnitPlane.Proofs.Formula.Rereading
import UnitPlane.Proofs.Formula.Typing

/-!
# `UnitPlane.Proofs.Formula.Agreement`: trees that mean the same

Two trees agree if they have the same value at every point and the same dimension for all dimensions
of the variables, or fail with faults of one code. The texts in the faults may differ, because they
name the trees. Agreement of that kind does not pass from the operands of a node to the node,
because the constant of an exponent takes part in the dimension. `Tree.Interchangeable` asks for the
same constants too, and does. So the tree that is read from the text of a tree agrees with it, once
the signs that `Tree.signOutside` moves are moved.
-/

set_option autoImplicit false

namespace UnitPlane

open Double

namespace Except

variable {ε ε' α β : Type}

/-- Changing the faults of a row of steps is changing them in each step. The results of the first
step are passed on as they are. -/
theorem mapError_bind (code : ε → ε') (x : Except ε α) (f : α → Except ε β) :
    (x >>= f).mapError code = x.mapError code >>= fun a => (f a).mapError code := by
  cases x with
  | error e => rfl
  | ok a => rfl

end Except

namespace Tree

/-- Two trees mean the same, but for the texts in their faults. Where one has no value or no
dimension the other has none, for a reason of the same kind. -/
structure Agrees (t u : Tree) : Prop where
  value (x y : Float) : (t.value? x y).mapError Fault.code = (u.value? x y).mapError Fault.code
  dimension (x y : Dimension) :
    (t.dimension? x y).mapError Fault.code = (u.dimension? x y).mapError Fault.code

/-- Agreement goes both ways. -/
theorem Agrees.symm {t u : Tree} (h : t.Agrees u) : u.Agrees t :=
  ⟨fun x y => (h.value x y).symm, fun x y => (h.dimension x y).symm⟩

/-- Agreement passes along a row of trees. -/
theorem Agrees.trans {t u v : Tree} (h : t.Agrees u) (h' : u.Agrees v) : t.Agrees v :=
  ⟨fun x y => (h.value x y).trans (h'.value x y),
    fun x y => (h.dimension x y).trans (h'.dimension x y)⟩

/-- Two trees agree, and one may stand for the other in every larger tree. -/
structure Interchangeable (t u : Tree) : Prop where
  value (x y : Float) : (t.value? x y).mapError Fault.code = (u.value? x y).mapError Fault.code
  typing (x y : Dimension) :
    (t.typing? x y).mapError Fault.code = (u.typing? x y).mapError Fault.code

namespace Interchangeable

variable {t u v l r l' r' : Tree}

/-- A tree may stand for itself. -/
theorem refl (t : Tree) : t.Interchangeable t := ⟨fun _ _ => rfl, fun _ _ => rfl⟩

/-- If one tree may stand for the other, so may the other for the one. -/
theorem symm (h : t.Interchangeable u) : u.Interchangeable t :=
  ⟨fun x y => (h.value x y).symm, fun x y => (h.typing x y).symm⟩

/-- What may stand for a tree that may stand for a third may stand for the third. -/
theorem trans (h : t.Interchangeable u) (h' : u.Interchangeable v) : t.Interchangeable v :=
  ⟨fun x y => (h.value x y).trans (h'.value x y), fun x y => (h.typing x y).trans (h'.typing x y)⟩

/-- Trees that may stand for each other agree. Their dimensions are those of their typings, without
the constants. -/
theorem agrees (h : t.Interchangeable u) : t.Agrees u := by
  refine ⟨h.value, fun x y => ?_⟩
  unfold dimension?
  rw [Except.mapError_bind, Except.mapError_bind, h.typing]

/-- What an operator gives depends on the trees in its faults only by their texts. -/
theorem mapError_combine (op : Operator) (whole whole' right right' : Tree) (l r : Dimension)
    (constant : Option Float) :
    (op.combine whole right l r constant).mapError Fault.code =
      (op.combine whole' right' l r constant).mapError Fault.code := by
  -- The trees occur in the texts of faults and nowhere else.
  cases op with
  | add | sub =>
    rw [Operator.combine, Operator.combine]
    split <;> rfl
  | mul | div => rfl
  | pow =>
    rw [Operator.combine, Operator.combine]
    unfold Operator.combinePower
    split
    · rfl
    split
    · rfl
    split
    · rfl
    split <;> rfl

/-- Interchangeable operands make interchangeable nodes. It is here that the constants are needed,
since a power asks for the constant of its exponent. -/
theorem binary (op : Operator) (hl : l.Interchangeable l') (hr : r.Interchangeable r') :
    (Tree.binary op l r).Interchangeable (.binary op l' r') := by
  -- Each half first writes the node's answer with the code taken of each part on its own; the
  -- hypotheses then exchange the parts.
  refine ⟨fun x y => ?_, fun x y => ?_⟩
  · have hnode (t u : Tree) : ((Tree.binary op t u).value? x y).mapError Fault.code =
        (t.value? x y).mapError Fault.code >>= fun a =>
          (u.value? x y).mapError Fault.code >>= fun b =>
            if op.dividesByZero a b then .error "E_MATH_DIV_ZERO" else .ok (op.apply a b) := by
      rw [value?_binary, Except.mapError_bind]
      refine congrArg _ (funext fun a => ?_)
      rw [Except.mapError_bind]
      refine congrArg _ (funext fun b => ?_)
      split <;> rfl
    rw [hnode, hnode, hl.value, hr.value]
  · have hnode (t u : Tree) : ((Tree.binary op t u).typing? x y).mapError Fault.code =
        (t.typing? x y).mapError Fault.code >>= fun a =>
          (u.typing? x y).mapError Fault.code >>= fun b =>
            (op.combine (.binary op l r) r a.dimension b.dimension b.constant).mapError Fault.code
              >>= fun dimension =>
                .ok ⟨dimension, do pure (op.apply (← a.constant) (← b.constant))⟩ := by
      rw [typing?_binary, Except.mapError_bind]
      refine congrArg _ (funext fun a => ?_)
      rw [Except.mapError_bind]
      refine congrArg _ (funext fun b => ?_)
      rw [Except.mapError_bind, mapError_combine op _ (.binary op l r) _ r]
      rfl
    rw [hnode, hnode, hl.typing, hr.typing]

end Interchangeable

/-- The tree with the sign of every base that is the negative zero moved in front of its power. Such
a base is printed without brackets, so that the sign is read as one of the power. -/
def signOutside : Tree → Tree
  | var v => var v
  | literal value => literal value
  | binary op l r =>
    if op = .pow ∧ l = literal (-0) then (binary .pow (literal 0) r.signOutside).negated
    else binary op l.signOutside r.signOutside

/-- A sign in front of a number is part of the number, which is the same as a product with minus
one. In front of anything else it is such a product already. -/
theorem interchangeable_negated (t : Tree) :
    (binary .mul (literal (-1)) t).Interchangeable t.negated := by
  cases t with
  | var | binary => exact .refl _
  | literal value =>
    refine ⟨fun x y => ?_, fun x y => ?_⟩
    · rw [negated, value?_binary, value?_literal, value?_literal, value?_literal]
      show Except.ok (-1 * value) = Except.ok (-value)
      rw [Double.neg_one_mul]
    -- Both are numbers without a dimension, and constants.
    · have hmul : Dimension.dimensionless.mul? .dimensionless = some .dimensionless := by decide
      have hproduct : (binary .mul (literal (-1)) (literal value)).typing? x y
          = .ok ⟨.dimensionless, some (-1 * value)⟩ := by
        simp only [typing?_binary, typing?_literal, Except.ok_bind, Operator.combine, hmul]
        rfl
      rw [hproduct, negated, typing?_literal, Double.neg_one_mul]

/-- The literal that is printed as a sign is the one of minus one, with no other bits. -/
theorem eq_of_isMinusOne {t : Tree} (h : t.isMinusOne = true) : t = literal (-1) := by
  cases t with
  | literal value => rw [eq_neg_one_of_beq h]
  | var | binary => cases h

/-- Trees that may stand for each other may do so with a sign in front of them. -/
theorem Interchangeable.negated {t u : Tree} (h : t.Interchangeable u) :
    t.negated.Interchangeable u.negated := by
  have hproduct := Interchangeable.binary .mul (.refl (literal (-1))) h
  exact (interchangeable_negated t).symm.trans (hproduct.trans (interchangeable_negated u))

/-- The tree that is read from the text of a tree stands for it, once the signs are moved. So
nothing that is computed from the text differs from what is computed from the tree. -/
theorem interchangeable_reread (t : Tree) : t.reread.Interchangeable t.signOutside := by
  -- The two functions on trees split alike, but for the sign of a product with minus one, which
  -- only `reread` joins to its operand.
  induction t with
  | var v => exact .refl _
  | literal value => exact .refl _
  | binary op l r ihl ihr =>
    rw [reread, signOutside]
    by_cases hminus : op = .mul ∧ l.isMinusOne = true
    · obtain ⟨rfl, hl⟩ := hminus
      obtain rfl := eq_of_isMinusOne hl
      rw [if_pos ⟨rfl, hl⟩, if_neg (by simp)]
      exact ihr.negated.trans (interchangeable_negated _).symm
    · rw [if_neg hminus]
      by_cases hzero : op = .pow ∧ l = literal (-0)
      · rw [if_pos hzero, if_pos hzero]
        exact (Interchangeable.binary .pow (.refl _) ihr).negated
      · rw [if_neg hzero, if_neg hzero]
        exact .binary op ihl ihr

/-- Some power has the negative zero as its base. -/
def HasNegativeZeroBase (t : Tree) : Prop := ∃ e, binary .pow (literal (-0)) e ∈ t.subtrees

/-- Without such a base there is no sign to move, and the tree that is read agrees with the one that
was printed. -/
theorem signOutside_eq_self {t : Tree} (h : ¬ t.HasNegativeZeroBase) : t.signOutside = t := by
  induction t with
  | var v => rfl
  | literal value => rfl
  | binary op l r ihl ihr =>
    have hl : ¬ l.HasNegativeZeroBase := fun ⟨e, he⟩ => h ⟨e, by simp [subtrees, he]⟩
    have hr : ¬ r.HasNegativeZeroBase := fun ⟨e, he⟩ => h ⟨e, by simp [subtrees, he]⟩
    have hzero : ¬ (op = .pow ∧ l = literal (-0)) := by
      rintro ⟨rfl, rfl⟩
      exact h ⟨r, by simp [subtrees]⟩
    rw [signOutside, if_neg hzero, ihl hl, ihr hr]

end Tree

end UnitPlane
