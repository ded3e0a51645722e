import UnitPlane.Formula.Value
import UnitPlane.Proofs.Formula.Walk

/-!
# `UnitPlane.Proofs.Formula.Evaluation`: when a formula has a value at a point

`Tree.value?` walks over the nodes and refuses to divide by zero, and `Tree.value` never refuses.
The two agree wherever no part of the formula divides by zero, and otherwise the fault names the
first part in post-order that does. It is never one of the walk itself:

* `Tree.value?_eq`: the value is that of `Tree.value`, unless `Tree.firstUndefined?` finds a part.
* `Tree.value?_eq_ok_iff` and `Tree.value?_eq_error_iff`: the same as conditions on the parts.
-/

set_option autoImplicit false

namespace UnitPlane.Tree

/-- Whether the root of a tree divides by zero at a point: a quotient whose right operand is zero,
or a power of zero with a negative exponent. -/
def DividesByZero (x y : Float) : Tree → Prop
  | binary .div _ r => r.value x y == 0
  | binary .pow l r => l.value x y == 0 ∧ r.value x y < 0
  | _ => False

instance (x y : Float) : (t : Tree) → Decidable (t.DividesByZero x y)
  | binary .div _ r => inferInstanceAs (Decidable ((r.value x y == 0) = true))
  | binary .pow _ _ => inferInstanceAs (Decidable (_ ∧ _))
  | binary .add _ _ | binary .sub _ _ | binary .mul _ _ | var _ | literal _ =>
    inferInstanceAs (Decidable False)

/-- The first part in post-order whose root divides by zero. This is a search over all parts,
without any evaluation that stops. -/
def firstUndefined? (x y : Float) (t : Tree) : Option Tree :=
  t.subtrees.find? fun s => s.DividesByZero x y

/-- The check that `value?` makes at a node asks for the values of the operands only, which here are
those of `value`. -/
theorem dividesByZero_binary_iff (x y : Float) (op : Operator) (l r : Tree) :
    (binary op l r).DividesByZero x y ↔ op.dividesByZero (l.value x y) (r.value x y) = true := by
  cases op with
  | add | sub | mul => simp [DividesByZero, Operator.dividesByZero]
  | div => simp [DividesByZero, Operator.dividesByZero]
  | pow => simp [DividesByZero, Operator.dividesByZero]

/-- The first part of a node is that of its left operand, or else that of its right operand, or else
the node itself. -/
theorem firstUndefined?_binary (x y : Float) (op : Operator) (l r : Tree) :
    (binary op l r).firstUndefined? x y =
      ((l.firstUndefined? x y).or (r.firstUndefined? x y)).or
        (if (binary op l r).DividesByZero x y then some (binary op l r) else none) := by
  by_cases h : (binary op l r).DividesByZero x y <;>
    simp [firstUndefined?, subtrees, List.find?_append, h]

/-- A variable is evaluated to its coordinate. -/
theorem value?_var (x y : Float) (v : Variable) :
    (var v).value? x y = .ok ((var v).value x y) := by
  rw [value?, Walk.run_var]
  cases v <;> rfl

/-- A literal is evaluated to its number. -/
theorem value?_literal (x y value : Float) : (literal value).value? x y = .ok value :=
  Walk.run_literal _ _

/-- The operands are evaluated from left to right, before the operator looks for a zero. -/
theorem value?_binary (x y : Float) (op : Operator) (l r : Tree) :
    (binary op l r).value? x y =
      l.value? x y >>= fun a => r.value? x y >>= fun b =>
        if op.dividesByZero a b then .error (.zeroDivision (binary op l r).text x y)
        else .ok (op.apply a b) :=
  Walk.run_binary _ op l r

/-- Evaluation gives the plain value, unless some part divides by zero; the first such part in
post-order is then the one that is named. There is no other way to stop. -/
theorem value?_eq (x y : Float) (t : Tree) :
    t.value? x y =
      match t.firstUndefined? x y with
      | some s => .error (.zeroDivision s.text x y)
      | none => .ok (t.value x y) := by
  induction t with
  | var v => exact value?_var x y v
  | literal value => exact value?_literal x y value
  | binary op l r ihl ihr =>
    rw [firstUndefined?_binary, value?_binary, ihl, ihr]
    -- A fault of the left operand hides the rest.
    cases l.firstUndefined? x y with
    | some s => rfl
    | none =>
      cases r.firstUndefined? x y with
      | some s => rfl
      | none =>
        by_cases h : (binary op l r).DividesByZero x y
        · have hop := (dividesByZero_binary_iff x y op l r).1 h
          simp [h, hop]
        · have hop : op.dividesByZero (l.value x y) (r.value x y) = false := by
            rw [← Bool.not_eq_true, ← dividesByZero_binary_iff]
            exact h
          simp [h, hop, value]

/-- Evaluation succeeds exactly where no part divides by zero, and the value is then the plain
one. -/
theorem value?_eq_ok_iff {x y v : Float} {t : Tree} :
    t.value? x y = .ok v ↔ (∀ s ∈ t.subtrees, ¬ s.DividesByZero x y) ∧ v = t.value x y := by
  rw [value?_eq]
  -- Either no subtree divides by zero, or the first that does is found.
  cases h : t.firstUndefined? x y with
  | none =>
    have hall : ∀ s ∈ t.subtrees, ¬ s.DividesByZero x y := by
      simpa [firstUndefined?] using h
    constructor
    · intro hv
      cases hv
      exact ⟨hall, rfl⟩
    · rintro ⟨-, rfl⟩
      rfl
  | some s =>
    constructor
    · intro hv
      cases hv
    · rintro ⟨hall, -⟩
      have hs := List.find?_some h
      exact absurd (of_decide_eq_true hs) (hall s (List.mem_of_find?_eq_some h))

/-- A fault names the first part in post-order that divides by zero, and there is no other fault. -/
theorem value?_eq_error_iff {x y : Float} {e : Fault} {t : Tree} :
    t.value? x y = .error e ↔
      ∃ before s after, t.subtrees = before ++ s :: after ∧
        (∀ u ∈ before, ¬ u.DividesByZero x y) ∧ s.DividesByZero x y ∧
        e = .zeroDivision s.text x y := by
  rw [value?_eq]
  cases h : t.firstUndefined? x y with
  | none =>
    have hall : ∀ s ∈ t.subtrees, ¬ s.DividesByZero x y := by
      simpa [firstUndefined?] using h
    constructor
    · intro he
      cases he
    · rintro ⟨before, s, after, hsub, -, hs, -⟩
      refine absurd hs (hall s ?_)
      rw [hsub]
      simp
  | some s =>
    obtain ⟨hs, before, after, hsub, hbefore⟩ := List.find?_eq_some_iff_append.1 h
    have hs := of_decide_eq_true hs
    have hbefore : ∀ u ∈ before, ¬ u.DividesByZero x y := by simpa using hbefore
    constructor
    · intro he
      cases he
      exact ⟨before, s, after, hsub, hbefore, hs, rfl⟩
    · rintro ⟨before', s', after', hsub', hbefore', hs', rfl⟩
      -- A part that is first in the sense of the statement is the one that the search finds.
      have h' : t.firstUndefined? x y = some s' := by
        refine List.find?_eq_some_iff_append.2 ⟨decide_eq_true hs', before', after', hsub', ?_⟩
        intro u hu
        simpa using hbefore' u hu
      rw [h] at h'
      cases h'
      rfl

end UnitPlane.Tree
