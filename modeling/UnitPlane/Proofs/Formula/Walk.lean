import UnitPlane.Formula.Walk
import UnitPlane.Proofs.Support.Except

/-!
# `UnitPlane.Proofs.Formula.Walk`: a walk over the nodes is a recursion on the tree

The nodes of a tree come in post-order, so the nodes of an operator's parts come right before it.
Each part puts one operand on the stack and leaves what is below, and the operator finds the two
operands that belong to it. So no walk ever lacks an operand:

* `Tree.toList_nodes`: the nodes that are listed are the subtrees in post-order.
* `Walk.foldlM_subtrees`: the nodes of a tree put one operand on the stack, or stop the walk.
* `Walk.run_eq_fold`: a walk gives what the recursion on the tree gives.
-/

set_option autoImplicit false

namespace UnitPlane

/-! ### The nodes -/

namespace Tree

/-- The nodes below a pending one are listed in post-order before the pending ones below it. The
list of those that are listed already only grows at its end. -/
theorem listPending_cons (t : Tree) (listed : Array Tree) (pending : List (Tree × Bool)) :
    listPending listed ((t, false) :: pending) =
      listPending (listed ++ t.subtrees.toArray) pending := by
  -- The induction is on the tree. An operator is put back behind its operands, and the hypothesis
  -- lists these one after the other.
  induction t generalizing listed pending with
  | var v | literal =>
    rw [listPending, subtrees, Array.push_eq_append]
    intro op l r h
    cases h
  | binary op l r ihl ihr =>
    rw [listPending, ihl, ihr, listPending, subtrees]
    · rw [Array.push_eq_append, Array.append_assoc, Array.append_assoc]
      simp
    · intro op l r _ h
      cases h

/-- The nodes are listed in post-order, which is the order of the subtrees. -/
theorem toList_nodes (t : Tree) : t.nodes.toList = t.subtrees := by
  rw [nodes, listPending_cons, listPending]
  simp

end Tree

/-! ### The stack -/

namespace Walk

variable {α : Type} (w : Walk α)

/-- What a walk gives, by recursion on the tree: an operator's operands are those of its parts, the
left one first. -/
def fold : Tree → Except Fault α
  | .var v => pure (w.variableOperand v)
  | .literal value => pure (w.literalOperand value)
  | .binary op l r => do
    let left ← fold l
    let right ← fold r
    w.result op l r left right

/-- The nodes of a tree put one operand on the stack and leave what is below, or stop the walk. So
an operator finds its own two operands on top. -/
theorem foldlM_subtrees (t : Tree) (stack : List α) :
    t.subtrees.foldlM w.step stack = w.fold t >>= fun operand => .ok (operand :: stack) := by
  -- The induction is on the tree, for any stack, as the right operand is put on top of the left
  -- one.
  induction t generalizing stack with
  | var v => rfl
  | literal value => rfl
  | binary op l r ihl ihr =>
    rw [Tree.subtrees, List.foldlM_append, List.foldlM_append, ihl, fold]
    cases w.fold l with
    | error e => rfl
    | ok left =>
      simp only [Except.ok_bind, ihr]
      cases w.fold r with
      | error e => rfl
      | ok right =>
        -- The two operands on top are those of the parts, and `stack` is below them.
        simp only [Except.ok_bind, List.foldlM_cons, List.foldlM_nil, step, Except.pure_eq_ok]
        cases w.result op l r left right with
        | error e => rfl
        | ok operand => rfl

/-- A walk never lacks an operand: it gives what the recursion on the tree gives. It ends with one
operand, which is that of the root. -/
theorem run_eq_fold (t : Tree) : w.run t = w.fold t := by
  rw [run, ← Array.foldlM_toList, Tree.toList_nodes, foldlM_subtrees]
  cases w.fold t with
  | error e => rfl
  | ok operand => rfl

/-! ### Equations -/

/-- A walk gives a variable what it gives its node. -/
theorem run_var (v : Variable) : w.run (.var v) = .ok (w.variableOperand v) :=
  w.run_eq_fold _

/-- A walk gives a number what it gives its node. -/
theorem run_literal (value : Float) : w.run (.literal value) = .ok (w.literalOperand value) :=
  w.run_eq_fold _

/-- A walk gives an operation what it makes of the results for its operands. The first fault is that
of the left operand, if there is one. -/
theorem run_binary (op : Operator) (l r : Tree) :
    w.run (.binary op l r) =
      w.run l >>= fun left => w.run r >>= fun right => w.result op l r left right := by
  rw [run_eq_fold, run_eq_fold, run_eq_fold, fold]

end Walk

end UnitPlane
