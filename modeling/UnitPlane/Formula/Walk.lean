import UnitPlane.Fault
import UnitPlane.Formula.Tree

/-!
# `UnitPlane.Formula.Walk`: walks over the nodes of a formula

A formula is evaluated by a walk over its nodes in post-order, with a stack of operands. A leaf puts
its operand on the stack, and an operator takes the two operands on top and puts its result in their
place. `Walk` says what the operands are, `Walk.step` is the walk's step at one node, and `Walk.run`
is the whole walk. An operator that finds less than two operands is a fault, and so is a walk that
ends without one.

The nodes are listed by `Tree.nodes`, with a stack of nodes that are still to be listed.
-/

set_option autoImplicit false

namespace UnitPlane

namespace Tree

/-- Every tree has a node. -/
theorem size_pos (t : Tree) : 0 < t.size := by
  cases t with
  | var | literal => exact Nat.one_pos
  | binary op l r => exact Nat.succ_pos _

/-- How many steps the listing of a pending node takes. -/
def pendingSteps : Tree × Bool → Nat
  | (t, false) => 2 * t.size
  | (_, true) => 1

/-- Every pending node takes a step, so there are fewer to take after each. -/
theorem pendingSteps_pos (p : Tree × Bool) : 0 < pendingSteps p := by
  obtain ⟨t, marked⟩ := p
  have := t.size_pos
  cases marked with
  | false => exact Nat.mul_pos (by decide) this
  | true => exact Nat.one_pos

/-- Lists the pending nodes after those already listed. An operator whose operands are not listed
yet is put back below them with a mark, and is listed when it comes up again. -/
def listPending (listed : Array Tree) : List (Tree × Bool) → Array Tree
  | [] => listed
  | (binary op l r, false) :: pending =>
    listPending listed ((l, false) :: (r, false) :: (binary op l r, true) :: pending)
  | (t, _) :: pending => listPending (listed.push t) pending
termination_by pending => (pending.map pendingSteps).foldr (· + ·) 0
decreasing_by
  · simp only [List.map_cons, List.foldr_cons, pendingSteps, size]
    omega
  · rw [List.map_cons, List.foldr_cons]
    exact Nat.lt_add_of_pos_left (pendingSteps_pos _)

/-- The nodes in post-order, each with the tree below it. -/
def nodes (t : Tree) : Array Tree := listPending #[] [(t, false)]

end Tree

/-- What a walk does at each kind of node. -/
structure Walk (α : Type) where
  /-- The operand of a variable. -/
  variableOperand : Variable → α
  /-- The operand of a number. -/
  literalOperand : Float → α
  /-- The result of an operator between two trees, from the operands that they gave. -/
  result : Operator → Tree → Tree → α → α → Except Fault α
  /-- The fault of a walk that ends without an operand. -/
  noOperand : Fault

/-- The fault of an operator without operands. -/
def Fault.malformedTree : Fault := badSyntax 0 .malformedTree

namespace Walk

variable {α : Type}

/-- What becomes of the stack of operands at a node. The right operand is on top. -/
def step (w : Walk α) (stack : List α) : Tree → Except Fault (List α)
  | .var v => pure (w.variableOperand v :: stack)
  | .literal value => pure (w.literalOperand value :: stack)
  | .binary op l r =>
    match stack with
    | right :: left :: below => do
      let operand ← w.result op l r left right
      pure (operand :: below)
    | _ => throw .malformedTree

/-- The operand that is on top when all nodes are done. -/
def run (w : Walk α) (t : Tree) : Except Fault α := do
  let stack ← t.nodes.foldlM w.step []
  match stack with
  | operand :: _ => pure operand
  | [] => throw w.noOperand

end Walk

end UnitPlane
