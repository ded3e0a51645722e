import UnitPlane.Formula.Arena
import UnitPlane.Formula.Walk

/-!
# `UnitPlane.Formula.Arena.Walk`: walks over the nodes of an arena

The numbers of the nodes below a node are listed in post-order, with a stack of numbers that are
still to be listed. The other walks go through this list: one keeps a stack of operands, one keeps
the depths of the nodes it has passed, and one looks for a variable. Each of them gives nothing
where a number stands for no node. Nothing here says that the list ends: an arena in which a node
were its own descendant would be listed for ever.
-/

set_option autoImplicit false

namespace UnitPlane

namespace Arena

/-- The numbers that are listed, and those that are still to be listed, with a mark on an operator
whose operands have been put above it. -/
abbrev Listing := Array Nat × List (Nat × Bool)

/-- Takes the pending number on top. An operator without a mark is put back with one, below its
operands, and any other node is listed. Nothing is done where a number stands for no node. -/
def listStep (nodes : Array Node) : Listing → Option (Listing ⊕ Array Nat)
  | (listed, []) => some (.inr listed)
  | (listed, (id, marked) :: pending) =>
    match nodes[id]? with
    | none => none
    | some (.binary _ left right) =>
      if marked then some (.inl (listed.push id, pending))
      else some (.inl (listed, (left, false) :: (right, false) :: (id, true) :: pending))
    | some _ => some (.inl (listed.push id, pending))

/-- Lists the pending numbers after those already listed, until there are none. -/
def listPending (nodes : Array Node) (listed : Array Nat) (pending : List (Nat × Bool)) :
    Option (Array Nat) :=
  repeatM (listStep nodes) (listed, pending)

/-- The numbers of the nodes below a node, itself included, in post-order. -/
def postorderFrom? (a : Arena) (id : Nat) : Option (Array Nat) :=
  listPending a.nodes #[] [(id, false)]

/-- The numbers of the nodes, in post-order. -/
def postorder? (a : Arena) : Option (Array Nat) := a.postorderFrom? a.root

/-- The depth of a node, from the depths of nodes before it. -/
def nodeDepth? (nodes : Array Node) (depths : Array Nat) (id : Nat) : Option Nat :=
  match nodes[id]? with
  | none => none
  | some (.binary _ left right) => do
    let l ← depths[left]?
    let r ← depths[right]?
    pure (max l r + 1)
  | some _ => some 1

/-- Keeps the depth of one more node. -/
def recordDepth? (nodes : Array Node) (depths : Array Nat) (id : Nat) : Option (Array Nat) := do
  let depth ← nodeDepth? nodes depths id
  pure (depths.setIfInBounds id depth)

/-- The depth that is kept of the root, when the depths of all nodes are kept one after another. -/
def walkedDepth? (a : Arena) : Option Nat := do
  let ids ← a.postorder?
  let depths ← ids.foldlM (recordDepth? a.nodes) (Array.replicate a.nodes.size 0)
  depths[a.root]?

/-- Whether the node of a given number is a variable. -/
def isVariable (nodes : Array Node) (id : Nat) : Bool :=
  match nodes[id]? with
  | some (.var _) => true
  | _ => false

/-- Whether there is a variable below a node. -/
def containsVariable? (a : Arena) (id : Nat) : Option Bool :=
  (a.postorderFrom? id).map fun ids => ids.any (isVariable a.nodes)

end Arena

namespace Walk

variable {α : Type}

/-- The result of an operator with the given operands, from what they gave. -/
def resultAt (w : Walk α) (nodes : Array Node) (op : Operator) (left right : Nat) (l r : α) :
    Except Fault α :=
  match Arena.treeFrom? nodes left, Arena.treeFrom? nodes right with
  | some leftTree, some rightTree => w.result op leftTree rightTree l r
  | _, _ => throw .malformedTree

/-- What becomes of the stack of operands at the node of a given number. The right operand is on
top. -/
def stepAt (w : Walk α) (nodes : Array Node) (stack : List α) (id : Nat) : Except Fault (List α) :=
  match nodes[id]? with
  | none => throw .malformedTree
  | some (.var v) => pure (w.variableOperand v :: stack)
  | some (.literal value) => pure (w.literalOperand value :: stack)
  | some (.binary op left right) =>
    match stack with
    | r :: l :: below => do
      let operand ← w.resultAt nodes op left right l r
      pure (operand :: below)
    | _ => throw .malformedTree

/-- The operand that is on top when all nodes of an arena are done. -/
def runOver (w : Walk α) (a : Arena) : Option (Except Fault α) :=
  a.postorder?.map fun ids => do
    let stack ← ids.foldlM (w.stepAt a.nodes) []
    match stack with
    | operand :: _ => pure operand
    | [] => throw w.noOperand

end Walk

end UnitPlane
