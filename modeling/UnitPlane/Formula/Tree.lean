import UnitPlane.Power

/-!
# `UnitPlane.Formula.Tree`: formulas in two variables

A formula is a tree of the variables `x` and `y`, numbers, and five binary operators. A negated
operand is a number or a product with minus one, so there is no operator of one operand. The nodes
of a tree are counted and listed in post-order: the left operand's nodes, the right operand's, then
the operator.
-/

set_option autoImplicit false

namespace UnitPlane

/-- The variables of a formula. -/
inductive Variable where
  | x
  | y
deriving DecidableEq

/-- The name of a variable. -/
def Variable.name : Variable → String
  | x => "x"
  | y => "y"

/-- The variable of a given name. -/
def Variable.ofName? (name : String) : Option Variable :=
  if name = "x" then some .x else if name = "y" then some .y else none

/-- The operators of a formula. -/
inductive Operator where
  | add
  | sub
  | mul
  | div
  | pow
deriving DecidableEq

/-- The symbol of an operator. -/
def Operator.symbol : Operator → String
  | add => "+"
  | sub => "-"
  | mul => "*"
  | div => "/"
  | pow => "**"

/-- The operator of a given symbol. -/
def Operator.ofSymbol? (s : String) : Option Operator :=
  [add, sub, mul, div, pow].find? fun op => op.symbol = s

/-- The value of an operator on numbers, as the floating point unit gives it: a quotient by zero is
an infinity or no number. -/
def Operator.apply : Operator → Float → Float → Float
  | add, l, r => l + r
  | sub, l, r => l - r
  | mul, l, r => l * r
  | div, l, r => l / r
  | pow, l, r => realPower l r

/-- An expression in `x` and `y`. -/
inductive Tree where
  | var (v : Variable)
  | literal (value : Float)
  | binary (op : Operator) (left right : Tree)
deriving DecidableEq

/-- The label of one node of a tree. -/
inductive Label where
  | var (v : Variable)
  | literal (value : Float)
  | operator (op : Operator)
deriving DecidableEq

namespace Tree

/-- The number of nodes. -/
def size : Tree → Nat
  | var _ => 1
  | literal _ => 1
  | binary _ l r => l.size + r.size + 1

/-- The number of nodes on the longest path from the root to a leaf. -/
def depth : Tree → Nat
  | var _ => 1
  | literal _ => 1
  | binary _ l r => max l.depth r.depth + 1

/-- Whether a variable occurs. -/
def hasVariable : Tree → Bool
  | var _ => true
  | literal _ => false
  | binary _ l r => l.hasVariable || r.hasVariable

/-- The label of the root. -/
def label : Tree → Label
  | var v => .var v
  | literal value => .literal value
  | binary op _ _ => .operator op

/-- The subtree of every node, in post-order. -/
def subtrees : Tree → List Tree
  | var v => [var v]
  | literal value => [literal value]
  | binary op l r => l.subtrees ++ r.subtrees ++ [binary op l r]

/-- The labels of the nodes, in post-order. -/
def postorder : Tree → List Label
  | var v => [.var v]
  | literal value => [.literal value]
  | binary op l r => l.postorder ++ r.postorder ++ [.operator op]

end Tree

/-- An expression together with the text it was read from. -/
structure Formula where
  tree : Tree
  source : String
deriving DecidableEq

end UnitPlane
