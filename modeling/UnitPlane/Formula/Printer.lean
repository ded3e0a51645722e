import UnitPlane.Formula.Token
import UnitPlane.Formula.Tree

/-!
# `UnitPlane.Formula.Printer`: text from trees

A tree is written with brackets only where its context asks for an operand of greater strength than
the tree has. Sums bind least, then products, negations, powers, and last numbers and variables. A
tree is first written as `pieces`, the symbols with the gaps around `+` and `-`, so that the symbols
can be told apart from their spelling.
-/

set_option autoImplicit false

namespace UnitPlane

/-! ### Strengths -/

namespace Strength

/-- A sum or difference. -/
def sum : Nat := 1
/-- A product or quotient. -/
def product : Nat := 2
/-- A negation. -/
def negation : Nat := 3
/-- A power. -/
def power : Nat := 4
/-- A number or variable. -/
def atom : Nat := 5

end Strength

namespace Operator

/-- How strongly an operator binds its operands. -/
def strength : Operator → Nat
  | add => Strength.sum
  | sub => Strength.sum
  | mul => Strength.product
  | div => Strength.product
  | pow => Strength.power

/-- The strength that a left operand has to have. Powers group from the right, all else from the
left. -/
def leftStrength : Operator → Nat
  | pow => Strength.atom
  | op => op.strength

/-- The strength that a right operand has to have. A factor and an exponent may be negations. -/
def rightStrength : Operator → Nat
  | add => Strength.product
  | sub => Strength.product
  | _ => Strength.negation

/-- The symbol of an operator as a word. -/
def toSymbol : Operator → Symbol
  | add => .plus
  | sub => .minus
  | mul => .star
  | div => .slash
  | pow => .doubleStar

end Operator

/-! ### Pieces -/

/-- A part of a written formula. -/
inductive Piece where
  | symbol (s : Symbol)
  | gap
deriving DecidableEq

/-- How a piece is written. -/
def Piece.spelling : Piece → String
  | symbol s => s.spelling
  | gap => " "

/-- An operator with the gaps around it. -/
def Operator.pieces (op : Operator) : List Piece :=
  match op with
  | add => [.gap, .symbol .plus, .gap]
  | sub => [.gap, .symbol .minus, .gap]
  | op => [.symbol op.toSymbol]

/-- Pieces in brackets, if the context asks for more strength than they have. -/
def bracket (strength context : Nat) (pieces : List Piece) : List Piece :=
  if strength < context then .symbol .openBracket :: (pieces ++ [.symbol .closeBracket]) else pieces

namespace Tree

/-- Whether the tree is the number minus one, which as a left factor is written as a sign. -/
def isMinusOne : Tree → Bool
  | literal value => value == -1
  | _ => false

/-- The pieces of a tree where the context asks for the given strength. -/
def pieces : Tree → (context : Nat) → List Piece
  | var v, _ => [.symbol (.name v.name)]
  | literal value, context =>
    if value < 0 then
      bracket Strength.negation context [.symbol .minus, .symbol (.number (-value))]
    else [.symbol (.number value)]
  | binary op l r, context =>
    if op = .mul ∧ l.isMinusOne = true then
      bracket Strength.negation context (.symbol .minus :: r.pieces Strength.negation)
    else
      bracket op.strength context (l.pieces op.leftStrength ++ op.pieces ++
        r.pieces op.rightStrength)

/-- The text of a tree. -/
def text (t : Tree) : String := String.join ((t.pieces 0).map Piece.spelling)

end Tree

/-- The text of a formula, written anew. -/
def Formula.text (f : Formula) : String := f.tree.text

end UnitPlane
