import UnitPlane.Formula.Parser
import UnitPlane.Formula.Printer

/-!
# `UnitPlane.Proofs.Formula.Grammar`: the grammar of formulas

`Derives k ws t` says that the symbols `ws` are an expression of the kind `k` and denote the tree
`t`, by the rules

```text
expr    := expr ('+' | '-') term | term
term    := term ('*' | '/') unary | unary
unary   := ('-' | '+') unary | power
power   := primary '**' unary | primary
primary := NUMBER | 'x' | 'y' | '(' expr ')'
```

Sums and products are written with the recursion on the left, which is how they group. The grammar
knows nothing of limits, of positions or of how a text is read.
-/

set_option autoImplicit false

namespace UnitPlane

/-- The kinds of expressions. -/
inductive Phrase where
  | expr
  | term
  | unary
  | power
  | primary
deriving DecidableEq

/-- How strongly an expression of a kind binds, from sums to brackets. An expression may stand
without brackets where no stronger one is asked for. -/
def Phrase.strength : Phrase → Nat
  | expr => Strength.sum
  | term => Strength.product
  | unary => Strength.negation
  | power => Strength.power
  | primary => Strength.atom

/-- The tree that a minus in front of a tree denotes: a number takes the sign itself. -/
def Tree.negated : Tree → Tree
  | .literal value => .literal (-value)
  | t => .binary .mul (.literal (-1)) t

/-- The symbols are an expression of the given kind, and denote the tree. -/
inductive Derives : Phrase → List Symbol → Tree → Prop where
  | number (value : Float) : Derives .primary [.number value] (.literal value)
  | var (v : Variable) : Derives .primary [.name v.name] (.var v)
  | brackets {ws : List Symbol} {t : Tree} (h : Derives .expr ws t) :
      Derives .primary (.openBracket :: (ws ++ [.closeBracket])) t
  | base {ws : List Symbol} {t : Tree} (h : Derives .primary ws t) : Derives .power ws t
  | pow {us vs : List Symbol} {b e : Tree} (hb : Derives .primary us b) (he : Derives .unary vs e) :
      Derives .power (us ++ .doubleStar :: vs) (.binary .pow b e)
  | unsigned {ws : List Symbol} {t : Tree} (h : Derives .power ws t) : Derives .unary ws t
  | minus {ws : List Symbol} {t : Tree} (h : Derives .unary ws t) :
      Derives .unary (.minus :: ws) t.negated
  | plus {ws : List Symbol} {t : Tree} (h : Derives .unary ws t) : Derives .unary (.plus :: ws) t
  | factor {ws : List Symbol} {t : Tree} (h : Derives .unary ws t) : Derives .term ws t
  | product {us vs : List Symbol} {l r : Tree} {s : Symbol} {op : Operator}
      (hop : Setting.productOperator? s = some op) (hl : Derives .term us l)
      (hr : Derives .unary vs r) : Derives .term (us ++ s :: vs) (.binary op l r)
  | summand {ws : List Symbol} {t : Tree} (h : Derives .term ws t) : Derives .expr ws t
  | sum {us vs : List Symbol} {l r : Tree} {s : Symbol} {op : Operator}
      (hop : Setting.sumOperator? s = some op) (hl : Derives .expr us l) (hr : Derives .term vs r) :
      Derives .expr (us ++ s :: vs) (.binary op l r)

namespace Tree

/-- A negation is not smaller than what it negates, since a number stays one node and anything else
gets two more. -/
theorem size_le_size_negated (t : Tree) : t.size ≤ t.negated.size := by
  cases t <;> simp only [negated, size] <;> omega

end Tree

namespace Derives

variable {k : Phrase} {ws : List Symbol} {t : Tree}

/-- An expression has at least one symbol, so that each sign, bracket and operator makes it
longer. -/
theorem length_pos (h : Derives k ws t) : 0 < ws.length := by
  induction h with
  | number | var | brackets | minus | plus => exact Nat.succ_pos _
  | base _ ih | unsigned _ ih | factor _ ih | summand _ ih => exact ih
  | pow | product | sum =>
    rw [List.length_append, List.length_cons]
    omega

/-- What binds at least as strongly as a signed operand may stand for one. -/
theorem toUnary (h : Derives k ws t) (hk : Strength.negation ≤ k.strength) :
    Derives .unary ws t := by
  cases k with
  | expr | term => exact absurd hk (by decide)
  | unary => exact h
  | power => exact .unsigned h
  | primary => exact .unsigned (.base h)

/-- What binds at least as strongly as a product may stand for one. -/
theorem toTerm (h : Derives k ws t) (hk : Strength.product ≤ k.strength) : Derives .term ws t := by
  cases k with
  | expr => exact absurd hk (by decide)
  | term => exact h
  | unary | power | primary => exact .factor (h.toUnary (by decide))

/-- Every expression may stand for a whole one. -/
theorem toExpr (h : Derives k ws t) : Derives .expr ws t := by
  cases k with
  | expr => exact h
  | term | unary | power | primary => exact .summand (h.toTerm (by decide))

/-- Whatever binds strongly enough is also an expression of every weaker kind, with the same symbols
and the same tree. -/
theorem weaken (h : Derives k ws t) {k' : Phrase} (hk : k'.strength ≤ k.strength) :
    Derives k' ws t := by
  -- Only the two strongest kinds are not reached from every stronger one by a rule.
  cases k' with
  | expr => exact h.toExpr
  | term => exact h.toTerm hk
  | unary => exact h.toUnary hk
  | power =>
    cases k with
    | power => exact h
    | primary => exact .base h
    | expr | term | unary => exact absurd hk (by decide)
  | primary =>
    cases k with
    | primary => exact h
    | expr | term | unary | power => exact absurd hk (by decide)

end Derives

end UnitPlane
