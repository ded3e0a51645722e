import UnitPlane.Proofs.Formula.Arena.Reading
import UnitPlane.Proofs.Formula.Grammar
import UnitPlane.Proofs.Formula.Reading

/-!
# `UnitPlane.Proofs.Formula.Readers`: induction on readers

Formulas are read by readers that are made from each other: a reader of primaries from one of
expressions, a reader of powers from those of their parts, and so on, with one more level of nesting
each time round. The readers of trees and those of arenas are made by the same rules, and what is
proved of a reader, or of two readers that are compared, is nearly always proved rule by rule.

`ReaderRules` lists the rules for readers of any type, and `ReaderRules.Relates` says that a
relation between two kinds of readers is kept by each of them. From this, the relation holds of the
readers that the rules make:

* `ReaderRules.Relates.unary` and `ReaderRules.Relates.expr`: under any number of levels.
* `ReaderRules.Relates.unary_of_le`: also where one of the readers has more levels than the other,
  if a reader without any level is related to all others.

`ReaderRules.Keeps` is the same for a property of one reader. Within one rule, a chain of operands
is as long as the words allow. Each operand leaves fewer words than there were, and

* `Reader.chain_induction` and `Arena.Reader.chain_induction` go through such a chain operand by
  operand.
-/

set_option autoImplicit false

namespace UnitPlane

/-! ### Rules -/

/-- How the readers of a formula are made from each other. The type of a reader is left open, so
that the rules say nothing of what a reader reads from and what it returns. -/
structure ReaderRules (ρ : Type) where
  /-- The reader without a level of nesting left. -/
  exhausted : ρ
  /-- Numbers, variables, and what `expr` reads, in brackets. -/
  primary : (expr : ρ) → ρ
  /-- What `primary` reads, perhaps raised to what `unary` reads. -/
  power : (primary unary : ρ) → ρ
  /-- What `operand` reads, once or more, with operators between. -/
  chain : (operator? : Symbol → Option Operator) → (operand : ρ) → ρ
  /-- What `inner` reads, after a sign, or else what `unsigned` reads. -/
  signed : (inner unsigned : ρ) → ρ

namespace ReaderRules

variable {ρ ρ' : Type} {A : ReaderRules ρ} {B : ReaderRules ρ'}

/-- Products of what `unary` reads. -/
def term (A : ReaderRules ρ) (unary : ρ) : ρ := A.chain Setting.productOperator? unary

/-- Sums of products of what `unary` reads. -/
def sumOf (A : ReaderRules ρ) (unary : ρ) : ρ := A.chain Setting.sumOperator? (A.term unary)

/-- Powers with signs in front, where `levels` more levels of nesting are allowed. -/
def unary (A : ReaderRules ρ) : (levels : Nat) → ρ
  | 0 => A.exhausted
  | levels + 1 =>
    A.signed (A.unary levels) (A.power (A.primary (A.sumOf (A.unary levels))) (A.unary levels))

/-- Expressions whose operands have the given levels of nesting below them. -/
def expr (A : ReaderRules ρ) (levels : Nat) : ρ := A.sumOf (A.unary levels)

/-- Each rule keeps the relation `R`: it makes related readers of an expression from related readers
of its parts. -/
structure Relates (A : ReaderRules ρ) (B : ReaderRules ρ') (R : Phrase → ρ → ρ' → Prop) : Prop where
  primary {e : ρ} {e' : ρ'} (h : R .expr e e') : R .primary (A.primary e) (B.primary e')
  power {b u : ρ} {b' u' : ρ'} (hb : R .primary b b') (hu : R .unary u u') :
    R .power (A.power b u) (B.power b' u')
  term {u : ρ} {u' : ρ'} (h : R .unary u u') : R .term (A.term u) (B.term u')
  sum {t : ρ} {t' : ρ'} (h : R .term t t') :
    R .expr (A.chain Setting.sumOperator? t) (B.chain Setting.sumOperator? t')
  signed {u q : ρ} {u' q' : ρ'} (hu : R .unary u u') (hq : R .power q q') :
    R .unary (A.signed u q) (B.signed u' q')

namespace Relates

variable {R : Phrase → ρ → ρ' → Prop} {u : ρ} {u' : ρ'}

/-- Sums are two chains, one of terms in one of summands, so two rules are gone through for them. -/
theorem sumOf (h : A.Relates B R) (hu : R .unary u u') : R .expr (A.sumOf u) (B.sumOf u') :=
  h.sum (h.term hu)

/-- One more level of nesting on both sides: all rules are gone through once, from the expressions
in brackets to the signs in front. -/
theorem succ (h : A.Relates B R) {m n : Nat} (hu : R .unary (A.unary m) (B.unary n)) :
    R .unary (A.unary (m + 1)) (B.unary (n + 1)) :=
  h.signed hu (h.power (h.primary (h.sumOf hu)) hu)

/-- Readers with equally many levels are related if those without any level are. The induction is on
the levels, which every bracket, exponent and sign uses up. -/
theorem unary (h : A.Relates B R) (hzero : R .unary A.exhausted B.exhausted) (levels : Nat) :
    R .unary (A.unary levels) (B.unary levels) := by
  induction levels with
  | zero => exact hzero
  | succ levels ih => exact h.succ ih

/-- A reader is related to those with more levels if a reader without any level is related to all.
This is for relations that a reader that always refuses has to everything. -/
theorem unary_of_le (h : A.Relates B R) (hzero : ∀ u', R .unary A.exhausted u') {m n : Nat}
    (hle : m ≤ n) : R .unary (A.unary m) (B.unary n) := by
  induction m generalizing n with
  | zero => exact hzero _
  | succ m ih =>
    obtain ⟨n, rfl⟩ : ∃ k, n = k + 1 := ⟨n - 1, by omega⟩
    exact h.succ (ih (Nat.le_of_succ_le_succ hle))

/-- Readers of whole expressions are related if those of operands without any level are. -/
theorem expr (h : A.Relates B R) (hzero : R .unary A.exhausted B.exhausted) (levels : Nat) :
    R .expr (A.expr levels) (B.expr levels) :=
  h.sumOf (h.unary hzero levels)

end Relates

/-- Each rule keeps the property `P` of readers. -/
abbrev Keeps (A : ReaderRules ρ) (P : Phrase → ρ → Prop) : Prop :=
  A.Relates A fun k read _ => P k read

end ReaderRules

/-! ### Readers of trees -/

/-- The rules for readers of trees. -/
def Setting.rules (s : Setting) : ReaderRules Reader where
  exhausted _ := throw (.limitExceeded .depth (s.limits.maxDepth + 1) s.limits.maxDepth)
  primary := s.primary
  power := s.power
  chain := s.chain
  signed := s.signed

/-- The reader of signed operands is the one that the rules make, with any number of levels. -/
theorem Setting.rules_unary (s : Setting) (levels : Nat) :
    s.rules.unary levels = s.unary levels := by
  induction levels with
  | zero => rfl
  | succ levels ih =>
    rw [ReaderRules.unary, ih]
    rfl

/-- The reader of whole expressions is the one that the rules make, with as many levels as the limit
on the depth. -/
theorem Setting.rules_expr (s : Setting) : s.rules.expr s.limits.maxDepth = s.expr :=
  congrArg s.sumOf (s.rules_unary s.limits.maxDepth)

/-- What holds at a place if it holds behind the next operand holds at every place, because each
operand leaves fewer words. What has been read so far may be anything. -/
theorem Reader.chain_induction (operand : Reader) {motive : Tree → Place → Prop}
    (step : ∀ left p,
      (∀ w rest right q, p.words = w :: rest →
        Except.plain (operand ⟨rest, p.nodes⟩) = .ok (right, q) →
        ∀ left' nodes, motive left' ⟨q.words, nodes⟩) → motive left p)
    (left : Tree) (p : Place) : motive left p := by
  induction hn : p.words.length using Nat.strongRecOn generalizing left p with
  | ind n ih =>
    refine step left p fun w rest right q hwords hread left' nodes => ih _ ?_ _ _ rfl
    obtain ⟨hshorter, -⟩ := Except.plain_eq_ok.1 hread
    rw [← hn, hwords]
    exact Nat.lt_succ_of_lt hshorter

/-! ### Readers of arenas -/

namespace Arena

/-- The rules for readers of arenas, where `negation` is done at a minus sign. -/
def rulesBy (negation : Negation) (limits : Limits) : ReaderRules Reader where
  exhausted p := throw (p.halt (.limit .depth (limits.maxDepth + 1) limits.maxDepth))
  primary := primary limits
  power := power limits
  chain := chain limits
  signed := signedBy negation

/-- The rules for readers of arenas. -/
def rules (limits : Limits) : ReaderRules Reader := rulesBy (negate limits) limits

/-- The reader of signed operands is the one that the rules make, with any number of levels. -/
theorem rules_unary (limits : Limits) (levels : Nat) :
    (rules limits).unary levels = unary limits levels := by
  induction levels with
  | zero => rfl
  | succ levels ih =>
    rw [ReaderRules.unary, ih]
    rfl

/-- The reader of whole expressions is the one that the rules make, with as many levels as the limit
on the depth. -/
theorem rules_expr (limits : Limits) : (rules limits).expr limits.maxDepth = expr limits :=
  congrArg (sumOf limits) (rules_unary limits limits.maxDepth)

/-- What holds at a site if it holds behind the next operand holds at every site, because each
operand leaves fewer symbols. What has been read so far may be anything. -/
theorem Reader.chain_induction (operand : Reader) {motive : Nat → Site → Prop}
    (step : ∀ left p,
      (∀ symbol rest right q, p.symbols = symbol :: rest →
        Except.plain (operand ⟨rest, p.nodes⟩) = .ok (right, q) →
        ∀ left' nodes, motive left' ⟨q.symbols, nodes⟩) → motive left p)
    (left : Nat) (p : Site) : motive left p := by
  induction hn : p.symbols.length using Nat.strongRecOn generalizing left p with
  | ind n ih =>
    refine step left p fun symbol rest right q hsymbols hread left' nodes => ih _ ?_ _ _ rfl
    obtain ⟨hshorter, -⟩ := Except.plain_eq_ok.1 hread
    rw [← hn, hsymbols]
    exact Nat.lt_succ_of_lt hshorter

end Arena

end UnitPlane
