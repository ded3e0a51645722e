import UnitPlane.Proofs.Formula.Grammar
import UnitPlane.Proofs.Formula.Words

/-!
# `UnitPlane.Proofs.Formula.Rereading`: the tree that a written tree denotes

The words of a written tree derive `Tree.reread`, which is the tree itself but for two things. A
product with minus one is written as a sign, and a sign in front of a number is part of the number.
And the negative zero as the base of a power is written without brackets, so that its sign is taken
to stand in front of the whole power.

Each context of the printer asks for the strength of one kind of expression, and
`Tree.derives_words` says that what is written there is of that kind.
-/

set_option autoImplicit false

namespace UnitPlane

open Double

namespace Tree

/-- The tree that is read from the text of a tree. A product with minus one is read as a sign, and
the sign of a base that is the negative zero as one in front of the power. -/
def reread : Tree → Tree
  | var v => var v
  | literal value => literal value
  | binary op l r =>
    if op = .mul ∧ l.isMinusOne = true then r.reread.negated
    else if op = .pow ∧ l = literal (-0) then (binary .pow (literal 0) r.reread).negated
    else binary op l.reread r.reread

end Tree

/-! ### Brackets -/

/-- What is written in brackets has a bracket more on either side among its words, and what needs no
brackets has only its own words. -/
theorem words_bracket (strength context : Nat) (ps : List Piece) :
    (bracket strength context ps).flatMap Piece.words =
      if strength < context then .openBracket :: (ps.flatMap Piece.words ++ [.closeBracket])
      else ps.flatMap Piece.words := by
  by_cases h : strength < context
  · rw [bracket_of_lt h, if_pos h]
    simp [Piece.words, Symbol.words]
  · rw [bracket_of_le (by omega), if_neg h]

/-- Brackets make up for the strength that an expression lacks. If it has the strength that is asked
for, it has to be of that kind itself. -/
theorem Derives.bracket {k' : Phrase} {ps : List Piece} {t : Tree}
    (h : Derives k' (ps.flatMap Piece.words) t) {strength : Nat} {k : Phrase}
    (hk : k.strength ≤ strength → k.strength ≤ k'.strength) :
    Derives k ((UnitPlane.bracket strength k.strength ps).flatMap Piece.words) t := by
  rw [words_bracket]
  by_cases hlt : strength < k.strength
  · rw [if_pos hlt]
    exact h.toExpr.brackets.weaken (by cases k <;> decide)
  · rw [if_neg hlt]
    exact h.weaken (hk (by omega))

namespace Tree

/-- The kind of expression that a left operand is read as. Operators of one strength group from the
left, so it is the kind that the operator makes; a power takes a primary. -/
def leftPhrase : Operator → Phrase
  | .add | .sub => .expr
  | .mul | .div => .term
  | .pow => .primary

/-- The kind of expression that a right operand is read as. It binds more than what the operator
makes, except for an exponent, which may be a power or signed. -/
def rightPhrase : Operator → Phrase
  | .add | .sub => .term
  | .mul | .div | .pow => .unary

/-- The kind of expression that an operator makes of its two operands. -/
def resultPhrase : Operator → Phrase
  | .add | .sub => .expr
  | .mul | .div => .term
  | .pow => .power

/-- The gaps around an operator are no words. So only its symbol is left. -/
theorem words_operator (op : Operator) : op.pieces.flatMap Piece.words = [op.toSymbol] := by
  cases op <;> rfl

/-- Two operands and the operator between them make an expression, of the kind that belongs to the
operator. -/
theorem derives_binary {us vs : List Symbol} {l r : Tree} (op : Operator)
    (hl : Derives (leftPhrase op) us l) (hr : Derives (rightPhrase op) vs r) :
    Derives (resultPhrase op) (us ++ op.pieces.flatMap Piece.words ++ vs) (.binary op l r) := by
  rw [words_operator, List.append_assoc, List.singleton_append]
  cases op with
  | add => exact hl.sum rfl hr
  | sub => exact hl.sum rfl hr
  | mul => exact hl.product rfl hr
  | div => exact hl.product rfl hr
  | pow => exact hl.pow hr

/-- A number without a sign is written as a numeral, which is a primary. -/
theorem derives_number {v : Float} (hv : Unsigned v) :
    Derives .primary ([Piece.symbol (.number v)].flatMap Piece.words) (.literal v) := by
  rw [List.flatMap_singleton, Piece.words, words_number hv]
  exact .number v

/-- The negative zero is written as a negation, of the numeral zero. It is read as the negative zero
again, but not as a primary. -/
theorem derives_neg_zero :
    Derives .unary ([Piece.symbol (.number (-0))].flatMap Piece.words) (.literal (-0)) := by
  rw [List.flatMap_singleton, Piece.words, Symbol.words, if_pos rfl]
  exact (Derives.number 0).toUnary (by decide) |>.minus

/-- The sign of a base that is the negative zero stands in front of the whole power. The base of the
power that is read is zero, and the power is negated. -/
theorem derives_neg_zero_pow {r r' : Tree} (hr : Derives .unary (r.words Strength.negation) r') :
    Derives .unary (((literal (-0)).pieces (Operator.leftStrength .pow) ++ Operator.pieces .pow ++
      r.pieces (Operator.rightStrength .pow)).flatMap Piece.words)
      (binary .pow (literal 0) r').negated := by
  -- The negative zero is not below zero, so it is written as a number, with no brackets around it.
  have hsign : ¬ (-0 : Float) < 0 := by
    rw [lt_zero_iff, parts_neg_zero]
    simp
  have hwords : ((literal (-0)).pieces (Operator.leftStrength .pow) ++ Operator.pieces .pow ++
      r.pieces (Operator.rightStrength .pow)).flatMap Piece.words
      = .minus :: ([.number 0] ++ .doubleStar :: r.words Strength.negation) := by
    rw [pieces, if_neg hsign]
    simp only [List.flatMap_append, List.flatMap_singleton, Piece.words, Symbol.words,
      Operator.pieces, Operator.toSymbol, if_true]
    rfl
  rw [hwords]
  exact (((Derives.number 0).pow hr).unsigned).minus

/-- The printer asks a left operand for the strength of the kind that it is read as. -/
theorem strength_leftPhrase (op : Operator) : (leftPhrase op).strength = op.leftStrength := by
  cases op <;> rfl

/-- The printer asks a right operand for the strength of the kind that it is read as. -/
theorem strength_rightPhrase (op : Operator) : (rightPhrase op).strength = op.rightStrength := by
  cases op <;> rfl

/-- An operator has the strength of the kind of expression that it makes. -/
theorem strength_resultPhrase (op : Operator) : (resultPhrase op).strength = op.strength := by
  cases op <;> rfl

/-- Wherever a number is written, its words denote it. A number below zero is written as the
negation of its opposite, and the negation is taken into the number again. The negative zero is not
below zero, so it is written without brackets, and its words are no base of a power. -/
theorem derives_words_literal {value : Float} (hfinite : value.isFinite = true) {k : Phrase}
    (hk : k ≠ .power) (hbase : k = .primary → value ≠ -0) :
    Derives k ((literal value).words k.strength) (literal value) := by
  unfold words
  by_cases hv : value < 0
  · rw [pieces, if_pos hv]
    have hneg := ((derives_number (unsigned_neg_of_lt_zero hfinite hv)).toUnary (by decide)).minus
    rw [negated, Double.neg_neg] at hneg
    exact hneg.bracket id
  · rw [pieces, if_neg hv]
    rcases unsigned_or_eq_neg_zero hfinite hv with hunsigned | rfl
    · exact (derives_number hunsigned).weaken (by cases k <;> decide)
    · refine derives_neg_zero.weaken ?_
      cases k with
      | expr | term | unary => decide
      | power => exact absurd rfl hk
      | primary => exact absurd rfl (hbase rfl)

/-- Wherever a tree is written, its words denote the tree reread. A bare negative zero is not
written as the base of a power. There is no context of the printer for a power, which is why no tree
is written as one. -/
theorem derives_words {t : Tree} (ht : t.Finite) {k : Phrase} (hk : k ≠ .power)
    (hbase : k = .primary → t ≠ literal (-0)) : Derives k (t.words k.strength) t.reread := by
  -- The induction is on the tree, for every context. In each case the kind of what is written is
  -- found, and brackets give it the kind that the context asks for.
  induction t generalizing k with
  | var v => exact (Derives.var v).weaken (by cases k <;> decide)
  | literal value =>
    exact derives_words_literal ht hk fun hprimary hzero => hbase hprimary (congrArg literal hzero)
  | binary op l r ihl ihr =>
    unfold words
    -- The printer looks for a product with minus one first, and then for a base that is the
    -- negative zero.
    by_cases hminus : op = .mul ∧ l.isMinusOne = true
    · rw [pieces, if_pos hminus, reread, if_pos hminus]
      have hr := ihr ht.2 (k := .unary) (by decide) (fun h => by cases h)
      exact hr.minus.bracket id
    · rw [pieces, if_neg hminus, reread, if_neg hminus]
      by_cases hzero : op = .pow ∧ l = literal (-0)
      · obtain ⟨rfl, rfl⟩ := hzero
        rw [if_pos ⟨rfl, rfl⟩]
        -- What is read is a negation, not a power, so it must not stand where a base is asked for.
        refine (derives_neg_zero_pow
          (ihr ht.2 (k := .unary) (by decide) (fun h => by cases h))).bracket ?_
        intro hstrength
        cases k with
        | expr | term | unary => decide
        | power => exact absurd rfl hk
        | primary => exact absurd hstrength (by decide)
      · rw [if_neg hzero]
        have hl := ihl ht.1 (k := leftPhrase op) (by cases op <;> decide) (by
          intro hprimary hl
          cases op with
          | pow => exact hzero ⟨rfl, hl⟩
          | add | sub | mul | div => cases hprimary)
        have hr := ihr ht.2 (k := rightPhrase op) (by cases op <;> decide) (by
          intro hprimary
          cases op <;> cases hprimary)
        -- The printer's contexts are the strengths of the phrases that the operands are read as.
        have hboth := derives_binary op hl hr
        unfold words at hboth
        rw [← List.flatMap_append, ← List.flatMap_append, strength_leftPhrase,
          strength_rightPhrase] at hboth
        rw [← strength_resultPhrase]
        exact hboth.bracket id

/-- A whole formula is written like a sum, because no tree binds less than a sum does. -/
theorem pieces_zero (t : Tree) : t.pieces 0 = t.pieces Strength.sum := by
  have hbracket (strength : Nat) (hs : Strength.sum ≤ strength) (ps : List Piece) :
      bracket strength 0 ps = bracket strength Strength.sum ps := by
    rw [bracket_of_le (Nat.zero_le _), bracket_of_le hs]
  cases t with
  | var v => rfl
  | literal value => rw [pieces, pieces, hbracket _ (by decide)]
  | binary op l r =>
      rw [pieces, pieces, hbracket _ (by decide), hbracket _ (by cases op <;> decide)]

/-- The words of the whole text denote the tree reread, which `Tree.parse_text_of_finite` reads from
it. -/
theorem derives_words_zero {t : Tree} (ht : t.Finite) : Derives .expr (t.words 0) t.reread := by
  rw [words, pieces_zero]
  exact derives_words ht (k := .expr) nofun nofun

end Tree

end UnitPlane
