import UnitPlane.Proofs.Formula.Derivation
import UnitPlane.Proofs.Formula.RoundTrip

/-!
# `UnitPlane.Proofs.Formula.Loosening`: expressions in which brackets were left out

`Loose k t ws` says of the symbols `ws` what becomes of the expression `t` in a context of the kind
`k` when a pair of brackets in it is left out. They may still be an expression of the kind `k`, but
of another tree. Or an operator that had been in the brackets binds less than the context asks for,
and then the symbols fall into two parts, which go to what stands on the left and on the right of
them:

* a product in a place for a `unary`,
* a sum in a place for a `unary` or a `term`.

Each rule of the grammar hands this on from an operand to the whole expression, until some context
is wide enough for the freed operator. The tree is another one there: its root is another operator,
or the same with a larger left operand. There is one exception, a sign in front of a freed product,
which may turn the first factor into minus one and so make a negation of what follows it. What
follows it is no negation of the tree, however, and that is what a product carries along.
-/

set_option autoImplicit false

namespace UnitPlane

open Setting

/-! ### Negations -/

namespace Tree

/-- The tree is a number. -/
def IsLiteral (t : Tree) : Prop := ∃ value, t = literal value

/-- Different trees have different negations: a number is negated to a number, and anything else to
a product. -/
theorem negated_injective : Function.Injective negated := by
  intro t u h
  cases u with
  | literal value =>
    cases t with
    | literal value' =>
      have hvalue : -value' = -value := literal.inj h
      rw [← Double.neg_neg value', hvalue, Double.neg_neg]
    | var | binary => cases h
  | var | binary => exact (negated_eq_binary_iff.1 h).2.2.1

/-- Only numbers are negated to numbers. -/
theorem isLiteral_of_negated {t : Tree} (h : t.negated.IsLiteral) : t.IsLiteral := by
  obtain ⟨value, h⟩ := h
  cases t with
  | literal value' => exact ⟨value', rfl⟩
  | var | binary => cases h

/-- Signs in front of a tree do not make it smaller. -/
theorem size_le_size_iterate_negated (t : Tree) (i : Nat) : t.size ≤ (negated^[i] t).size := by
  induction i with
  | zero => exact Nat.le_refl _
  | succ i ih =>
    rw [Function.iterate_succ_apply']
    exact ih.trans (size_le_size_negated _)

/-- A node is larger than anything that is not larger than its left operand. -/
theorem size_lt_binary_left {t l r : Tree} {op : Operator} (h : t.size ≤ l.size) :
    t.size < (binary op l r).size := by
  rw [size]
  omega

/-- A negation is no node with another operator than that of products. -/
theorem negated_ne_binary {op : Operator} (hop : op ≠ .mul) (t l r : Tree) :
    t.negated ≠ binary op l r := fun h => hop (negated_eq_binary_iff.1 h).1

/-- Signs in front of powers leave the bases as they are, however many there are on either side. -/
theorem eq_of_iterate_negated_pow {b b' e e' : Tree} {i j : Nat}
    (h : negated^[i] (binary .pow b e) = negated^[j] (binary .pow b' e')) : b = b' := by
  -- Signs are taken off on both sides until a power is left on one of them, which is no negation.
  induction i generalizing j with
  | zero =>
    cases j with
    | zero => exact (binary.inj h).2.1
    | succ j =>
      rw [Function.iterate_succ_apply'] at h
      exact absurd h.symm (negated_ne_binary (by decide) _ _ _)
  | succ i ih =>
    rw [Function.iterate_succ_apply'] at h
    cases j with
    | zero => exact absurd h (negated_ne_binary (by decide) _ _ _)
    | succ j =>
      rw [Function.iterate_succ_apply'] at h
      exact ih (negated_injective h)

end Tree

/-- The operators of sums bind as sums do. -/
theorem strength_of_sumOperator? {s : Symbol} {op : Operator} (h : sumOperator? s = some op) :
    op.strength = Strength.sum := by
  obtain ⟨sign, rfl, rfl⟩ := SumSign.exists_of_sumOperator? h
  cases sign <;> rfl

/-- The operators of products bind as products do. -/
theorem strength_of_productOperator? {s : Symbol} {op : Operator}
    (h : productOperator? s = some op) : op.strength = Strength.product := by
  obtain ⟨sign, rfl, rfl⟩ := FactorSign.exists_of_productOperator? h
  cases sign <;> rfl

/-- Nodes with operators of different strength are different. -/
theorem Tree.binary_ne_of_strength {op op' : Operator} (h : op.strength < op'.strength)
    (l r l' r' : Tree) : binary op l r ≠ binary op' l' r' := by
  intro heq
  rw [(binary.inj heq).1] at h
  exact absurd h (Nat.lt_irrefl _)

/-! ### Symbols in front of an expression and after it -/

namespace Derives

variable {front us vs : List Symbol} {a b e t : Tree} {Q : Tree → Tree → Prop}

/-- What can stand in front of a factor can stand in front of a product, where it goes to the first
factor. What it makes of the factor, it makes of the product. -/
theorem prepend_term (hunary : ∀ vs b, Derives .unary vs b →
    ∃ a, Derives .term (front ++ vs) a ∧ Q b a)
    (hbinary : ∀ op l l' r, Q l l' → Q (.binary op l r) (.binary op l' r))
    (h : Derives .term us t) :
    ∃ a, Derives .term (front ++ us) a ∧ Q t a := by
  generalize hk : Phrase.term = k at h
  induction h with
  | factor h ih => exact hunary _ _ h
  | product hop hl hr ihl ihr =>
    obtain ⟨a, ha, hQ⟩ := ihl rfl
    refine ⟨_, ?_, hbinary _ _ _ _ hQ⟩
    rw [← List.append_assoc]
    exact ha.product hop hr
  | number | var | brackets | base | pow | unsigned | minus | plus | summand | sum => cases hk

/-- What can stand in front of a term can stand in front of a sum, where it goes to the first term,
and likewise for what it makes of it. -/
theorem prepend_expr (hterm : ∀ vs b, Derives .term vs b →
    ∃ a, Derives .expr (front ++ vs) a ∧ Q b a)
    (hbinary : ∀ op l l' r, Q l l' → Q (.binary op l r) (.binary op l' r))
    (h : Derives .expr us t) :
    ∃ a, Derives .expr (front ++ us) a ∧ Q t a := by
  generalize hk : Phrase.expr = k at h
  induction h with
  | summand h ih => exact hterm _ _ h
  | sum hop hl hr ihl ihr =>
    obtain ⟨a, ha, hQ⟩ := ihl rfl
    refine ⟨_, ?_, hbinary _ _ _ _ hQ⟩
    rw [← List.append_assoc]
    exact ha.sum hop hr
  | number | var | brackets | base | pow | unsigned | minus | plus | factor | product => cases hk

/-- What can stand in front of a factor can stand in front of a sum, by way of its first term. -/
theorem prepend_expr_of_unary
    (hunary : ∀ vs b, Derives .unary vs b → ∃ a, Derives .term (front ++ vs) a ∧ Q b a)
    (hbinary : ∀ op l l' r, Q l l' → Q (.binary op l r) (.binary op l' r))
    (h : Derives .expr us t) :
    ∃ a, Derives .expr (front ++ us) a ∧ Q t a :=
  prepend_expr (fun _ _ hterm =>
    (prepend_term hunary hbinary hterm).imp fun _ ha => ⟨ha.1.summand, ha.2⟩) hbinary h

/-- An exponent after a factor goes to the last power in it, whose base is no larger than the
factor. -/
theorem pow_unary {k : Phrase} (hk : Strength.negation ≤ k.strength) (hb : Derives k us b)
    (he : Derives .unary vs e) :
    ∃ i b' e', Derives .unary (us ++ .doubleStar :: vs) (Tree.negated^[i] (.binary .pow b' e')) ∧
      b'.size ≤ b.size := by
  -- The exponent is handed down: from a sign to what it stands in front of, and from a power to its
  -- own exponent.
  induction hb with
  | number | var | brackets =>
    refine ⟨0, _, e, (Derives.pow ?_ he).unsigned, Nat.le_refl _⟩
    first | exact .number _ | exact .var _ | exact .brackets ‹_›
  | base h ih | unsigned h ih => exact ih (by decide)
  | pow hb' he' ihb ihe =>
    obtain ⟨i, b', e', h, -⟩ := ihe (by decide)
    have hpow := (hb'.pow h).unsigned
    rw [← List.cons_append, ← List.append_assoc] at hpow
    exact ⟨0, _, _, hpow, Nat.le_trans (Nat.le_add_right _ _) (Nat.le_succ _)⟩
  | minus h ih =>
    obtain ⟨i, b', e', h, hsize⟩ := ih (by decide)
    refine ⟨i + 1, b', e', ?_, hsize.trans (Tree.size_le_size_negated _)⟩
    rw [Function.iterate_succ_apply']
    exact h.minus
  | plus h ih =>
    obtain ⟨i, b', e', h, hsize⟩ := ih (by decide)
    exact ⟨i, b', e', h.plus, hsize⟩
  | factor | product | summand | sum => exact absurd hk (by decide)

/-- An exponent after a product goes to the last factor, and a product it remains. -/
theorem pow_term (hb : Derives .term us b) (he : Derives .unary vs e) :
    ∃ t, Derives .term (us ++ .doubleStar :: vs) t := by
  cases hb with
  | factor h =>
    obtain ⟨i, b', e', h, -⟩ := h.pow_unary (Nat.le_refl _) he
    exact ⟨_, h.factor⟩
  | product hop hl hr =>
    obtain ⟨i, b', e', h, -⟩ := hr.pow_unary (Nat.le_refl _) he
    have hproduct := hl.product hop h
    rw [← List.cons_append, ← List.append_assoc] at hproduct
    exact ⟨_, hproduct⟩

end Derives

/-! ### Loose expressions -/

/-- What becomes of the symbols of an expression in a context of the given kind, when a pair of
brackets in it is left out. -/
inductive Loose (k : Phrase) (t : Tree) : List Symbol → Prop where
  | other {ws : List Symbol} {t' : Tree} (h : Derives k ws t') (hne : t' ≠ t) : Loose k t ws
  | product {us vs : List Symbol} {a b : Tree} {s : Symbol} {op : Operator} (hk : k = .unary)
      (hop : productOperator? s = some op) (ha : Derives .term us a) (hb : Derives .unary vs b)
      (hsigns : a.IsLiteral → ∀ i, b ≠ Tree.negated^[i] t) : Loose k t (us ++ s :: vs)
  | sum {us vs : List Symbol} {a b : Tree} {s : Symbol} {op : Operator}
      (hk : k = .unary ∨ k = .term)
      (hop : sumOperator? s = some op) (ha : Derives .expr us a) (hb : Derives .term vs b) :
      Loose k t (us ++ s :: vs)

namespace Loose

variable {k : Phrase} {us vs ws : List Symbol} {a b e l r t : Tree} {s : Symbol} {op : Operator}

/-- A product where it can be read as such must be of another tree, and must be as `Loose.product`
asks where it cannot. -/
theorem of_product (hk : k.strength ≤ Strength.negation) (hop : productOperator? s = some op)
    (ha : Derives .term us a) (hb : Derives .unary vs b) (hne : .binary op a b ≠ t)
    (hsigns : a.IsLiteral → ∀ i, b ≠ Tree.negated^[i] t) : Loose k t (us ++ s :: vs) := by
  cases k with
  | expr => exact .other (ha.product hop hb).summand hne
  | term => exact .other (ha.product hop hb) hne
  | unary => exact .product rfl hop ha hb hsigns
  | power | primary => exact absurd hk (by decide)

/-- A sum where it can be read as such must be of another tree. -/
theorem of_sum (hk : k.strength ≤ Strength.negation) (hop : sumOperator? s = some op)
    (ha : Derives .expr us a) (hb : Derives .term vs b) (hne : .binary op a b ≠ t) :
    Loose k t (us ++ s :: vs) := by
  cases k with
  | expr => exact .other (ha.sum hop hb) hne
  | term => exact .sum (.inr rfl) hop ha hb
  | unary => exact .sum (.inl rfl) hop ha hb
  | power | primary => exact absurd hk (by decide)

/-- A whole formula is read, as another tree, because no context asks for more than a sum. -/
theorem exists_derives (h : Loose .expr t ws) : ∃ t', Derives .expr ws t' ∧ t' ≠ t := by
  cases h with
  | other h hne => exact ⟨_, h, hne⟩
  | product hk => cases hk
  | sum hk => rcases hk with hk | hk <;> cases hk

/-! ### Expressions with a loose operand -/

/-- Brackets around it keep a loose expression together, so it is a loose primary. -/
theorem brackets (h : Loose .expr t ws) : Loose k t (.openBracket :: (ws ++ [.closeBracket])) := by
  obtain ⟨t', h, hne⟩ := h.exists_derives
  exact .other (h.brackets.weaken (by cases k <;> decide)) hne

/-- A sign in front of a loose expression goes to its first factor. The negation of the tree was
meant, and is not what is read. -/
theorem minus (hk : k.strength ≤ Strength.negation) (h : Loose .unary t ws) :
    Loose k t.negated (.minus :: ws) := by
  -- The sign goes to the first factor, and the tree gets no smaller.
  have hfront (vs b) (hb : Derives .unary vs b) :
      ∃ a, Derives .term ([.minus] ++ vs) a ∧ (a.IsLiteral → b.IsLiteral) :=
    ⟨_, hb.minus.factor, Tree.isLiteral_of_negated⟩
  have hbinary (op l l' r) (_ : Tree.IsLiteral l' → Tree.IsLiteral l)
      (h : (Tree.binary op l' r).IsLiteral) : (Tree.binary op l r).IsLiteral := by
    obtain ⟨value, h⟩ := h
    cases h
  cases h with
  | other h hne => exact .other (h.minus.weaken hk) (Tree.negated_injective.ne hne)
  | product _ hop ha hb hsigns =>
    obtain ⟨a', ha', hliteral⟩ := ha.prepend_term hfront hbinary
    refine of_product hk hop ha' hb (fun h => ?_) fun h i => ?_
    · -- The first factor may have become minus one.
      obtain ⟨-, rfl, rfl, -⟩ := Tree.negated_eq_binary_iff.1 h.symm
      exact hsigns (hliteral ⟨_, rfl⟩) 0 rfl
    · rw [← Function.iterate_succ_apply]
      exact hsigns (hliteral h) (i + 1)
  | sum _ hop ha hb =>
    obtain ⟨a', ha', -⟩ := ha.prepend_expr_of_unary hfront hbinary
    refine of_sum hk hop ha' hb (Tree.negated_ne_binary ?_ _ _ _).symm
    rintro rfl
    exact nomatch strength_of_sumOperator? hop

/-- A loose base is still a primary, of another tree, since nothing that is freed in it gets out of
its place. -/
theorem base (hk : k.strength ≤ Strength.negation) (h : Loose .primary b us)
    (he : Derives .unary vs e) :
    Loose k (.binary .pow b e) (us ++ .doubleStar :: vs) := by
  cases h with
  | other h hne =>
      exact .other ((h.pow he).unsigned.weaken hk) fun heq => hne (Tree.binary.inj heq).2.1
  | product hk' => cases hk'
  | sum hk' => rcases hk' with hk' | hk' <;> cases hk'

/-- A loose exponent loses its freed operator to what stands around the power, which is no power
then. -/
theorem exponent (hk : k.strength ≤ Strength.negation) (hb : Derives .primary us b)
    (h : Loose .unary e ws) : Loose k (.binary .pow b e) (us ++ .doubleStar :: ws) := by
  have hfront (vs e) (he : Derives .unary vs e) :
      ∃ a, Derives .term ((us ++ [.doubleStar]) ++ vs) a ∧ ¬ a.IsLiteral := by
    rw [List.append_assoc]
    exact ⟨_, (hb.pow he).unsigned.factor, nofun⟩
  have hbinary (op : Operator) (l l' r : Tree) (_ : ¬ l'.IsLiteral) :
      ¬ (Tree.binary op l' r).IsLiteral := nofun
  -- What the exponent is read as decides what the whole is read as: a power again, or a product or
  -- sum whose first operand is the power.
  cases h with
  | other h hne =>
    refine .other ((hb.pow h).unsigned.weaken hk) fun heq => hne (Tree.binary.inj heq).2.2
  | product _ hop ha hb' _ =>
    obtain ⟨a', ha', hliteral⟩ := ha.prepend_term (Q := fun _ a => ¬ a.IsLiteral) hfront hbinary
    have := of_product hk hop ha' hb' (t := .binary .pow b e)
      (Tree.binary_ne_of_strength (by rw [strength_of_productOperator? hop]; decide) _ _ _ _)
      fun h => absurd h hliteral
    simpa using this
  | sum _ hop ha hb' =>
    obtain ⟨a', ha', -⟩ := ha.prepend_expr_of_unary (Q := fun _ a => ¬ a.IsLiteral) hfront hbinary
    have := of_sum hk hop ha' hb' (t := .binary .pow b e)
      (Tree.binary_ne_of_strength (by rw [strength_of_sumOperator? hop]; decide) _ _ _ _)
    simpa using this

/-- A loose left operand of a product makes the product loose: a sum that is freed in it takes the
right operand into its last term. -/
theorem leftFactor (hk : k.strength ≤ Strength.product) (hop : productOperator? s = some op)
    (h : Loose .term l us) (hr : Derives .unary vs r) :
    Loose k (.binary op l r) (us ++ s :: vs) := by
  cases h with
  | other h hne =>
    exact .other ((h.product hop hr).weaken hk) fun heq => hne (Tree.binary.inj heq).2.1
  | product hk' => cases hk'
  | sum _ hop' ha hb =>
    have hsum := of_sum (hk.trans (by decide)) hop' ha (hb.product hop hr) (t := .binary op l r)
      (Tree.binary_ne_of_strength (by
        rw [strength_of_sumOperator? hop', strength_of_productOperator? hop]; decide) _ _ _ _)
    rwa [← List.cons_append, ← List.append_assoc] at hsum

/-- A loose right operand of a product makes the product loose: its first factors go to the left
operand. -/
theorem rightFactor (hk : k.strength ≤ Strength.product) (hop : productOperator? s = some op)
    (hl : Derives .term us l) (h : Loose .unary r vs) :
    Loose k (.binary op l r) (us ++ s :: vs) := by
  -- The left operand grows, as it takes the first factors of the right one.
  have hfront (ws b) (hb : Derives .unary ws b) :
      ∃ a, Derives .term ((us ++ [s]) ++ ws) a ∧ l.size < a.size := by
    rw [List.append_assoc]
    exact ⟨_, hl.product hop hb, Tree.size_lt_binary_left (Nat.le_refl _)⟩
  have hbinary (op : Operator) (_ l' r' : Tree) (hlt : l.size < l'.size) :
      l.size < (Tree.binary op l' r').size := Tree.size_lt_binary_left (Nat.le_of_lt hlt)
  cases h with
  | other h hne =>
    exact .other ((hl.product hop h).weaken hk) fun heq => hne (Tree.binary.inj heq).2.2
  | product _ hop' ha hb _ =>
    obtain ⟨a', ha', hsize⟩ := ha.prepend_term (Q := fun _ a => l.size < a.size) hfront hbinary
    refine .other (by simpa using (ha'.product hop' hb).weaken hk) fun heq => ?_
    rw [(Tree.binary.inj heq).2.1] at hsize
    exact absurd hsize (Nat.lt_irrefl _)
  | sum _ hop' ha hb =>
    obtain ⟨a', ha', -⟩ :=
      ha.prepend_expr_of_unary (Q := fun _ a => l.size < a.size) hfront hbinary
    have hsum := of_sum (hk.trans (by decide)) hop' ha' hb (t := .binary op l r)
      (Tree.binary_ne_of_strength (by
        rw [strength_of_sumOperator? hop', strength_of_productOperator? hop]; decide) _ _ _ _)
    simpa using hsum

/-- A loose left operand of a sum is another left operand, since a sum there needs no brackets. -/
theorem leftSummand (hk : k.strength ≤ Strength.sum) (hop : sumOperator? s = some op)
    (h : Loose .expr l us) (hr : Derives .term vs r) :
    Loose k (.binary op l r) (us ++ s :: vs) := by
  obtain ⟨l', h, hne⟩ := h.exists_derives
  exact .other ((h.sum hop hr).weaken hk) fun heq => hne (Tree.binary.inj heq).2.1

/-- A loose right operand of a sum makes the sum loose: its first terms go to the left operand. -/
theorem rightSummand (hk : k.strength ≤ Strength.sum) (hop : sumOperator? s = some op)
    (hl : Derives .expr us l) (h : Loose .term r vs) :
    Loose k (.binary op l r) (us ++ s :: vs) := by
  cases h with
  | other h hne =>
    exact .other ((hl.sum hop h).weaken hk) fun heq => hne (Tree.binary.inj heq).2.2
  | product hk' => cases hk'
  | sum _ hop' ha hb =>
    -- The left operand grows here too.
    have hfront (ws b) (hb : Derives .term ws b) :
        ∃ a, Derives .expr ((us ++ [s]) ++ ws) a ∧ l.size < a.size := by
      rw [List.append_assoc]
      exact ⟨_, hl.sum hop hb, Tree.size_lt_binary_left (Nat.le_refl _)⟩
    obtain ⟨a', ha', hsize⟩ := ha.prepend_expr (Q := fun _ a => l.size < a.size) hfront
      fun _ _ _ _ hlt => Tree.size_lt_binary_left (Nat.le_of_lt hlt)
    refine .other (by simpa using (ha'.sum hop' hb).weaken hk) fun heq => ?_
    rw [(Tree.binary.inj heq).2.1] at hsize
    exact absurd hsize (Nat.lt_irrefl _)

/-! ### Expressions that lost their own brackets -/

/-- A product in a place for a factor falls into its two parts. Its last factor is smaller than the
product, so it is no negation of it. -/
theorem freed_product (hop : productOperator? s = some op) (ha : Derives .term us a)
    (hb : Derives .unary vs b) : Loose .unary (.binary op a b) (us ++ s :: vs) := by
  refine .product rfl hop ha hb fun _ i heq => ?_
  have hsize := Tree.size_le_size_iterate_negated (.binary op a b) i
  rw [← heq, Tree.size] at hsize
  omega

/-- A negation as a base: the exponent goes to what is negated, and the sign stands in front of the
power. -/
theorem minus_base (hk : k.strength ≤ Strength.negation) (hb : Derives .unary us b)
    (he : Derives .unary vs e) :
    Loose k (.binary .pow t e) (.minus :: us ++ .doubleStar :: vs) := by
  obtain ⟨i, b', e', h, -⟩ := hb.pow_unary (Nat.le_refl _) he
  exact .other (h.minus.weaken hk) (Tree.negated_ne_binary (by decide) _ _ _)

/-- A power as a base: the exponent goes to its exponent, as powers group from the right. -/
theorem power_base (hk : k.strength ≤ Strength.negation) (ha : Derives .primary us a)
    (hb : Derives .unary vs b) (he : Derives .unary ws e) :
    Loose k (.binary .pow (.binary .pow a b) e)
      ((us ++ .doubleStar :: vs) ++ .doubleStar :: ws) := by
  obtain ⟨i, b', e', h, -⟩ := hb.pow_unary (Nat.le_refl _) he
  refine .other (by simpa using (ha.pow h).unsigned.weaken hk) fun heq => ?_
  have hsize := congrArg Tree.size (Tree.binary.inj heq).2.1
  rw [Tree.size] at hsize
  omega

/-- A product as a base: the exponent goes to the last factor. -/
theorem product_base (hk : k.strength ≤ Strength.negation) (hop : productOperator? s = some op)
    (ha : Derives .term us a) (hb : Derives .unary vs b) (he : Derives .unary ws e) :
    Loose k (.binary .pow (.binary op a b) e) ((us ++ s :: vs) ++ .doubleStar :: ws) := by
  obtain ⟨i, b', e', h, hsize⟩ := hb.pow_unary (Nat.le_refl _) he
  have hproduct := of_product hk hop ha h (t := .binary .pow (.binary op a b) e)
    (Tree.binary_ne_of_strength (by rw [strength_of_productOperator? hop]; decide) _ _ _ _)
    (fun _ j heq => by
      -- The base is a part of the product only.
      rw [Tree.eq_of_iterate_negated_pow heq, Tree.size] at hsize
      omega)
  simpa using hproduct

/-- A sum as a base: the exponent goes to the last factor of the last term. -/
theorem sum_base (hk : k.strength ≤ Strength.negation) (hop : sumOperator? s = some op)
    (ha : Derives .expr us a) (hb : Derives .term vs b) (he : Derives .unary ws e) :
    Loose k (.binary .pow (.binary op a b) e) ((us ++ s :: vs) ++ .doubleStar :: ws) := by
  obtain ⟨t, h⟩ := hb.pow_term he
  have hsum := of_sum hk hop ha h (t := .binary .pow (.binary op a b) e)
    (Tree.binary_ne_of_strength (by rw [strength_of_sumOperator? hop]; decide) _ _ _ _)
  simpa using hsum

end Loose

end UnitPlane
