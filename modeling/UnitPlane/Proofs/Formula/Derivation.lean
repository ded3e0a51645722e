import UnitPlane.Proofs.Formula.Grammar

/-!
# `UnitPlane.Proofs.Formula.Derivation`: derivations of formulas

A `Derivation` is a proof tree of the grammar

```text
expr    := term (('+' | '-') term)*
term    := unary (('*' | '/') unary)*
unary   := ('-' | '+') unary | power
power   := primary ('**' unary)?
primary := NUMBER | 'x' | 'y' | '(' expr ')'
```

with the symbols that it derives and the tree that it denotes. `Derives` says only that there is
one:

* `Derives.exists_derivation` and `Derivation.derives`: a derivation gives its symbols and its tree
  to `Derives`, and whatever `Derives` relates comes from a derivation.
* `Derivation.decided`: symbols have at most one derivation, also in front of symbols that cannot go
  on with it.
-/

set_option autoImplicit false

namespace UnitPlane

open Setting

/-! ### Signs -/

/-- The signs between terms. -/
inductive SumSign where
  | plus
  | minus
deriving DecidableEq

namespace SumSign

/-- The symbol of a sign between terms. -/
def symbol : SumSign → Symbol
  | plus => .plus
  | minus => .minus

/-- The operator that a sign between terms stands for. -/
def operator : SumSign → Operator
  | plus => .add
  | minus => .sub

/-- A sign between terms is one that the readers know, with the same operator. -/
theorem sumOperator?_symbol (s : SumSign) : sumOperator? s.symbol = some s.operator := by
  cases s <;> rfl

/-- Every symbol that the readers take for an operator of sums is a sign between terms. -/
theorem exists_of_sumOperator? {symbol : Symbol} {op : Operator}
    (h : sumOperator? symbol = some op) :
    ∃ s : SumSign, s.symbol = symbol ∧ s.operator = op := by
  cases symbol with
  | plus => exact ⟨plus, rfl, Option.some.inj h⟩
  | minus => exact ⟨minus, rfl, Option.some.inj h⟩
  | number | name | star | doubleStar | slash | openBracket | closeBracket | unsupported | stop =>
    cases h

/-- Different signs between terms are different symbols. -/
theorem symbol_injective {s s' : SumSign} (h : s.symbol = s'.symbol) : s = s' := by
  cases s <;> cases s' <;> first | rfl | cases h

end SumSign

/-- The signs between factors. -/
inductive FactorSign where
  | star
  | slash
deriving DecidableEq

namespace FactorSign

/-- The symbol of a sign between factors. -/
def symbol : FactorSign → Symbol
  | star => .star
  | slash => .slash

/-- The operator that a sign between factors stands for. -/
def operator : FactorSign → Operator
  | star => .mul
  | slash => .div

/-- A sign between factors is one that the readers know, with the same operator. -/
theorem productOperator?_symbol (s : FactorSign) :
    productOperator? s.symbol = some s.operator := by
  cases s <;> rfl

/-- Every symbol that the readers take for an operator of products is a sign between factors. -/
theorem exists_of_productOperator? {symbol : Symbol} {op : Operator}
    (h : productOperator? symbol = some op) :
    ∃ s : FactorSign, s.symbol = symbol ∧ s.operator = op := by
  cases symbol with
  | star => exact ⟨star, rfl, Option.some.inj h⟩
  | slash => exact ⟨slash, rfl, Option.some.inj h⟩
  | number | name | plus | minus | doubleStar | openBracket | closeBracket | unsupported | stop =>
    cases h

/-- Different signs between factors are different symbols. -/
theorem symbol_injective {s s' : FactorSign} (h : s.symbol = s'.symbol) : s = s' := by
  cases s <;> cases s' <;> first | rfl | cases h

end FactorSign

/-! ### Derivations -/

/-- What a rule of the grammar derives. The repeated parts of sums and products are `summands` and
`factors`, which have no expression of their own in front. -/
inductive Nonterminal where
  | expr
  | summands
  | term
  | factors
  | unary
  | power
  | primary
deriving DecidableEq

/-- The derivations of the grammar, with one constructor for each alternative of a rule. -/
inductive Derivation : Nonterminal → Type where
  | expr (first : Derivation .term) (more : Derivation .summands) : Derivation .expr
  | noSummand : Derivation .summands
  | summand (s : SumSign) (t : Derivation .term) (more : Derivation .summands) :
      Derivation .summands
  | term (first : Derivation .unary) (more : Derivation .factors) : Derivation .term
  | noFactor : Derivation .factors
  | factor (s : FactorSign) (u : Derivation .unary) (more : Derivation .factors) :
      Derivation .factors
  | minus (u : Derivation .unary) : Derivation .unary
  | plus (u : Derivation .unary) : Derivation .unary
  | unsigned (p : Derivation .power) : Derivation .unary
  | base (b : Derivation .primary) : Derivation .power
  | pow (b : Derivation .primary) (e : Derivation .unary) : Derivation .power
  | number (value : Float) : Derivation .primary
  | var (v : Variable) : Derivation .primary
  | brackets (e : Derivation .expr) : Derivation .primary

/-- What a derivation stands for: a tree, or how the tree on the left goes on. -/
def Nonterminal.Meaning : Nonterminal → Type
  | summands | factors => Tree → Tree
  | expr | term | unary | power | primary => Tree

namespace Derivation

/-- The symbols that are derived. -/
def words : {k : Nonterminal} → Derivation k → List Symbol
  | _, expr first more => first.words ++ more.words
  | _, noSummand => []
  | _, summand s t more => s.symbol :: (t.words ++ more.words)
  | _, term first more => first.words ++ more.words
  | _, noFactor => []
  | _, factor s u more => s.symbol :: (u.words ++ more.words)
  | _, minus u => .minus :: u.words
  | _, plus u => .plus :: u.words
  | _, unsigned p => p.words
  | _, base b => b.words
  | _, pow b e => b.words ++ .doubleStar :: e.words
  | _, number value => [.number value]
  | _, var v => [.name v.name]
  | _, brackets e => .openBracket :: (e.words ++ [.closeBracket])

/-- What a derivation denotes. Sums and products group from the left and powers from the right; a
plus denotes nothing, and a minus negates a number at once and is a factor of minus one before all
else. -/
def meaning : {k : Nonterminal} → Derivation k → k.Meaning
  | _, expr first more => more.meaning first.meaning
  | _, noSummand => fun left => left
  | _, summand s t more => fun left => more.meaning (.binary s.operator left t.meaning)
  | _, term first more => more.meaning first.meaning
  | _, noFactor => fun left => left
  | _, factor s u more => fun left => more.meaning (.binary s.operator left u.meaning)
  | _, minus u => Tree.negated u.meaning
  | _, plus u => u.meaning
  | _, unsigned p => p.meaning
  | _, base b => b.meaning
  | _, pow b e => .binary .pow b.meaning e.meaning
  | _, number value => .literal value
  | _, var v => .var v
  | _, brackets e => e.meaning

/-- The tree that the derivation of a whole formula denotes. -/
def tree (d : Derivation .expr) : Tree := d.meaning

/-! ### Derivations and `Derives` -/

/-- What a derivation says in terms of `Derives`. The repeated parts go on an expression on the
left. -/
def Holds : {k : Nonterminal} → Derivation k → Prop
  | .expr, d => Derives .expr d.words d.meaning
  | .summands, d =>
      ∀ us left, Derives .expr us left → Derives .expr (us ++ d.words) (d.meaning left)
  | .term, d => Derives .term d.words d.meaning
  | .factors, d => ∀ us left, Derives .term us left → Derives .term (us ++ d.words) (d.meaning left)
  | .unary, d => Derives .unary d.words d.meaning
  | .power, d => Derives .power d.words d.meaning
  | .primary, d => Derives .primary d.words d.meaning

/-- Every derivation says what it says in terms of `Derives`. The repeated parts turn the list of
terms or factors into a row of operators that group from the left. -/
theorem holds {k : Nonterminal} (d : Derivation k) : d.Holds := by
  -- The induction is on the derivation, with one case for each alternative of a rule.
  induction d with
  | expr first more ihfirst ihmore => exact ihmore _ _ (Derives.summand ihfirst)
  | noSummand | noFactor =>
    intro us left h
    show Derives _ (us ++ []) left
    rwa [List.append_nil]
  | summand s t more iht ihmore =>
    intro us left h
    have hmore := ihmore _ _ (h.sum s.sumOperator?_symbol iht)
    rwa [List.append_assoc, List.cons_append] at hmore
  | term first more ihfirst ihmore => exact ihmore _ _ (Derives.factor ihfirst)
  | factor s u more ihu ihmore =>
    intro us left h
    have hmore := ihmore _ _ (h.product s.productOperator?_symbol ihu)
    rwa [List.append_assoc, List.cons_append] at hmore
  | minus u ih => exact Derives.minus ih
  | plus u ih => exact Derives.plus ih
  | unsigned p ih => exact Derives.unsigned ih
  | base b ih => exact Derives.base ih
  | pow b e ihb ihe => exact Derives.pow ihb ihe
  | number value => exact .number value
  | var v => exact .var v
  | brackets e ih => exact Derives.brackets ih

/-- A derivation of a formula gives its symbols and its tree to `Derives`. -/
theorem derives (d : Derivation .expr) : Derives .expr d.words d.tree := d.holds

/-- One more term after the others. `Derives` adds terms at the end, while a derivation lists them
from the front. -/
def snocSummand (s : SumSign) (t : Derivation .term) : Derivation .summands → Derivation .summands
  | noSummand => summand s t noSummand
  | summand s' t' more => summand s' t' (snocSummand s t more)

/-- One more factor after the others, in the same way. -/
def snocFactor (s : FactorSign) (u : Derivation .unary) : Derivation .factors → Derivation .factors
  | noFactor => factor s u noFactor
  | factor s' u' more => factor s' u' (snocFactor s u more)

/-- The symbols of one more term come after those of the others. -/
theorem words_snocSummand (s : SumSign) (t : Derivation .term) :
    (more : Derivation .summands) →
      (snocSummand s t more).words = more.words ++ s.symbol :: t.words
  | noSummand => by
    rw [snocSummand]
    exact congrArg (s.symbol :: ·) (List.append_nil t.words)
  | summand s' t' more => by
    rw [snocSummand]
    show s'.symbol :: (t'.words ++ (snocSummand s t more).words) = _
    rw [words_snocSummand s t more, ← List.append_assoc]
    rfl

/-- One more term is the right operand of a sum whose left operand is all that came before. -/
theorem meaning_snocSummand (s : SumSign) (t : Derivation .term) :
    (more : Derivation .summands) → (left : Tree) → (snocSummand s t more).meaning left =
      Tree.binary s.operator (more.meaning left) t.meaning
  | noSummand, _ => by rw [snocSummand]; rfl
  | summand _ _ more, _ => by rw [snocSummand]; exact meaning_snocSummand s t more _

/-- The symbols of one more factor come after those of the others. -/
theorem words_snocFactor (s : FactorSign) (u : Derivation .unary) :
    (more : Derivation .factors) →
      (snocFactor s u more).words = more.words ++ s.symbol :: u.words
  | noFactor => by
    rw [snocFactor]
    exact congrArg (s.symbol :: ·) (List.append_nil u.words)
  | factor s' u' more => by
    rw [snocFactor]
    show s'.symbol :: (u'.words ++ (snocFactor s u more).words) = _
    rw [words_snocFactor s u more, ← List.append_assoc]
    rfl

/-- One more factor is the right operand of a product whose left operand is all that came before. -/
theorem meaning_snocFactor (s : FactorSign) (u : Derivation .unary) :
    (more : Derivation .factors) → (left : Tree) → (snocFactor s u more).meaning left =
      Tree.binary s.operator (more.meaning left) u.meaning
  | noFactor, _ => by rw [snocFactor]; rfl
  | factor _ _ more, _ => by rw [snocFactor]; exact meaning_snocFactor s u more _

end Derivation

/-- There is a derivation of the given kind with these symbols and this tree. -/
def Phrase.Derivable (ws : List Symbol) (t : Tree) : Phrase → Prop
  | expr => ∃ d : Derivation .expr, d.words = ws ∧ d.meaning = t
  | term => ∃ d : Derivation .term, d.words = ws ∧ d.meaning = t
  | unary => ∃ d : Derivation .unary, d.words = ws ∧ d.meaning = t
  | power => ∃ d : Derivation .power, d.words = ws ∧ d.meaning = t
  | primary => ∃ d : Derivation .primary, d.words = ws ∧ d.meaning = t

/-- Whatever `Derives` relates comes from a derivation, for each kind of expression. The induction
has to be over all kinds at once, since they are made from each other. -/
theorem Derives.derivable {k : Phrase} {ws : List Symbol} {t : Tree} (h : Derives k ws t) :
    k.Derivable ws t := by
  induction h with
  | number value => exact ⟨.number value, rfl, rfl⟩
  | var v => exact ⟨.var v, rfl, rfl⟩
  | brackets h ih =>
    obtain ⟨d, rfl, rfl⟩ := ih
    exact ⟨.brackets d, rfl, rfl⟩
  | base h ih =>
    obtain ⟨d, rfl, rfl⟩ := ih
    exact ⟨.base d, rfl, rfl⟩
  | pow hb he ihb ihe =>
    obtain ⟨b, rfl, rfl⟩ := ihb
    obtain ⟨e, rfl, rfl⟩ := ihe
    exact ⟨.pow b e, rfl, rfl⟩
  | unsigned h ih =>
    obtain ⟨d, rfl, rfl⟩ := ih
    exact ⟨.unsigned d, rfl, rfl⟩
  | minus h ih =>
    obtain ⟨d, rfl, rfl⟩ := ih
    exact ⟨.minus d, rfl, rfl⟩
  | plus h ih =>
    obtain ⟨d, rfl, rfl⟩ := ih
    exact ⟨.plus d, rfl, rfl⟩
  | factor h ih =>
    obtain ⟨d, rfl, rfl⟩ := ih
    exact ⟨.term d .noFactor, List.append_nil d.words, rfl⟩
  | product hop hl hr ihl ihr =>
    -- The left operand is a term already, and the right one joins its factors.
    obtain ⟨s, rfl, rfl⟩ := FactorSign.exists_of_productOperator? hop
    obtain ⟨d, rfl, rfl⟩ := ihl
    obtain ⟨u, rfl, rfl⟩ := ihr
    cases d with
    | term first more =>
      refine ⟨.term first (.snocFactor s u more), ?_, ?_⟩
      · show first.words ++ (Derivation.snocFactor s u more).words = _
        rw [Derivation.words_snocFactor, ← List.append_assoc]
        rfl
      · exact Derivation.meaning_snocFactor s u more _
  | summand h ih =>
    obtain ⟨d, rfl, rfl⟩ := ih
    exact ⟨.expr d .noSummand, List.append_nil d.words, rfl⟩
  | sum hop hl hr ihl ihr =>
    obtain ⟨s, rfl, rfl⟩ := SumSign.exists_of_sumOperator? hop
    obtain ⟨d, rfl, rfl⟩ := ihl
    obtain ⟨t, rfl, rfl⟩ := ihr
    cases d with
    | expr first more =>
      refine ⟨.expr first (.snocSummand s t more), ?_, ?_⟩
      · show first.words ++ (Derivation.snocSummand s t more).words = _
        rw [Derivation.words_snocSummand, ← List.append_assoc]
        rfl
      · exact Derivation.meaning_snocSummand s t more _

/-- Whatever `Derives` relates comes from a derivation, which by its symbols is the only one. -/
theorem Derives.exists_derivation {ws : List Symbol} {t : Tree} (h : Derives .expr ws t) :
    ∃ d : Derivation .expr, d.words = ws ∧ d.tree = t := h.derivable

/-! ### Uniqueness -/

/-- Whether a symbol after an expression goes on with its last part. -/
def Nonterminal.goesOn : Nonterminal → Symbol → Bool
  | primary, _ => false
  | unary, s | power, s => s == .doubleStar
  | term, s | factors, s => s == .doubleStar || (productOperator? s).isSome
  | expr, s | summands, s =>
    s == .doubleStar || (productOperator? s).isSome || (sumOperator? s).isSome

/-- The symbols `rest` do not go on with an expression in front of them. -/
def Nonterminal.EndsBefore (k : Nonterminal) (rest : List Symbol) : Prop :=
  ∀ s ∈ rest.head?, k.goesOn s = false

/-- Where nothing follows, every expression has ended. -/
theorem Nonterminal.endsBefore_nil (k : Nonterminal) : k.EndsBefore [] := by
  intro s hs
  cases hs

/-- Whether an expression has ended is decided by the next symbol alone. -/
theorem Nonterminal.endsBefore_cons {k : Nonterminal} {s : Symbol} {rest : List Symbol} :
    k.EndsBefore (s :: rest) ↔ k.goesOn s = false := by
  simp [EndsBefore]

/-- A primary ends wherever it ends: no symbol goes on with it. -/
theorem Nonterminal.endsBefore_primary {rest : List Symbol} : primary.EndsBefore rest :=
  fun _ _ => rfl

namespace Derivation

variable {rest rest' : List Symbol}

/-- The terms of a sum end where a sign follows, or where the whole sum ends. -/
theorem endsBefore_summands (more : Derivation .summands) (h : Nonterminal.expr.EndsBefore rest) :
    Nonterminal.term.EndsBefore (more.words ++ rest) := by
  cases more with
  | noSummand =>
    intro s hs
    have := h s hs
    cases s <;> first | rfl | cases this
  | summand s t more => exact Nonterminal.endsBefore_cons.2 (by cases s <;> rfl)

/-- The factors of a product end where a sign follows, or where the whole product ends. -/
theorem endsBefore_factors (more : Derivation .factors) (h : Nonterminal.term.EndsBefore rest) :
    Nonterminal.unary.EndsBefore (more.words ++ rest) := by
  cases more with
  | noFactor =>
    intro s hs
    have := h s hs
    cases s <;> first | rfl | cases this
  | factor s u more => exact Nonterminal.endsBefore_cons.2 (by cases s <;> rfl)

/-- A power does not start with a sign, so that the rules for signed operands exclude each other. -/
theorem words_power_ne_cons (p : Derivation .power) {s : Symbol} (hs : s = .minus ∨ s = .plus)
    (ws : List Symbol) : p.words ++ rest ≠ s :: ws := by
  have hprimary (b : Derivation .primary) (ws' : List Symbol) : b.words ++ ws' ≠ s :: ws := by
    intro h
    cases b <;> rcases hs with rfl | rfl <;> cases h
  cases p with
  | base b => exact hprimary b rest
  | pow b e =>
    show (b.words ++ .doubleStar :: e.words) ++ rest ≠ _
    rw [List.append_assoc]
    exact hprimary b _

/-- The symbols of a derivation decide it: a derivation of the same kind is the same one if the two
agree on all symbols, each in front of symbols that do not go on with it. Then both also end at the
same place. -/
def Decided {k : Nonterminal} (d : Derivation k) : Prop :=
  ∀ ⦃rest rest' : List Symbol⦄ (d' : Derivation k), k.EndsBefore rest → k.EndsBefore rest' →
    d.words ++ rest = d'.words ++ rest' → d = d' ∧ rest = rest'

namespace Decided

variable {e : Derivation .expr} {t : Derivation .term} {u : Derivation .unary}
  {p : Derivation .power} {b : Derivation .primary}

/-- Two derivations in a row are decided one after the other, if the first has ended where the
second begins. -/
theorem both {j k : Nonterminal} {a a' : Derivation j} {c c' : Derivation k} (ha : a.Decided)
    (hc : c.Decided) (hfirst : j.EndsBefore (c.words ++ rest))
    (hfirst' : j.EndsBefore (c'.words ++ rest')) (hrest : k.EndsBefore rest)
    (hrest' : k.EndsBefore rest')
    (h : (a.words ++ c.words) ++ rest = (a'.words ++ c'.words) ++ rest') :
    a = a' ∧ c = c' ∧ rest = rest' := by
  rw [List.append_assoc, List.append_assoc] at h
  obtain ⟨rfl, hsecond⟩ := ha a' hfirst hfirst' h
  obtain ⟨rfl, hend⟩ := hc c' hrest hrest' hsecond
  exact ⟨rfl, rfl, hend⟩

/-- A sum is decided by its first term and those after it. -/
theorem expr {more : Derivation .summands} (ht : t.Decided) (hmore : more.Decided) :
    (Derivation.expr t more).Decided := by
  intro rest rest' d' hrest hrest' h
  cases d' with
  | expr t' more' =>
    obtain ⟨rfl, rfl, hend⟩ := ht.both hmore (endsBefore_summands more hrest)
      (endsBefore_summands more' hrest') hrest hrest' h
    exact ⟨rfl, hend⟩

/-- The end of a sum is decided: a sign after the last term would go on with the sum. -/
theorem noSummand : Derivation.noSummand.Decided := by
  intro rest rest' d' hrest hrest' h
  cases d' with
  | noSummand => exact ⟨rfl, h⟩
  | summand s t more =>
    obtain rfl : rest = _ := h
    have := Nonterminal.endsBefore_cons.1 hrest
    cases s <;> cases this

/-- One more term of a sum is decided by its sign, by itself, and by those after it. -/
theorem summand (s : SumSign) {more : Derivation .summands} (ht : t.Decided)
    (hmore : more.Decided) : (Derivation.summand s t more).Decided := by
  intro rest rest' d' hrest hrest' h
  cases d' with
  | noSummand =>
    obtain rfl : _ = rest' := h
    have := Nonterminal.endsBefore_cons.1 hrest'
    cases s <;> cases this
  | summand s' t' more' =>
    obtain ⟨hs, htail⟩ := List.cons.inj h
    obtain rfl := SumSign.symbol_injective hs
    obtain ⟨rfl, rfl, hend⟩ := ht.both hmore (endsBefore_summands more hrest)
      (endsBefore_summands more' hrest') hrest hrest' htail
    exact ⟨rfl, hend⟩

/-- A product is decided by its first factor and those after it. -/
theorem term {more : Derivation .factors} (hu : u.Decided) (hmore : more.Decided) :
    (Derivation.term u more).Decided := by
  intro rest rest' d' hrest hrest' h
  cases d' with
  | term u' more' =>
    obtain ⟨rfl, rfl, hend⟩ := hu.both hmore (endsBefore_factors more hrest)
      (endsBefore_factors more' hrest') hrest hrest' h
    exact ⟨rfl, hend⟩

/-- The end of a product is decided, in the same way as that of a sum. -/
theorem noFactor : Derivation.noFactor.Decided := by
  intro rest rest' d' hrest hrest' h
  cases d' with
  | noFactor => exact ⟨rfl, h⟩
  | factor s u more =>
    obtain rfl : rest = _ := h
    have := Nonterminal.endsBefore_cons.1 hrest
    cases s <;> cases this

/-- One more factor of a product is decided by its sign, by itself, and by those after it. -/
theorem factor (s : FactorSign) {more : Derivation .factors} (hu : u.Decided)
    (hmore : more.Decided) : (Derivation.factor s u more).Decided := by
  intro rest rest' d' hrest hrest' h
  cases d' with
  | noFactor =>
    obtain rfl : _ = rest' := h
    have := Nonterminal.endsBefore_cons.1 hrest'
    cases s <;> cases this
  | factor s' u' more' =>
    obtain ⟨hs, htail⟩ := List.cons.inj h
    obtain rfl := FactorSign.symbol_injective hs
    obtain ⟨rfl, rfl, hend⟩ := hu.both hmore (endsBefore_factors more hrest)
      (endsBefore_factors more' hrest') hrest hrest' htail
    exact ⟨rfl, hend⟩

/-- A minus in front decides that the operand is signed, since no power begins with one. -/
theorem minus (hu : u.Decided) : (Derivation.minus u).Decided := by
  intro rest rest' d' hrest hrest' h
  cases d' with
  | minus u' =>
    obtain ⟨rfl, hend⟩ := hu u' hrest hrest' (List.cons.inj h).2
    exact ⟨rfl, hend⟩
  | plus u' => cases h
  | unsigned p => exact absurd h.symm (words_power_ne_cons p (.inl rfl) _)

/-- So does a plus. -/
theorem plus (hu : u.Decided) : (Derivation.plus u).Decided := by
  intro rest rest' d' hrest hrest' h
  cases d' with
  | minus u' => cases h
  | plus u' =>
    obtain ⟨rfl, hend⟩ := hu u' hrest hrest' (List.cons.inj h).2
    exact ⟨rfl, hend⟩
  | unsigned p => exact absurd h.symm (words_power_ne_cons p (.inr rfl) _)

/-- An operand without a sign is decided by the power that it is. -/
theorem unsigned (hp : p.Decided) : (Derivation.unsigned p).Decided := by
  intro rest rest' d' hrest hrest' h
  cases d' with
  | minus u => exact absurd h (words_power_ne_cons p (.inl rfl) _)
  | plus u => exact absurd h (words_power_ne_cons p (.inr rfl) _)
  | unsigned p' =>
    obtain ⟨rfl, hend⟩ := hp p' hrest hrest' h
    exact ⟨rfl, hend⟩

/-- A primary is a power by itself where no double star follows. -/
theorem base (hb : b.Decided) : (Derivation.base b).Decided := by
  intro rest rest' d' hrest hrest' h
  cases d' with
  | base b' =>
    obtain ⟨rfl, hend⟩ := hb b' Nonterminal.endsBefore_primary Nonterminal.endsBefore_primary h
    exact ⟨rfl, hend⟩
  | pow b' e' =>
    -- The base is the same, so a double star would follow it here too.
    replace h : b.words ++ rest = (b'.words ++ .doubleStar :: e'.words) ++ rest' := h
    rw [List.append_assoc] at h
    obtain ⟨rfl, rfl⟩ := hb b' Nonterminal.endsBefore_primary Nonterminal.endsBefore_primary h
    exact nomatch Nonterminal.endsBefore_cons.1 hrest

/-- With a double star the power is decided by its base and its exponent. -/
theorem pow (hb : b.Decided) (hu : u.Decided) : (Derivation.pow b u).Decided := by
  intro rest rest' d' hrest hrest' h
  cases d' with
  | base b' =>
    replace h : (b.words ++ .doubleStar :: u.words) ++ rest = b'.words ++ rest' := h
    rw [List.append_assoc] at h
    obtain ⟨rfl, rfl⟩ := hb b' Nonterminal.endsBefore_primary Nonterminal.endsBefore_primary h
    exact nomatch Nonterminal.endsBefore_cons.1 hrest'
  | pow b' u' =>
    replace h : (b.words ++ .doubleStar :: u.words) ++ rest =
      (b'.words ++ .doubleStar :: u'.words) ++ rest' := h
    rw [List.append_assoc, List.append_assoc] at h
    obtain ⟨rfl, hexponent⟩ := hb b' Nonterminal.endsBefore_primary
      Nonterminal.endsBefore_primary h
    obtain ⟨rfl, hend⟩ := hu u' hrest hrest' (List.cons.inj hexponent).2
    exact ⟨rfl, hend⟩

/-- A number is decided by its symbol. -/
theorem number (value : Float) : (Derivation.number value).Decided := by
  intro rest rest' d' hrest hrest' h
  cases d' with
  | number value' =>
    cases h
    exact ⟨rfl, rfl⟩
  | var v | brackets e => cases h

/-- A variable is decided by its name, since two variables with one name are one. -/
theorem var (v : Variable) : (Derivation.var v).Decided := by
  intro rest rest' d' hrest hrest' h
  cases d' with
  | var v' =>
    have hname : v.name = v'.name := Symbol.name.inj (List.cons.inj h).1
    have hv : v = v' := by
      cases v <;> cases v' <;> first | rfl | exact absurd hname (by decide)
    exact ⟨by rw [hv], (List.cons.inj h).2⟩
  | number value | brackets e => cases h

/-- Brackets are decided by what is inside, which has ended where they close. -/
theorem brackets (he : e.Decided) : (Derivation.brackets e).Decided := by
  intro rest rest' d' hrest hrest' h
  cases d' with
  | number value | var v => cases h
  | brackets e' =>
    have hinner : (e.words ++ [.closeBracket]) ++ rest = (e'.words ++ [.closeBracket]) ++ rest' :=
      (List.cons.inj h).2
    rw [List.append_assoc, List.append_assoc] at hinner
    obtain ⟨rfl, hend⟩ := he e' (Nonterminal.endsBefore_cons.2 rfl)
      (Nonterminal.endsBefore_cons.2 rfl) hinner
    exact ⟨rfl, (List.cons.inj hend).2⟩

end Decided

/-- Every derivation is decided by its symbols. The induction is on the derivation, and what follows
it changes on the way down. -/
theorem decided {k : Nonterminal} (d : Derivation k) : d.Decided := by
  induction d with
  | expr first more ihfirst ihmore => exact ihfirst.expr ihmore
  | noSummand => exact .noSummand
  | summand s t more iht ihmore => exact iht.summand s ihmore
  | term first more ihfirst ihmore => exact ihfirst.term ihmore
  | noFactor => exact .noFactor
  | factor s u more ihu ihmore => exact ihu.factor s ihmore
  | minus u ih => exact ih.minus
  | plus u ih => exact ih.plus
  | unsigned p ih => exact ih.unsigned
  | base b ih => exact ih.base
  | pow b e ihb ihe => exact ihb.pow ihe
  | number value => exact .number value
  | var v => exact .var v
  | brackets e ih => exact ih.brackets

/-- Symbols have one derivation at most. So the tree of a formula is decided by its symbols. -/
theorem eq_of_words_eq {k : Nonterminal} {d d' : Derivation k} (h : d.words = d'.words) :
    d = d' := by
  have happend : d.words ++ [] = d'.words ++ [] := by rw [h]
  exact (d.decided d' (Nonterminal.endsBefore_nil k) (Nonterminal.endsBefore_nil k) happend).1

end Derivation

end UnitPlane
