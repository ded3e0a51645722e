import UnitPlane.Proofs.Formula.Grammar
import UnitPlane.Proofs.Formula.Soundness

/-!
# `UnitPlane.Proofs.Formula.Due`: what may come next in a formula

Read from the left, the symbols of a formula are operands with operators between them, and signs and
brackets do not change that. So the symbols that may come next depend on two things only: whether an
operand or an operator is due, and how many brackets are open. `Due` is this state and `Due.after`
runs through symbols with it.

* `Derives.after_eq`: every formula runs through, from an operand due to an operator due.
* `Expression.of_after_eq`: whatever runs through in this way is a formula.
* `Expression.append_completion`: whatever runs at all can be completed, with an operand if one is
  due and with the brackets that are missing.

So the symbols that some formula begins with are those that run, and the first one that does not run
is the one at which a text stops being the beginning of a formula.
-/

set_option autoImplicit false

namespace UnitPlane

/-- What is due, and how many brackets are open. -/
inductive Due where
  | operand (opened : Nat)
  | operator (opened : Nat)
  /-- Nothing more, after the end of the text. -/
  | nothing
deriving DecidableEq

namespace Due

/-- What is due after a symbol, if the symbol may come next. -/
def next : Due → Symbol → Option Due
  | operand n, .number _ => some (operator n)
  | operand n, .name name => (Variable.ofName? name).map fun _ => operator n
  -- A sign leaves the operand due.
  | operand n, .plus => some (operand n)
  | operand n, .minus => some (operand n)
  | operand n, .openBracket => some (operand (n + 1))
  | operator n, .plus => some (operand n)
  | operator n, .minus => some (operand n)
  | operator n, .star => some (operand n)
  | operator n, .slash => some (operand n)
  | operator n, .doubleStar => some (operand n)
  -- Only an open bracket is closed, and the text ends only where none is open.
  | operator (n + 1), .closeBracket => some (operator n)
  | operator 0, .stop => some nothing
  | _, _ => none

/-- What is due after a row of symbols, if they may come one after another. There is nothing due
after a symbol that may not come. -/
def after (d : Due) : List Symbol → Option Due
  | [] => some d
  | s :: ss => (d.next s).bind fun d => d.after ss

/-- The symbols of the shortest formula text that is still missing. -/
def completion : Due → List Symbol
  | operand n => .name Variable.x.name :: List.replicate n .closeBracket
  | operator n => List.replicate n .closeBracket
  | nothing => []

variable {d d' d'' : Due} {s : Symbol} {us vs : List Symbol}

/-- Two rows of symbols run one after the other, the second from what is due after the first. -/
theorem after_append (d : Due) (us vs : List Symbol) :
    d.after (us ++ vs) = (d.after us).bind fun d => d.after vs := by
  induction us generalizing d with
  | nil => rfl
  | cons s us ih =>
    rw [List.cons_append, after, after]
    cases d.next s with
    | none => rfl
    | some d' => exact ih d'

/-- Once the first row has run, what is due after both rows is due after the second. -/
theorem after_append_of_eq (h : d.after us = some d') (vs : List Symbol) :
    d.after (us ++ vs) = d'.after vs := by
  rw [after_append, h]
  rfl

/-- Once a symbol has been taken, what is due after the rest is due from there. -/
theorem after_cons_of_eq (h : d.next s = some d') (vs : List Symbol) :
    d.after (s :: vs) = d'.after vs := by
  rw [after, h]
  rfl

/-- Open brackets can all be closed, one after another, where an operator is due. -/
theorem after_brackets (n : Nat) :
    (operator n).after (List.replicate n .closeBracket) = some (operator 0) := by
  induction n with
  | zero => rfl
  | succ n ih => exact ih

/-- What is missing can follow: an operand if one is due, and then a closing bracket for each that
is open. -/
theorem after_completion (h : d ≠ nothing) : d.after d.completion = some (operator 0) := by
  cases d with
  | operand n => exact after_brackets n
  | operator n => exact after_brackets n
  | nothing => exact absurd rfl h

end Due

/-! ### Formulas run -/

/-- Behind an operator of products an operand is due. -/
theorem next_of_productOperator? {s : Symbol} {op : Operator}
    (h : Setting.productOperator? s = some op) (n : Nat) :
    (Due.operator n).next s = some (.operand n) := by
  cases s <;> first | rfl | cases h

/-- Behind an operator of sums an operand is due. -/
theorem next_of_sumOperator? {s : Symbol} {op : Operator}
    (h : Setting.sumOperator? s = some op) (n : Nat) :
    (Due.operator n).next s = some (.operand n) := by
  cases s <;> first | rfl | cases h

/-- An operand, an operator and an operand are an operand again, in any number of brackets. -/
theorem Due.after_binary {us vs : List Symbol} {s : Symbol} {n : Nat}
    (hu : (operand n).after us = some (operator n))
    (hs : (operator n).next s = some (operand n)) (hv : (operand n).after vs = some (operator n)) :
    (operand n).after (us ++ s :: vs) = some (operator n) := by
  rw [after_append_of_eq hu, after_cons_of_eq hs, hv]

/-- An expression takes the place of an operand, inside any number of brackets. In front of it an
operand is due, and behind it an operator. -/
theorem Derives.after_eq {k : Phrase} {ws : List Symbol} {t : Tree} (h : Derives k ws t) (n : Nat) :
    (Due.operand n).after ws = some (.operator n) := by
  -- The number of open brackets changes on the way into a bracket.
  induction h generalizing n with
  | number value => rfl
  | var v => cases v <;> rfl
  | brackets h ih =>
    have hopen : (Due.operand n).next .openBracket = some (.operand (n + 1)) := rfl
    rw [Due.after_cons_of_eq hopen, Due.after_append_of_eq (ih (n + 1))]
    rfl
  | base _ ih | unsigned _ ih | factor _ ih | summand _ ih => exact ih n
  | minus _ ih | plus _ ih => exact ih n
  | pow _ _ ihb ihe => exact Due.after_binary (ihb n) rfl (ihe n)
  | product hop _ _ ihl ihr =>
      exact Due.after_binary (ihl n) (next_of_productOperator? hop n) (ihr n)
  | sum hop _ _ ihl ihr => exact Due.after_binary (ihl n) (next_of_sumOperator? hop n) (ihr n)

/-! ### Symbols that run are formulas -/

/-- The symbols are a formula. -/
def Expression (ws : List Symbol) : Prop := ∃ t, Derives .expr ws t

/-- The kind of expression that is left when a sign is put in front. Powers with a sign in front are
no powers any more. -/
def Phrase.signed : Phrase → Phrase
  | expr => expr
  | term => term
  | _ => unary

/-- The kind of expression that is left when a power is put behind. -/
def Phrase.raised : Phrase → Phrase
  | primary => power
  | k => k

namespace Derives

variable {k : Phrase} {us vs ws : List Symbol} {t e : Tree}

/-- A sign in front of an expression belongs to its first operand, and leaves an expression of
nearly the same kind. -/
theorem sign {s : Symbol} (hs : s = .minus ∨ s = .plus) (h : Derives k ws t) :
    ∃ t', Derives k.signed (s :: ws) t' := by
  have hunary {ws : List Symbol} {t : Tree} (h : Derives .unary ws t) :
      ∃ t', Derives .unary (s :: ws) t' := by
    rcases hs with rfl | rfl
    · exact ⟨_, h.minus⟩
    · exact ⟨_, h.plus⟩
  -- Sums and products hand the sign to their left operand; everything else takes it as a whole.
  induction h with
  | number value => exact hunary (.unsigned (.base (.number value)))
  | var v => exact hunary (.unsigned (.base (.var v)))
  | brackets h => exact hunary (.unsigned (.base h.brackets))
  | base h => exact hunary (.unsigned (.base h))
  | pow hb he => exact hunary (.unsigned (hb.pow he))
  | unsigned h => exact hunary (.unsigned h)
  | minus h => exact hunary h.minus
  | plus h => exact hunary h.plus
  | factor h =>
    obtain ⟨t', h'⟩ := hunary h
    exact ⟨t', h'.factor⟩
  | product hop _ hr ih =>
    obtain ⟨t', h'⟩ := ih
    exact ⟨_, .product hop h' hr⟩
  | summand _ ih =>
    obtain ⟨t', h'⟩ := ih
    exact ⟨t', h'.summand⟩
  | sum hop _ hr ih =>
    obtain ⟨t', h'⟩ := ih
    exact ⟨_, .sum hop h' hr⟩

/-- An exponent behind an expression belongs to its last operand, which takes it as its own or hands
it on. -/
theorem exponent (h : Derives k us t) (he : Derives .unary vs e) :
    ∃ t', Derives k.raised (us ++ .doubleStar :: vs) t' := by
  -- The exponent is handed to the right operand, and by a power to its own exponent.
  induction h with
  | number value => exact ⟨_, (number value).pow he⟩
  | var v => exact ⟨_, (var v).pow he⟩
  | brackets h => exact ⟨_, h.brackets.pow he⟩
  | base h ih => exact ih
  | pow hb _ _ ih =>
    obtain ⟨t', h'⟩ := ih
    rw [List.append_assoc, List.cons_append]
    exact ⟨_, hb.pow h'⟩
  | unsigned _ ih =>
    obtain ⟨t', h'⟩ := ih
    exact ⟨t', h'.unsigned⟩
  | minus _ ih =>
    obtain ⟨t', h'⟩ := ih
    exact ⟨_, h'.minus⟩
  | plus _ ih =>
    obtain ⟨t', h'⟩ := ih
    exact ⟨_, h'.plus⟩
  | factor _ ih =>
    obtain ⟨t', h'⟩ := ih
    exact ⟨t', h'.factor⟩
  | product hop hl _ _ ih =>
    obtain ⟨t', h'⟩ := ih
    rw [List.append_assoc, List.cons_append]
    exact ⟨_, .product hop hl h'⟩
  | summand _ ih =>
    obtain ⟨t', h'⟩ := ih
    exact ⟨t', h'.summand⟩
  | sum hop hl _ _ ih =>
    obtain ⟨t', h'⟩ := ih
    rw [List.append_assoc, List.cons_append]
    exact ⟨_, .sum hop hl h'⟩

end Derives

/-- The symbols that stand between two operands. -/
def Symbol.Joins (s : Symbol) : Prop :=
  s = .doubleStar ∨ (∃ op, Setting.productOperator? s = some op) ∨
    ∃ op, Setting.sumOperator? s = some op

namespace Expression

variable {us vs ws : List Symbol} {s : Symbol} {e t : Tree}

/-- A number is a formula. -/
theorem number (value : Float) : Expression [.number value] := ⟨_, (Derives.number value).toExpr⟩

/-- The name of a variable is a formula. -/
theorem name {name : String} {v : Variable} (h : Variable.ofName? name = some v) :
    Expression [.name name] := by
  rw [Variable.name_of_ofName? h]
  exact ⟨_, (Derives.var v).toExpr⟩

/-- A formula in brackets is a formula. -/
theorem brackets (h : Expression ws) : Expression (.openBracket :: (ws ++ [.closeBracket])) := by
  obtain ⟨t, h⟩ := h
  exact ⟨t, h.brackets.toExpr⟩

/-- A formula with a sign in front is a formula. -/
theorem sign (hs : s = .minus ∨ s = .plus) (h : Expression ws) : Expression (s :: ws) := by
  obtain ⟨t, h⟩ := h
  exact h.sign hs

/-- A factor behind an expression belongs to its last term, so an expression with one more factor is
one. -/
theorem factor {op : Operator} (hop : Setting.productOperator? s = some op) (h : Expression us)
    (he : Derives .unary vs e) : Expression (us ++ s :: vs) := by
  obtain ⟨t, h⟩ := h
  cases h with
  | summand h => exact ⟨_, .summand (.product hop h he)⟩
  | sum hop' hl hr =>
    rw [List.append_assoc, List.cons_append]
    exact ⟨_, .sum hop' hl (.product hop hr he)⟩

/-- An expression with one more term behind it is an expression. -/
theorem summand {op : Operator} (hop : Setting.sumOperator? s = some op) (h : Expression us)
    (he : Derives .term vs e) : Expression (us ++ s :: vs) := by
  obtain ⟨t, h⟩ := h
  exact ⟨_, .sum hop h he⟩

/-- Any operator may stand before one more operand, whichever part of the expression in front the
operand then belongs to. -/
theorem operand (hs : s.Joins) (h : Expression us) (he : Derives .unary vs e) :
    Expression (us ++ s :: vs) := by
  rcases hs with rfl | ⟨op, hop⟩ | ⟨op, hop⟩
  · obtain ⟨t, h⟩ := h
    exact h.exponent he
  · exact h.factor hop he
  · exact h.summand hop he.factor

/-- An expression of any kind may follow. Its operands are added one after another, each to what has
become of the expression in front. -/
theorem join_derives {k : Phrase} (hs : s.Joins) (h : Expression us) (hw : Derives k ws t) :
    Expression (us ++ s :: ws) := by
  -- Up to a unary it is one operand. Products and sums go on as they did, behind a longer
  -- expression.
  induction hw with
  | number value => exact h.operand hs (.unsigned (.base (.number value)))
  | var v => exact h.operand hs (.unsigned (.base (.var v)))
  | brackets hw => exact h.operand hs (.unsigned (.base hw.brackets))
  | base hw => exact h.operand hs (.unsigned (.base hw))
  | pow hb he => exact h.operand hs (.unsigned (hb.pow he))
  | unsigned hw => exact h.operand hs (.unsigned hw)
  | minus hw => exact h.operand hs hw.minus
  | plus hw => exact h.operand hs hw.plus
  | factor hw => exact h.operand hs hw
  | product hop _ hr ihl =>
    have hjoined := ihl.factor hop hr
    rwa [List.append_assoc, List.cons_append] at hjoined
  | summand _ ih => exact ih
  | sum hop _ hr ihl =>
    have hjoined := ihl.summand hop hr
    rwa [List.append_assoc, List.cons_append] at hjoined

/-- Any operator may stand between two expressions. The tree is not that of the two, since operators
that bind more strongly group first. -/
theorem join (hs : s.Joins) (h : Expression us) (hw : Expression ws) :
    Expression (us ++ s :: ws) := by
  obtain ⟨t, hw⟩ := hw
  exact h.join_derives hs hw

end Expression

/-- The symbols that close `opened` brackets behind an operand, with further operands in between. In
what stands between two closing brackets no bracket is left open. -/
inductive Closes : (opened : Nat) → List Symbol → Prop where
  | nil : Closes 0 []
  | join {n : Nat} {s : Symbol} {ws vs : List Symbol} (hs : s.Joins) (hw : Expression ws)
      (h : Closes n vs) : Closes n (s :: (ws ++ vs))
  | close {n : Nat} {vs : List Symbol} (h : Closes n vs) : Closes (n + 1) (.closeBracket :: vs)

namespace Closes

variable {n : Nat} {us vs : List Symbol}

/-- Without open brackets the operands belong to the expression in front of them, and make a longer
one. -/
theorem expression (h : Closes 0 vs) (hu : Expression us) : Expression (us ++ vs) := by
  obtain ⟨n, hn⟩ : ∃ n, n = 0 := ⟨0, rfl⟩
  rw [← hn] at h
  induction h generalizing us with
  | nil => rwa [List.append_nil]
  | join hs hw _ ih =>
    have hjoined := ih (hu.join hs hw) hn
    rwa [List.append_assoc, List.cons_append] at hjoined
  | close => cases hn

/-- The operands in front of the first closing bracket belong to the expression inside the brackets,
and what follows closes one bracket less. -/
theorem exists_inner (h : Closes (n + 1) vs) (hu : Expression us) :
    ∃ ws rest, us ++ vs = ws ++ .closeBracket :: rest ∧ Expression ws ∧ Closes n rest := by
  obtain ⟨m, hm⟩ : ∃ m, m = n + 1 := ⟨n + 1, rfl⟩
  rw [← hm] at h
  induction h generalizing us with
  | nil => cases hm
  | join hs hw _ ih =>
    obtain ⟨ws, rest, happend, hws, hrest⟩ := ih (hu.join hs hw) hm
    rw [List.append_assoc, List.cons_append] at happend
    exact ⟨ws, rest, happend, hws, hrest⟩
  | @close m vs h =>
    cases hm
    exact ⟨us, vs, rfl, hu, h⟩

end Closes

namespace Due

/-- The symbols that complete a formula from here on. After the end of the text there is nothing
that could. -/
def Completes : Due → List Symbol → Prop
  | operand n, vs => ∃ ws rest, vs = ws ++ rest ∧ Expression ws ∧ Closes n rest
  | operator n, vs => Closes n vs
  | nothing, _ => False

/-- Where an operand is due, a number or a name is one, and a sign or an opening bracket makes one
of what completes the formula after it. -/
theorem Completes.cons_operand {d' : Due} {n : Nat} {s : Symbol} {vs : List Symbol}
    (hnext : (operand n).next s = some d') (h : d'.Completes vs) :
    (operand n).Completes (s :: vs) := by
  cases s with
  | number value =>
    cases hnext
    exact ⟨[.number value], vs, rfl, .number value, h⟩
  | name name =>
    obtain ⟨v, hv, rfl⟩ := Option.map_eq_some_iff.1 hnext
    exact ⟨[.name name], vs, rfl, .name hv, h⟩
  | plus =>
    cases hnext
    obtain ⟨ws, rest, rfl, hw, hrest⟩ := h
    exact ⟨.plus :: ws, rest, rfl, hw.sign (.inr rfl), hrest⟩
  | minus =>
    cases hnext
    obtain ⟨ws, rest, rfl, hw, hrest⟩ := h
    exact ⟨.minus :: ws, rest, rfl, hw.sign (.inl rfl), hrest⟩
  | openBracket =>
    cases hnext
    obtain ⟨ws, rest, rfl, hw, hrest⟩ := h
    -- The bracket is closed somewhere in the rest, and up to there it is one operand.
    obtain ⟨ws', rest', happend, hw', hrest'⟩ := hrest.exists_inner hw
    refine ⟨.openBracket :: (ws' ++ [.closeBracket]), rest', ?_, hw'.brackets, hrest'⟩
    rw [happend, List.cons_append, List.append_assoc, List.singleton_append]
  | star | doubleStar | slash | closeBracket | unsupported | stop => cases hnext

/-- Where an operator is due, it joins what completes the formula after it to what stands in front,
a closing bracket closes an open one, and the end of the text closes none. -/
theorem Completes.cons_operator {d' : Due} {n : Nat} {s : Symbol} {vs : List Symbol}
    (hnext : (operator n).next s = some d') (h : d'.Completes vs) :
    (operator n).Completes (s :: vs) := by
  have hjoins (hs : s.Joins) (hn : d' = .operand n) : Closes n (s :: vs) := by
    subst hn
    obtain ⟨ws, rest, rfl, hw, hrest⟩ := h
    exact .join hs hw hrest
  cases s with
  | plus => exact hjoins (.inr (.inr ⟨_, rfl⟩)) (Option.some.inj hnext).symm
  | minus => exact hjoins (.inr (.inr ⟨_, rfl⟩)) (Option.some.inj hnext).symm
  | star => exact hjoins (.inr (.inl ⟨_, rfl⟩)) (Option.some.inj hnext).symm
  | slash => exact hjoins (.inr (.inl ⟨_, rfl⟩)) (Option.some.inj hnext).symm
  | doubleStar => exact hjoins (.inl rfl) (Option.some.inj hnext).symm
  | closeBracket =>
    cases n with
    | zero => cases hnext
    | succ n =>
      cases hnext
      exact .close h
  | stop =>
    cases n with
    | zero =>
      cases hnext
      exact h.elim
    | succ n => cases hnext
  | number | name | openBracket | unsupported => cases hnext

/-- A symbol that may come next, in front of what completes a formula after it, completes one from
here on. -/
theorem Completes.cons {d d' : Due} {s : Symbol} {vs : List Symbol} (hnext : d.next s = some d')
    (h : d'.Completes vs) : d.Completes (s :: vs) := by
  cases d with
  | operand n => exact cons_operand hnext h
  | operator n => exact cons_operator hnext h
  | nothing => cases hnext

/-- From here on, symbols that run to the end of a formula complete one. The symbols are put in
front one by one, from the last to the first. -/
theorem completes_of_after_eq {d : Due} {vs : List Symbol} (h : d.after vs = some (operator 0)) :
    d.Completes vs := by
  induction vs generalizing d with
  | nil =>
    cases h
    exact .nil
  | cons s vs ih =>
    obtain ⟨d', hnext, h⟩ := Option.bind_eq_some_iff.1 h
    exact .cons hnext (ih h)

end Due

/-- Symbols that run from an operand due to an operator due, with all brackets closed, are a
formula. Which tree they denote is decided by the grammar alone. -/
theorem Expression.of_after_eq {ws : List Symbol}
    (h : (Due.operand 0).after ws = some (.operator 0)) : Expression ws := by
  obtain ⟨us, vs, rfl, hu, hv⟩ := Due.completes_of_after_eq h
  exact hv.expression hu

/-- Symbols that run are the beginning of a formula, because what is missing is known from what is
due. -/
theorem Expression.append_completion {us : List Symbol} {d : Due}
    (h : (Due.operand 0).after us = some d) (hd : d ≠ .nothing) :
    Expression (us ++ d.completion) := by
  refine .of_after_eq ?_
  rw [Due.after_append_of_eq h, Due.after_completion hd]

end UnitPlane
