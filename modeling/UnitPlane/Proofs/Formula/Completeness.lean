import UnitPlane.Proofs.Formula.Reading

/-!
# `UnitPlane.Proofs.Formula.Completeness`: every derivation is read

What the grammar derives, the readers read, if the limits are large enough: each symbol allows one
level of nesting, and the tree's nodes fit.

The induction is on the derivation. In it a phrase stands in the middle of a text, so the statement
is about what a reader does with the words of the phrase and any words after them that do not go on
with it (`Phrase.EndsBefore`). The rule for a chain takes off the last operand, while a reader
begins with the first and goes on. So what a reader does with a phrase is stated by what is left for
it to do afterwards (`goOn`), and not by a result.

* `Derives.reads`: this for every kind of phrase, one lemma for each rule.
* `Derives.parse`: the words of a whole text are read as the tree that they denote.
-/

set_option autoImplicit false

namespace UnitPlane

open Setting

namespace Phrase

/-- The reader of a kind of expression, where `levels` levels of nesting are allowed inside its
signs. -/
def reader (s : Setting) (levels : Nat) : Phrase → Reader
  | expr => s.sumOf (s.unary (levels + 1))
  | term => s.chain productOperator? (s.unary (levels + 1))
  | unary => s.unary (levels + 1)
  | power => s.power (s.primary (s.sumOf (s.unary levels))) (s.unary levels)
  | primary => s.primary (s.sumOf (s.unary levels))

/-- What a reader does once it has read the tree `t` and stands at `p`: a sum or product may go on,
while the other kinds of expression have ended. -/
def goOn (s : Setting) (levels : Nat) (t : Tree) (p : Place) : Phrase → Except Fault (Tree × Place)
  | expr =>
    Except.plain (s.chainRest sumOperator? (s.chain productOperator? (s.unary (levels + 1))) t p)
  | term => Except.plain (s.chainRest productOperator? (s.unary (levels + 1)) t p)
  | unary | power | primary => .ok (t, p)

/-- Whether a symbol changes how the last operand before it is read. An opening bracket after a name
makes it a call, and an operator may take the operand for its own. -/
def binds : Phrase → Symbol → Bool
  | _, .openBracket => true
  | primary, _ => false
  | _, .doubleStar => true
  | expr, symbol => (productOperator? symbol).isSome
  | _, _ => false

/-- The last operand of an expression ends before `rest`. -/
def EndsBefore (k : Phrase) (rest : List Token) : Prop :=
  ∀ w ∈ rest.head?, k.binds w.symbol = false

/-- At the end of the words every expression has ended. -/
theorem endsBefore_nil (k : Phrase) : k.EndsBefore [] := by
  intro w hw
  cases hw

/-- Whether an expression has ended is decided by the next symbol alone. -/
theorem endsBefore_cons {k : Phrase} {w : Token} {rest : List Token} :
    k.EndsBefore (w :: rest) ↔ k.binds w.symbol = false := by
  simp [EndsBefore]

/-- A symbol that changes an expression changes all that binds less. So an expression that has ended
for a weaker kind has ended for a stronger one. -/
theorem binds_mono {k k' : Phrase} (hk : k.strength ≤ k'.strength) {symbol : Symbol}
    (h : k.binds symbol = false) : k'.binds symbol = false := by
  cases symbol with
  | openBracket => cases k <;> exact nomatch h
  | doubleStar =>
    cases k with
    | primary =>
      cases k' with
      | primary => rfl
      | expr | term | unary | power => exact absurd hk (by decide)
    | expr | term | unary | power => exact nomatch h
  -- The operators of products only change sums, which take products as their operands.
  | star | slash =>
    cases k' with
    | expr =>
      cases k with
      | expr => exact nomatch h
      | term | unary | power | primary => exact absurd hk (by decide)
    | term | unary | power | primary => rfl
  | number | name | plus | minus | closeBracket | unsupported | stop => cases k' <;> rfl

/-- Where an expression of a weak kind has ended, one of a stronger kind has. -/
theorem EndsBefore.mono {k k' : Phrase} {rest : List Token} (h : k.EndsBefore rest)
    (hk : k.strength ≤ k'.strength) : k'.EndsBefore rest :=
  fun w hw => binds_mono hk (h w hw)

/-- A double star goes on an exponent just as it goes on a base, so where a power has ended its
exponent has. -/
theorem EndsBefore.exponent {rest : List Token} (h : power.EndsBefore rest) :
    unary.EndsBefore rest := by
  intro w hw
  rw [← h w hw]
  cases w.symbol <;> rfl

/-- Where a sum has ended, its last product has, so the reader of products stops there. -/
theorem goOn_term {s : Setting} {levels : Nat} {t : Tree} {p : Place}
    (h : Phrase.expr.EndsBefore p.words) : term.goOn s levels t p = .ok (t, p) := by
  show Except.plain (s.chainRest productOperator? (s.unary (levels + 1)) t p) = .ok (t, p)
  rw [plain_chainRest]
  obtain ⟨words, nodes⟩ := p
  cases words with
  | nil => rfl
  | cons w rest =>
    have hw := endsBefore_cons.1 h
    obtain ⟨symbol, start, stop⟩ := w
    cases symbol with
    | star | slash => exact nomatch hw
    | number | name | plus | minus | doubleStar | openBracket | closeBracket | unsupported | stop =>
        rfl

end Phrase

namespace Derives

/-- A power does not start with a sign, since neither a number, a variable nor a bracket does. -/
theorem head_of_power {k : Phrase} {ws : List Symbol} {t : Tree} (h : Derives k ws t)
    (hk : Strength.power ≤ k.strength) :
    ∃ symbol rest, ws = symbol :: rest ∧ symbol ≠ .minus ∧ symbol ≠ .plus := by
  induction h with
  | number value => exact ⟨_, _, rfl, nofun, nofun⟩
  | var v => exact ⟨_, _, rfl, nofun, nofun⟩
  | brackets h ih => exact ⟨_, _, rfl, nofun, nofun⟩
  | base h ih => exact ih (by decide)
  | pow hb he ihb ihe =>
    obtain ⟨symbol, rest, rfl, hsymbol⟩ := ihb (by decide)
    exact ⟨symbol, _, rfl, hsymbol⟩
  | unsigned | minus | plus | factor | product | summand | sum => exact absurd hk (by decide)

end Derives

/-- A variable is known by its name. -/
theorem Variable.ofName?_name (v : Variable) : Variable.ofName? v.name = some v := by
  cases v <;> rfl

namespace Setting

/-- A negation fits if its nodes are within the limit, and is counted rightly in both of its
forms. -/
theorem negate_of_le {s : Setting} {t : Tree} {n : Nat}
    (h : n + t.negated.size ≤ s.limits.maxNodes) :
    s.negate t (n + t.size) = .ok (t.negated, n + t.negated.size) := by
  cases t with
  | literal value => rfl
  | var | binary =>
    rw [negate_eq]
    simp only [Tree.negated, Tree.size] at h ⊢
    rw [addNode_of_lt (by omega), Except.ok_bind, addNode_of_lt (by omega)]
    exact congrArg Except.ok (congrArg (Prod.mk _) (by omega))

end Setting

/-- Words with the given symbols are read as the given tree, whatever ends the expression after
them. The tree's nodes are counted on top of those before, and each symbol may take one level of
nesting. -/
def Reads (s : Setting) (k : Phrase) (ws : List Symbol) (t : Tree) : Prop :=
  ∀ (levels n : Nat) (us rest : List Token), us.map Token.symbol = ws → ws.length ≤ levels + 1 →
    n + t.size ≤ s.limits.maxNodes → k.EndsBefore rest →
    Except.plain (k.reader s levels ⟨us ++ rest, n⟩) = k.goOn s levels t ⟨rest, n + t.size⟩

/-- Words whose symbols are two rows with a symbol between them fall into two rows with a word
between them, and so the parts of an expression are found among its words. -/
theorem Token.exists_of_map_eq {words : List Token} {us vs : List Symbol} {symbol : Symbol}
    (h : words.map Token.symbol = us ++ symbol :: vs) :
    ∃ us' w vs', words = us' ++ w :: vs' ∧ us'.map Token.symbol = us ∧ w.symbol = symbol ∧
      vs'.map Token.symbol = vs := by
  obtain ⟨us', right, rfl, hus', hright⟩ := List.map_eq_append_iff.1 h
  obtain ⟨w, vs', rfl, hw, hvs'⟩ := List.map_eq_cons_iff.1 hright
  exact ⟨us', w, vs', rfl, hus', hw, hvs'⟩

namespace Reads

variable {s : Setting} {us vs ws : List Symbol} {l r t : Tree}

/-- A number is read as itself, wherever it stands. -/
theorem number (s : Setting) (value : Float) :
    Reads s .primary [.number value] (.literal value) := by
  intro levels n us rest hus hlevels hn hrest
  obtain ⟨w, rfl, hw⟩ := List.map_eq_singleton_iff.1 hus
  show Except.plain (s.primary _ ⟨w :: rest, n⟩) = _
  rw [plain_primary]
  simp only [hw]
  rw [addNode_of_lt hn]
  rfl

/-- A variable is read by its name, if no bracket follows that would make it a call. -/
theorem var (s : Setting) (v : Variable) : Reads s .primary [.name v.name] (.var v) := by
  intro levels n us rest hus hlevels hn hrest
  obtain ⟨w, rfl, hw⟩ := List.map_eq_singleton_iff.1 hus
  -- A name in front of a bracket would be taken for a call.
  have hcall : rest.head?.map Token.symbol ≠ some .openBracket := by
    intro hopen
    obtain ⟨w', hw', hsymbol⟩ := Option.map_eq_some_iff.1 hopen
    exact absurd (hrest w' hw') (by rw [hsymbol]; decide)
  show Except.plain (s.primary _ ⟨w :: rest, n⟩) = _
  rw [plain_primary]
  simp only [hw]
  rw [if_neg hcall, Variable.ofName?_name]
  show (s.addNode n >>= _) = _
  rw [addNode_of_lt hn]
  rfl

/-- A bracket closes whatever expression stands before it, since no operator is a bracket. -/
theorem goOn_expr_closeBracket (s : Setting) (levels n : Nat) (t : Tree) {w : Token}
    (hw : w.symbol = .closeBracket) (rest : List Token) :
    Phrase.expr.goOn s levels t ⟨w :: rest, n⟩ = .ok (t, ⟨w :: rest, n⟩) := by
  show Except.plain (s.chainRest _ _ _ _) = _
  rw [plain_chainRest]
  simp only [hw]
  rfl

/-- An expression in brackets is read if it is read inside, one level deeper. -/
theorem brackets (hpos : 0 < ws.length) (h : Reads s .expr ws t) :
    Reads s .primary (.openBracket :: (ws ++ [.closeBracket])) t := by
  intro levels n us rest hus hlevels hn hrest
  obtain ⟨w, inside, rfl, hw, hinside⟩ := List.map_eq_cons_iff.1 hus
  obtain ⟨us, closing, rfl, hus', hclosing⟩ := List.map_eq_append_iff.1 hinside
  obtain ⟨w', rfl, hw'⟩ := List.map_eq_singleton_iff.1 hclosing
  simp only [List.length_cons, List.length_append, List.length_nil] at hlevels
  -- What is inside is one level deeper, and the two brackets make room for it.
  obtain ⟨levels, rfl⟩ : ∃ l, levels = l + 1 := ⟨levels - 1, by omega⟩
  have hinner := h levels n us (w' :: rest) hus' (by omega) hn
    (Phrase.endsBefore_cons.2 (by rw [hw']; rfl))
  rw [List.cons_append, List.append_assoc]
  show Except.plain (s.primary (Phrase.expr.reader s levels) ⟨w :: (us ++ w' :: rest), n⟩) = _
  rw [plain_primary]
  simp only [hw]
  rw [hinner, goOn_expr_closeBracket s levels _ t hw', Except.ok_bind]
  obtain ⟨symbol, start, stop⟩ := w'
  cases hw'
  rfl

/-- A power reader that has read its base stops where no double star follows. -/
theorem base (h : Reads s .primary ws t) : Reads s .power ws t := by
  intro levels n us rest hus hlevels hn hrest
  have hprimary : Except.plain (s.primary (s.sumOf (s.unary levels)) ⟨us ++ rest, n⟩)
      = .ok (t, ⟨rest, n + t.size⟩) :=
    h levels n us rest hus hlevels hn (hrest.mono (by decide))
  show Except.plain (s.power _ _ _) = .ok (t, _)
  rw [plain_power, hprimary, Except.ok_bind]
  -- What follows the power does not go on with an exponent.
  cases rest with
  | nil => rfl
  | cons w rest =>
    have hw := Phrase.endsBefore_cons.1 hrest
    obtain ⟨symbol, start, stop⟩ := w
    cases symbol with
    | doubleStar => exact nomatch hw
    | number | name | plus | minus | star | slash | openBracket | closeBracket | unsupported
    | stop => rfl

/-- A power is read if its base and its exponent are. The base stops at the double star, and the
exponent is read one level deeper. -/
theorem pow (hus : 0 < us.length) (hvs : 0 < vs.length) (hl : Reads s .primary us l)
    (hr : Reads s .unary vs r) : Reads s .power (us ++ .doubleStar :: vs) (.binary .pow l r) := by
  intro levels n words rest hwords hlevels hn hrest
  obtain ⟨us', w, vs', rfl, hus', hw, hvs'⟩ := Token.exists_of_map_eq hwords
  simp only [List.length_cons, List.length_append] at hlevels
  simp only [Tree.size] at hn
  -- The exponent is one level deeper, and the base and the double star make room for it.
  obtain ⟨levels, rfl⟩ : ∃ l, levels = l + 1 := ⟨levels - 1, by omega⟩
  have hbase : Except.plain (s.primary (s.sumOf (s.unary (levels + 1)))
      ⟨us' ++ w :: (vs' ++ rest), n⟩) = .ok (l, ⟨w :: (vs' ++ rest), n + l.size⟩) :=
    hl (levels + 1) n us' _ hus' (by omega) (by omega)
      (Phrase.endsBefore_cons.2 (by rw [hw]; rfl))
  have hexponent : Except.plain (s.unary (levels + 1) ⟨vs' ++ rest, n + l.size⟩)
      = .ok (r, ⟨rest, n + l.size + r.size⟩) :=
    hr levels _ vs' rest hvs' (by omega) (by omega) hrest.exponent
  show Except.plain (s.power _ _ _) = .ok (_, _)
  rw [plain_power, List.append_assoc, List.cons_append, hbase, Except.ok_bind]
  obtain ⟨symbol, start, stop⟩ := w
  cases hw
  show (Except.plain (s.unary (levels + 1) _) >>= _) = _
  rw [hexponent, Except.ok_bind]
  show (s.addNode (n + l.size + r.size) >>= _) = _
  rw [addNode_of_lt (by omega)]
  exact congrArg (fun m => Except.ok (_, Place.mk rest m)) (by simp only [Tree.size]; omega)

/-- An operand without a sign in front is read as a power is. -/
theorem unsigned (hhead : ∃ symbol rest, ws = symbol :: rest ∧ symbol ≠ .minus ∧ symbol ≠ .plus)
    (h : Reads s .power ws t) : Reads s .unary ws t := by
  intro levels n us rest hus hlevels hn hrest
  have hpower : Except.plain (Phrase.power.reader s levels ⟨us ++ rest, n⟩)
      = .ok (t, ⟨rest, n + t.size⟩) :=
    h levels n us rest hus hlevels hn (hrest.mono (by decide))
  show Except.plain (s.unary (levels + 1) _) = .ok (t, _)
  rw [plain_unary_succ, ← hpower]
  -- The first word decides whether a sign is read, and it is none.
  obtain ⟨symbol, symbols, rfl, hminus, hplus⟩ := hhead
  obtain ⟨w, us, rfl, hw, -⟩ := List.map_eq_cons_iff.1 hus
  obtain ⟨symbol, start, stop⟩ := w
  cases hw
  cases symbol with
  | minus => exact absurd rfl hminus
  | plus => exact absurd rfl hplus
  | number | name | star | doubleStar | slash | openBracket | closeBracket | unsupported | stop =>
      rfl

/-- What follows a minus sign is read one level deeper and then negated. -/
theorem minus (hpos : 0 < ws.length) (h : Reads s .unary ws t) :
    Reads s .unary (.minus :: ws) t.negated := by
  intro levels n us rest hus hlevels hn hrest
  obtain ⟨⟨symbol, start, stop⟩, us, rfl, hw, hus'⟩ := List.map_eq_cons_iff.1 hus
  cases hw
  rw [List.length_cons] at hlevels
  -- The sign takes one level, and the operand is shorter by the sign.
  obtain ⟨levels, rfl⟩ : ∃ l, levels = l + 1 := ⟨levels - 1, by omega⟩
  have hoperand : Except.plain (s.unary (levels + 1) ⟨us ++ rest, n⟩)
      = .ok (t, ⟨rest, n + t.size⟩) :=
    h levels n us rest hus' (by omega) (by have := t.size_le_size_negated; omega) hrest
  show Except.plain (s.unary (levels + 1 + 1) _) = .ok (_, _)
  rw [plain_unary_succ]
  show (Except.plain (s.unary (levels + 1) ⟨us ++ rest, n⟩) >>= _) = _
  rw [hoperand, Except.ok_bind, negate_of_le hn]
  rfl

/-- What follows a plus sign is read one level deeper and passed on as it is. -/
theorem plus (hpos : 0 < ws.length) (h : Reads s .unary ws t) :
    Reads s .unary (.plus :: ws) t := by
  intro levels n us rest hus hlevels hn hrest
  obtain ⟨⟨symbol, start, stop⟩, us, rfl, hw, hus'⟩ := List.map_eq_cons_iff.1 hus
  cases hw
  rw [List.length_cons] at hlevels
  obtain ⟨levels, rfl⟩ : ∃ l, levels = l + 1 := ⟨levels - 1, by omega⟩
  show Except.plain (s.unary (levels + 1 + 1) _) = .ok (_, _)
  rw [plain_unary_succ]
  exact h levels n us rest hus' (by omega) hn hrest

/-- A signed operand is a product of one factor, and the reader goes on from it as from any
product. -/
theorem factor (h : Reads s .unary ws t) : Reads s .term ws t := by
  intro levels n us rest hus hlevels hn hrest
  have hfactor : Except.plain (s.unary (levels + 1) ⟨us ++ rest, n⟩)
      = .ok (t, ⟨rest, n + t.size⟩) :=
    h levels n us rest hus hlevels hn (hrest.mono (by decide))
  show Except.plain (s.chain _ _ _) = _
  rw [plain_chain, hfactor]
  rfl

/-- An operand in the middle of a chain is read, and the chain goes on with the node that it
makes. -/
theorem chainRest_cons {operator? : Symbol → Option Operator} {operand : Reader} {op : Operator}
    {w : Token} {n : Nat} {words rest : List Token} (hop : operator? w.symbol = some op)
    (hr : Except.plain (operand ⟨words, n⟩) = .ok (r, ⟨rest, n + r.size⟩))
    (hn : n + r.size < s.limits.maxNodes) :
    Except.plain (s.chainRest operator? operand l ⟨w :: words, n⟩)
      = Except.plain (s.chainRest operator? operand (.binary op l r) ⟨rest, n + r.size + 1⟩) := by
  rw [plain_chainRest]
  simp only [hop]
  rw [hr, Except.ok_bind]
  show (s.addNode (n + r.size) >>= _) = _
  rw [addNode_of_lt hn]
  rfl

/-- A product is read if its operands are: the left part first, and then the reader goes on with one
more operand. -/
theorem product {symbol : Symbol} {op : Operator} (hop : productOperator? symbol = some op)
    (hus : 0 < us.length) (hl : Reads s .term us l) (hr : Reads s .unary vs r) :
    Reads s .term (us ++ symbol :: vs) (.binary op l r) := by
  intro levels n words rest hwords hlevels hn hrest
  obtain ⟨us', w, vs', rfl, hus', hw, hvs'⟩ := Token.exists_of_map_eq hwords
  simp only [List.length_cons, List.length_append] at hlevels
  simp only [Tree.size] at hn
  -- The product on the left is read first, and the reader stands at the operator.
  have hleft := hl levels n us' (w :: (vs' ++ rest)) hus' (by omega) (by omega)
    (Phrase.endsBefore_cons.2 (by rw [hw]; cases symbol <;> first | rfl | cases hop))
  have hfactor : Except.plain (s.unary (levels + 1) ⟨vs' ++ rest, n + l.size⟩)
      = .ok (r, ⟨rest, n + l.size + r.size⟩) :=
    hr levels _ vs' rest hvs' (by omega) (by omega) (hrest.mono (by decide))
  rw [List.append_assoc, List.cons_append, hleft]
  show Except.plain (s.chainRest _ _ _ _) = Except.plain (s.chainRest _ _ _ _)
  rw [chainRest_cons (by rw [hw, hop]) hfactor (by omega)]
  congr 3
  simp only [Tree.size]
  omega

/-- A product is a sum of one summand, once it has ended. -/
theorem summand (h : Reads s .term ws t) : Reads s .expr ws t := by
  intro levels n us rest hus hlevels hn hrest
  have hterm := h levels n us rest hus hlevels hn (hrest.mono (by decide))
  rw [Phrase.goOn_term hrest] at hterm
  show Except.plain (s.chain _ (Phrase.term.reader s levels) _) = _
  rw [plain_chain, hterm]
  rfl

/-- A sum is read if its operands are, in the same way as a product one level up. -/
theorem sum {symbol : Symbol} {op : Operator} (hop : sumOperator? symbol = some op)
    (hus : 0 < us.length) (hl : Reads s .expr us l) (hr : Reads s .term vs r) :
    Reads s .expr (us ++ symbol :: vs) (.binary op l r) := by
  intro levels n words rest hwords hlevels hn hrest
  obtain ⟨us', w, vs', rfl, hus', hw, hvs'⟩ := Token.exists_of_map_eq hwords
  simp only [List.length_cons, List.length_append] at hlevels
  simp only [Tree.size] at hn
  have hleft := hl levels n us' (w :: (vs' ++ rest)) hus' (by omega) (by omega)
    (Phrase.endsBefore_cons.2 (by rw [hw]; cases symbol <;> first | rfl | cases hop))
  -- The right operand is a product that has ended, so its reader stops there.
  have hterm := hr levels (n + l.size) vs' rest hvs' (by omega) (by omega) (hrest.mono (by decide))
  rw [Phrase.goOn_term hrest] at hterm
  rw [List.append_assoc, List.cons_append, hleft]
  show Except.plain (s.chainRest _ (Phrase.term.reader s levels) _ _)
    = Except.plain (s.chainRest _ _ _ _)
  rw [chainRest_cons (by rw [hw, hop]) hterm (by omega)]
  congr 3
  simp only [Tree.size]
  omega

end Reads

/-- What the grammar derives is read. There is one case for each rule of the grammar. -/
theorem Derives.reads {k : Phrase} {ws : List Symbol} {t : Tree} (h : Derives k ws t)
    (s : Setting) :
    Reads s k ws t := by
  -- The induction is on the derivation, with one lemma for each alternative.
  induction h with
  | number value => exact .number s value
  | var v => exact .var s v
  | brackets h ih => exact ih.brackets h.length_pos
  | base h ih => exact ih.base
  | pow hb he ihb ihe => exact ihb.pow hb.length_pos he.length_pos ihe
  | unsigned h ih => exact ih.unsigned (h.head_of_power (by decide))
  | minus h ih => exact ih.minus h.length_pos
  | plus h ih => exact ih.plus h.length_pos
  | factor h ih => exact ih.factor
  | product hop hl hr ihl ihr => exact ihl.product hop hl.length_pos ihr
  | summand h ih => exact ih.summand
  | sum hop hl hr ihl ihr => exact ihl.sum hop hl.length_pos ihr

/-- A text whose symbols derive a tree is read as that tree, if the limits are large enough: each
symbol may be one level of nesting. Nothing is left after the tree, so the text as a whole is
read. -/
theorem Derives.parse {limits : Limits} {ts : Tokens} {t : Tree}
    (h : Derives .expr (ts.words.map Token.symbol) t) (hdepth : t.depth ≤ limits.maxDepth)
    (hlevels : ts.words.length ≤ limits.maxDepth) (hnodes : t.size ≤ limits.maxNodes) :
    ts.parse limits = .ok t := by
  have hpos := h.length_pos
  rw [List.length_map] at hpos
  -- There is at least one word, so at least one level is allowed.
  obtain ⟨levels, hl⟩ : ∃ l, limits.maxDepth = l + 1 := ⟨limits.maxDepth - 1, by omega⟩
  have hread := h.reads ⟨limits, ts.length⟩ levels 0 ts.words [] rfl
    (by rw [List.length_map]; omega) (by simpa using hnodes) (Phrase.endsBefore_nil _)
  have hexpr : Except.plain (expr ⟨limits, ts.length⟩ ⟨ts.words, 0⟩) = .ok (t, ⟨[], t.size⟩) := by
    have hstop : Phrase.expr.goOn ⟨limits, ts.length⟩ levels t ⟨[], 0 + t.size⟩
        = .ok (t, ⟨[], t.size⟩) := by
      show Except.plain (chainRest _ _ _ _ _) = _
      rw [plain_chainRest, Nat.zero_add]
    rw [List.append_nil, hstop] at hread
    show Except.plain (sumOf _ (unary _ limits.maxDepth) _) = _
    rw [hl]
    exact hread
  obtain ⟨hshorter, hexpr⟩ := Except.plain_eq_ok.1 hexpr
  have hwords : ts.words.isEmpty = false := by
    rw [List.isEmpty_eq_false_iff]
    exact List.ne_nil_of_length_pos hpos
  unfold Tokens.parse
  simp only [hwords, hexpr]
  show (if t.depth ≤ limits.maxDepth then Except.ok t else _) = .ok t
  exact if_pos hdepth

end UnitPlane
