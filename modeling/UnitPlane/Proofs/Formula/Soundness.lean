import UnitPlane.Proofs.Formula.Readers

/-!
# `UnitPlane.Proofs.Formula.Soundness`: whatever is read is derived

A reader that succeeds has read words that the grammar derives, with the tree that they denote. This
is a property that each rule for readers keeps (`Sound.keeps`), so all of them have it. In a chain
of operands, what has been read so far is part of the statement: it is derived too, and the chain
goes on from it.

The derivation has no place for the numbers of nodes and levels. The readers count them, and may
refuse for them, but they do not change what is read.

* `Tokens.derives_of_parse`: a tree read from words is one that the words denote.
-/

set_option autoImplicit false

namespace UnitPlane

open Setting

/-- Whatever the reader returns, the words it has read derive, as an expression of the kind `k`. A
reader that refuses is sound as well. -/
def Sound (read : Reader) (k : Phrase) : Prop :=
  ∀ (p q : Place) (t : Tree), Except.plain (read p) = .ok (t, q) →
    ∃ us, p.words = us ++ q.words ∧ Derives k (us.map Token.symbol) t

/-- The name of a variable that was found is the name it was looked up by, so the word in the text
is the one that the grammar has. -/
theorem Variable.name_of_ofName? {name : String} {v : Variable}
    (h : Variable.ofName? name = some v) : name = v.name := by
  unfold Variable.ofName? at h
  split at h
  next hx =>
    cases h
    exact hx
  split at h
  next hy =>
    cases h
    exact hy
  · cases h

/-- A negation that succeeds returns the tree negated, with or without a new node. Only the count of
nodes depends on which it is. -/
theorem Setting.eq_negated_of_negate {s : Setting} {t t' : Tree} {nodes nodes' : Nat}
    (h : s.negate t nodes = .ok (t', nodes')) : t' = t.negated := by
  rw [negate_eq] at h
  split at h
  · cases h
    rfl
  · obtain ⟨n, -, h⟩ := Except.bind_eq_ok.1 h
    obtain ⟨n', -, h⟩ := Except.bind_eq_ok.1 h
    cases h
    rfl

namespace Sound

variable {s : Setting}

/-- A primary that was read is one: a number or a name by its own word, and an expression in
brackets by what was read inside. -/
theorem primary {expr : Reader} (h : Sound expr .expr) : Sound (s.primary expr) .primary := by
  intro p q t hread
  rw [plain_primary] at hread
  split at hread
  · cases hread
  next w rest hp =>
    rw [hp]
    split at hread
    next value hw =>
      obtain ⟨nodes, -, hread⟩ := Except.bind_eq_ok.1 hread
      cases hread
      exact ⟨[w], rfl, by rw [List.map_singleton, hw]; exact .number value⟩
    next name hw =>
      split at hread
      · cases hread
      split at hread
      next v hv =>
        obtain ⟨nodes, -, hread⟩ := Except.bind_eq_ok.1 hread
        cases hread
        refine ⟨[w], rfl, ?_⟩
        rw [List.map_singleton, hw, Variable.name_of_ofName? hv]
        exact .var v
      · cases hread
    next hw =>
      obtain ⟨⟨inner, r⟩, hinner, hread⟩ := Except.bind_eq_ok.1 hread
      obtain ⟨us, hus, hd⟩ := h _ _ _ hinner
      dsimp only at hread hus
      -- Only a closing bracket ends what was opened.
      split at hread
      next start stop rest' hr =>
        cases hread
        refine ⟨w :: (us ++ [⟨.closeBracket, start, stop⟩]), ?_, ?_⟩
        · rw [hus, hr]
          simp
        · rw [List.map_cons, List.map_append, hw]
          exact hd.brackets
      · cases hread
    · cases hread

/-- A power that was read is one, and so is a base without an exponent. -/
theorem power {primary unary : Reader} (hp : Sound primary .primary) (hu : Sound unary .unary) :
    Sound (s.power primary unary) .power := by
  intro p q t hread
  rw [plain_power] at hread
  obtain ⟨⟨base, r⟩, hbase, hread⟩ := Except.bind_eq_ok.1 hread
  obtain ⟨us, hus, hb⟩ := hp _ _ _ hbase
  dsimp only at hread
  -- A double star after the base starts an exponent, and without one the base is all.
  split at hread
  next start stop rest hr =>
    obtain ⟨⟨exponent, r'⟩, hexponent, hread⟩ := Except.bind_eq_ok.1 hread
    obtain ⟨vs, hvs, he⟩ := hu _ _ _ hexponent
    obtain ⟨nodes, -, hread⟩ := Except.bind_eq_ok.1 hread
    cases hread
    refine ⟨us ++ ⟨.doubleStar, start, stop⟩ :: vs, ?_, ?_⟩
    · rw [hus, hr, show rest = vs ++ r'.words from hvs]
      simp
    · rw [List.map_append, List.map_cons]
      exact hb.pow he
  · cases hread
    exact ⟨us, hus, hb.base⟩

/-- The operands after the first extend the expression `left`, one at a time. The words of `left`
are `ws`, and they grow by an operator and an operand at every step. -/
theorem chainRest {operator? : Symbol → Option Operator} {operand : Reader} {k k' : Phrase}
    (hoperand : Sound operand k')
    (hstep : ∀ {us vs : List Symbol} {l r : Tree} {symbol : Symbol} {op : Operator},
      operator? symbol = some op → Derives k us l → Derives k' vs r →
      Derives k (us ++ symbol :: vs) (.binary op l r))
    {ws : List Symbol} {left t : Tree} (hleft : Derives k ws left) {p q : Place}
    (hread : Except.plain (s.chainRest operator? operand left p) = .ok (t, q)) :
    ∃ us, p.words = us ++ q.words ∧ Derives k (ws ++ us.map Token.symbol) t := by
  -- The induction is on the words that are left, with any expression in front of them.
  induction left, p using Reader.chain_induction operand generalizing ws with
  | step left p ih =>
    rw [plain_chainRest] at hread
    split at hread
    next hp =>
      cases hread
      exact ⟨[], rfl, by simpa using hleft⟩
    next w rest hp =>
      split at hread
      next hop =>
        cases hread
        exact ⟨[], rfl, by simpa using hleft⟩
      next op hop =>
        obtain ⟨⟨right, r⟩, hright, hread⟩ := Except.bind_eq_ok.1 hread
        obtain ⟨us, hus, hr⟩ := hoperand _ _ _ hright
        obtain ⟨nodes, -, hread⟩ := Except.bind_eq_ok.1 hread
        have hrest : rest = us ++ r.words := hus
        -- The operand read joins the expression on the left.
        obtain ⟨vs, hvs, ht⟩ := ih w rest right r hp hright _ nodes (hstep hop hleft hr) hread
        refine ⟨w :: (us ++ vs), ?_, ?_⟩
        · rw [hp, hrest, show r.words = vs ++ q.words from hvs]
          simp
        · rw [List.map_cons, List.map_append]
          simpa using ht

/-- A chain of operands that was read is a sum or a product of them, according to `hstep`. One
operand alone is such an expression by `hfirst`. -/
theorem chain {operator? : Symbol → Option Operator} {operand : Reader} {k k' : Phrase}
    (hoperand : Sound operand k')
    (hfirst : ∀ {us : List Symbol} {t : Tree}, Derives k' us t → Derives k us t)
    (hstep : ∀ {us vs : List Symbol} {l r : Tree} {symbol : Symbol} {op : Operator},
      operator? symbol = some op → Derives k us l → Derives k' vs r →
      Derives k (us ++ symbol :: vs) (.binary op l r)) : Sound (s.chain operator? operand) k := by
  intro p q t hread
  rw [plain_chain] at hread
  obtain ⟨⟨left, r⟩, hleft, hread⟩ := Except.bind_eq_ok.1 hread
  obtain ⟨us, hus, hl⟩ := hoperand _ _ _ hleft
  obtain ⟨vs, hvs, ht⟩ := chainRest hoperand hstep (hfirst hl) hread
  refine ⟨us ++ vs, ?_, ?_⟩
  · rw [hus, show r.words = vs ++ q.words from hvs, List.append_assoc]
  · rw [List.map_append]
    exact ht

/-- A signed operand that was read is one. A minus negates what follows and a plus leaves it, as in
the grammar. -/
theorem signed {inner unsigned : Reader} (hi : Sound inner .unary) (hu : Sound unsigned .power) :
    Sound (s.signed inner unsigned) .unary := by
  intro p q t hread
  rw [plain_signed] at hread
  -- A minus, a plus, or an operand without a sign.
  split at hread
  next start stop rest hp =>
    obtain ⟨⟨operand, r⟩, hoperand, hread⟩ := Except.bind_eq_ok.1 hread
    obtain ⟨us, hus, hd⟩ := hi _ _ _ hoperand
    obtain ⟨⟨t', nodes⟩, hnegate, hread⟩ := Except.bind_eq_ok.1 hread
    cases hread
    refine ⟨⟨.minus, start, stop⟩ :: us, ?_, ?_⟩
    · rw [hp, show rest = us ++ r.words from hus, List.cons_append]
    · rw [eq_negated_of_negate hnegate]
      exact hd.minus
  next start stop rest hp =>
    obtain ⟨us, hus, hd⟩ := hi _ _ _ hread
    refine ⟨⟨.plus, start, stop⟩ :: us, ?_, hd.plus⟩
    rw [hp, show rest = us ++ q.words from hus, List.cons_append]
  · obtain ⟨us, hus, hd⟩ := hu _ _ _ hread
    exact ⟨us, hus, hd.unsigned⟩

/-- Each rule for readers follows the rules of the grammar for the expressions that it reads. For
the chains these are the rules for one operand and for one more. -/
theorem keeps (s : Setting) : s.rules.Keeps fun k read => Sound read k where
  primary := primary
  power := power
  term h := chain h .factor .product
  sum h := chain h .summand .sum
  signed := signed

/-- The reader of expressions is sound at every depth. Without a level of nesting nothing is read,
so nothing wrong is read either. -/
theorem expr (s : Setting) : Sound s.expr .expr :=
  s.rules_expr ▸ (keeps s).expr (fun _ _ _ hread => nomatch hread) s.limits.maxDepth

end Sound

/-- A tree read from words is the one that the words denote. Reading has to end with the last word,
so these are all the words there are. -/
theorem Tokens.derives_of_parse {limits : Limits} {ts : Tokens} {t : Tree}
    (h : ts.parse limits = .ok t) : Derives .expr (ts.words.map Token.symbol) t := by
  unfold Tokens.parse at h
  dsimp only at h
  split at h
  · cases h
  obtain ⟨⟨t', q, hq⟩, hexpr, h⟩ := Except.bind_eq_ok.1 h
  dsimp only at h
  split at h
  next hwords =>
    split at h
    · cases h
      -- No words are left behind those read.
      obtain ⟨us, hus, hd⟩ := Sound.expr _ _ q t (Except.plain_eq_ok.2 ⟨hq, hexpr⟩)
      rw [List.isEmpty_iff.1 hwords, List.append_nil] at hus
      rw [show ts.words = us from hus]
      exact hd
    · cases h
  · cases h

end UnitPlane
