import UnitPlane.Proofs.Formula.Arena.Descent
import UnitPlane.Proofs.Formula.Arena.Trees

/-!
# `UnitPlane.Proofs.Formula.Arena.Sharing`: no shared number changes its sign

A number that is negated changes its sign in place, so it must not be the operand of an operator
already. `unaryBy` reads powers with signs as `unary` does, but with any way of negation. Whatever
reads an operand puts a tree after the nodes that were there before, so the operand is the last
node, and no operator can have it. `negateOr` does something else with an operand that is not such a
node, and reading with it is the same: it never has to.

* `Laid.orderedFrom`: in the row of a tree, operands come before their operators.
* `Arena.exprBy_negateOr`: no node that an operator has is ever negated, so no number that one has
  changes its sign.
-/

set_option autoImplicit false

namespace UnitPlane

open Arena (OrderedFrom)

/-! ### Rows in order -/

namespace Arena

/-- Two rows one after the other are in order if each of them is. -/
theorem OrderedFrom.append {n : Nat} {us vs : Array Node} (hu : OrderedFrom n us)
    (hv : OrderedFrom (n + us.size) vs) : OrderedFrom n (us ++ vs) where
  operands_lt {k op l r} hk := by
    by_cases hlt : k < us.size
    · rw [Array.getElem?_append_left hlt] at hk
      exact hu.operands_lt hk
    · rw [Array.getElem?_append_right (by omega)] at hk
      have := hv.operands_lt hk
      omega

/-- A node is in order if its operands come before it, which for a leaf asks nothing. -/
theorem orderedFrom_single {n : Nat} {node : Node} (h : ∀ {op l r}, node = .binary op l r →
    l < n ∧ r < n) : OrderedFrom n #[node] where
  operands_lt {k op l r} hk := by
    obtain ⟨hlt, hnode⟩ := Array.getElem?_eq_some_iff.1 hk
    obtain rfl : k = 0 := Nat.lt_one_iff.1 hlt
    exact h hnode

end Arena

/-- In the row of a tree, operands come before their operators. The minus one of a negation comes
before it too, though after its other operand. -/
theorem Laid.orderedFrom {n i : Nat} {ns : Array Node} {t : Tree} (h : Laid n ns t i) :
    OrderedFrom n ns := by
  induction h with
  | var | literal => exact Arena.orderedFrom_single fun heq => by cases heq
  | binary op hl hr ihl ihr =>
    refine (ihl.append ihr).append (Arena.orderedFrom_single fun heq => ?_)
    cases heq
    exact hl.roots_lt hr
  | negated h ih =>
    have hminus (k : Nat) : OrderedFrom k #[.literal (-1)] :=
      Arena.orderedFrom_single fun heq => by cases heq
    refine (ih.append (hminus _)).append (Arena.orderedFrom_single fun heq => ?_)
    cases heq
    exact ⟨by simp, h.root_lt _⟩

namespace Arena

/-! ### Trees after other nodes -/

/-- A tree has been put after the nodes `before`, and its root has the number `id`. -/
def Adds (before : Array Node) (id : Nat) (nodes : Array Node) : Prop :=
  ∃ row t, nodes = before ++ row ∧ Laid before.size row t id

section

variable {before nodes nodes' : Array Node} {id id' : Nat}

/-- Nodes that are in order stay so when a tree is put after them. -/
theorem Adds.ordered (h : Adds before id nodes) (hbefore : OrderedFrom 0 before) :
    OrderedFrom 0 nodes := by
  obtain ⟨row, t, rfl, hlaid⟩ := h
  rw [← Nat.zero_add before.size] at hlaid
  exact hbefore.append hlaid.orderedFrom

/-- An operator after its operands makes one tree of their two. The second operand was put after the
first, with nothing in between. -/
theorem Adds.binary (h : Adds before id nodes) (h' : Adds nodes id' nodes') (op : Operator) :
    Adds before nodes'.size (nodes'.push (.binary op id id')) := by
  obtain ⟨row, t, rfl, hlaid⟩ := h
  obtain ⟨row', t', rfl, hlaid'⟩ := h'
  rw [Array.size_append] at hlaid'
  refine ⟨row ++ row' ++ #[.binary op id id'], .binary op t t', ?_, ?_⟩
  · rw [Array.push_eq_append, Array.append_assoc, Array.append_assoc, Array.append_assoc]
  · have hnode := Laid.binary op hlaid hlaid'
    rwa [← Array.size_append, ← Array.append_assoc] at hnode

end

/-- Whenever the reader returns a node, it has put a tree after the nodes that were there. So the
node is new, and nothing that was there has changed. -/
def Lays (read : Reader) : Prop :=
  ∀ {p q : Site} {id : Nat}, Except.plain (read p) = .ok (id, q) → Adds p.nodes id q.nodes

/-- In every text the reader does what some reader of trees does. -/
def HasTrees (limits : Limits) (read : Reader) : Prop :=
  ∀ ts : Tokens, ∃ read', MatchesReader ts limits read' read

/-- A reader that does what one of trees does lays the trees that this one returns. What it does
depends on the symbols alone, so a text is made up that has these symbols. -/
theorem HasTrees.lays {limits : Limits} {read : Reader} (h : HasTrees limits read) : Lays read := by
  intro p q id hread
  -- A text with these symbols in any place.
  obtain ⟨words, hsymbols⟩ : ∃ words : List Token, words.map Token.symbol = p.symbols :=
    ⟨p.symbols.map fun s => ⟨s, 0, 0⟩, by simp [Function.comp_def]⟩
  obtain ⟨read', hmatches⟩ := h ⟨words, 0⟩
  have houtcome := hmatches words p.nodes (List.suffix_refl _)
  rw [hsymbols, hread] at houtcome
  generalize Except.plain (read' ⟨words, p.nodes.size⟩) = outcome at houtcome
  cases houtcome with
  | ok hbuilt =>
    cases hbuilt with
    | mk hwords hlaid => exact ⟨_, _, rfl, hlaid⟩

/-! Each rule makes a reader that does what one of trees does from readers that do: what it makes is
matched by what the same rule makes of the readers of trees. -/

section HasTrees

variable {limits : Limits} {read base unsigned : Reader}

/-- An operand is read as one of trees is, if the expressions in brackets are. -/
theorem HasTrees.primary (h : HasTrees limits read) : HasTrees limits (primary limits read) :=
  fun ts => (h ts).elim fun _ hread => ⟨_, .primary limits hread⟩

/-- A power is read as one of trees is, if its base and its exponent are. -/
theorem HasTrees.power (hb : HasTrees limits base) (hu : HasTrees limits read) :
    HasTrees limits (power limits base read) := by
  intro ts
  obtain ⟨_, hbase⟩ := hb ts
  obtain ⟨_, hread⟩ := hu ts
  exact ⟨_, .power limits hbase hread⟩

/-- A row of operands is read as one of trees is, if its operands are. -/
theorem HasTrees.chain (operator? : Symbol → Option Operator) (h : HasTrees limits read) :
    HasTrees limits (chain limits operator? read) :=
  fun ts => (h ts).elim fun _ hread => ⟨_, .chain limits operator? hread⟩

/-- A signed operand is read as one of trees is, if what follows the sign is, and what has no
sign. -/
theorem HasTrees.signed (hi : HasTrees limits read) (hu : HasTrees limits unsigned) :
    HasTrees limits (signedBy (negate limits) read unsigned) := by
  intro ts
  obtain ⟨_, hread⟩ := hi ts
  obtain ⟨_, hunsigned⟩ := hu ts
  exact ⟨_, .signed limits hread hunsigned⟩

end HasTrees

/-- Without a level of nesting left, nothing is read, of trees or otherwise. -/
theorem hasTrees_exhausted (limits : Limits) : HasTrees limits (rules limits).exhausted :=
  fun _ => ⟨_, .exhausted limits⟩

/-! ### Readers with another negation -/

/-- Powers with signs, as `unary` reads them, where `negation` is done at a minus sign. -/
def unaryBy (negation : Negation) (limits : Limits) : (levels : Nat) → Reader
  | 0 => fun p => throw (p.halt (.limit .depth (limits.maxDepth + 1) limits.maxDepth))
  | levels + 1 => fun p =>
    let inner := unaryBy negation limits levels
    signedBy negation inner (power limits (primary limits (sumOf limits inner)) inner) p

/-- A whole expression, where `negation` is done at a minus sign. -/
def exprBy (negation : Negation) (limits : Limits) : Reader :=
  sumOf limits (unaryBy negation limits limits.maxDepth)

/-- The readers that are made by the rules with another negation are those that are written out
above. -/
theorem rulesBy_unary (negation : Negation) (limits : Limits) (levels : Nat) :
    (rulesBy negation limits).unary levels = unaryBy negation limits levels := by
  -- The induction is on the levels of nesting that are left.
  induction levels with
  | zero => rfl
  | succ levels ih =>
    rw [ReaderRules.unary, ih]
    rfl

/-- The same for whole expressions, from the deepest level on. -/
theorem rulesBy_expr (negation : Negation) (limits : Limits) :
    (rulesBy negation limits).expr limits.maxDepth = exprBy negation limits :=
  congrArg (sumOf limits) (rulesBy_unary negation limits limits.maxDepth)

/-- From sites whose nodes are in order, both readers do the same. The order is what keeps an
operand from being its own operator. -/
def Same (read read' : Reader) : Prop :=
  ∀ p : Site, OrderedFrom 0 p.nodes → Except.plain (read p) = Except.plain (read' p)

/-- The negations agree on the trees that are laid. -/
def Negates (negation : Negation) (limits : Limits) : Prop :=
  ∀ {before : Array Node} {id : Nat} {p : Site}, OrderedFrom 0 before → Adds before id p.nodes →
    negation id p = negate limits id p

namespace Same

variable (limits : Limits) {expr expr' prim prim' un un' operand operand' : Reader}

/-- Operands are read alike under both negations, if expressions in brackets are. No other operand
has a sign in it. -/
theorem primary (h : Same expr expr') : Same (primary limits expr) (primary limits expr') := by
  rintro ⟨symbols, nodes⟩ hp
  rw [plain_primary, plain_primary]
  cases symbols with
  | nil => rfl
  | cons symbol rest =>
    cases symbol with
    | openBracket =>
      dsimp only
      rw [h ⟨rest, nodes⟩ hp]
    | number | name | plus | minus | star | doubleStar | slash | closeBracket
        | unsupported | stop =>
      rfl

/-- Powers are read alike if their bases and exponents are. The exponent starts from the nodes that
the base leaves, which are in order because a tree was laid. -/
theorem power (hprim : Same prim prim') (hlays : Lays prim') (hun : Same un un') :
    Same (power limits prim un) (power limits prim' un') := by
  intro p hp
  rw [plain_power, plain_power, hprim p hp]
  refine Except.bind_congr_of_eq_ok fun r hr => ?_
  have hordered := (hlays hr).ordered hp
  split
  next rest _ => rw [hun ⟨rest, r.2.nodes⟩ hordered]
  next => rfl

/-- Both readers go on in the same way after an operand, which is a tree that was put in. -/
theorem chainRest (operator? : Symbol → Option Operator) (h : Same operand operand')
    (hlays : Lays operand') {before : Array Node} (hbefore : OrderedFrom 0 before) {left : Nat}
    {p : Site} (hleft : Adds before left p.nodes) :
    Except.plain (chainRest limits operator? operand left p) =
      Except.plain (chainRest limits operator? operand' left p) := by
  -- The induction goes from one operand to the next; the row that has been read so far is a tree as
  -- well.
  induction left, p using Reader.chain_induction operand' with
  | step left p ih =>
    obtain ⟨symbols, nodes⟩ := p
    rw [plain_chainRest, plain_chainRest]
    cases symbols with
    | nil => rfl
    | cons symbol rest =>
      dsimp only
      cases operator? symbol with
      | none => rfl
      | some op =>
        dsimp only
        rw [h ⟨rest, nodes⟩ (hleft.ordered hbefore)]
        refine Except.bind_congr_of_eq_ok fun q hq => Except.bind_congr_of_eq_ok fun r hr => ?_
        rw [push_eq] at hr
        split at hr
        · cases hr
          have hright := hlays (p := ⟨rest, nodes⟩) hq
          exact ih symbol rest q.1 q.2 rfl hq _ _ (hleft.binary hright op)
        · cases hr

/-- Rows of operands are read alike if their operands are. -/
theorem chain (operator? : Symbol → Option Operator) (h : Same operand operand')
    (hlays : Lays operand') :
    Same (chain limits operator? operand) (chain limits operator? operand') := by
  intro p hp
  rw [plain_chain, plain_chain, h p hp]
  exact Except.bind_congr_of_eq_ok fun q hq => chainRest limits operator? h hlays hp (hlays hq)

/-- After a minus sign the negations agree, because what they are given is a tree that was laid. -/
theorem signed {negation : Negation} (hnegates : Negates negation limits) (h : Same un un')
    (hlays : Lays un') (hq : Same prim prim') :
    Same (signedBy negation un prim) (signedBy (negate limits) un' prim') := by
  rintro ⟨symbols, nodes⟩ hp
  have hpower := hq ⟨symbols, nodes⟩ hp
  rw [plain_signedBy, plain_signedBy]
  -- A minus is negated on both sides, and the negations agree because the operand is laid out.
  cases symbols with
  | nil => exact hpower
  | cons symbol rest =>
    cases symbol with
    | minus =>
      dsimp only
      rw [h ⟨rest, nodes⟩ hp]
      refine Except.bind_congr_of_eq_ok fun q hq => ?_
      rw [hnegates hp (hlays (p := ⟨rest, nodes⟩) hq)]
    | plus => exact h ⟨rest, nodes⟩ hp
    | number | name | star | doubleStar | slash | openBracket | closeBracket | unsupported | stop =>
      exact hpower

/-- Each rule keeps readers the same under both negations, as long as the readers lay trees. They do
because they do what readers of trees do, which each rule keeps as well. -/
theorem relates {negation : Negation} (hnegates : Negates negation limits) :
    (rulesBy negation limits).Relates (rules limits) fun _ read read' =>
      Same read read' ∧ HasTrees limits read' where
  primary h := ⟨h.1.primary limits, h.2.primary⟩
  power hb hu := ⟨hb.1.power limits hb.2.lays hu.1, hb.2.power hu.2⟩
  term h := ⟨h.1.chain limits _ h.2.lays, h.2.chain _⟩
  sum h := ⟨h.1.chain limits _ h.2.lays, h.2.chain _⟩
  signed hi hu := ⟨hi.1.signed limits hnegates hi.2.lays hu.1, hi.2.signed hu.2⟩

end Same

/-- Whole expressions are read alike under two negations that agree on the trees that are laid. -/
theorem same_exprBy {limits : Limits} {negation : Negation} (h : Negates negation limits) :
    Same (exprBy negation limits) (expr limits) := by
  rw [← rulesBy_expr, ← rules_expr]
  exact ((Same.relates limits h).expr ⟨fun _ _ => rfl, hasTrees_exhausted limits⟩ _).1

/-! ### Nodes that no operator has -/

/-- The node is the last one, and no operator has it as an operand. -/
def Unshared (nodes : Array Node) (id : Nat) : Prop :=
  id + 1 = nodes.size ∧ ∀ parent < nodes.size, id ∉ operandsOf nodes parent

instance (nodes : Array Node) (id : Nat) : Decidable (Unshared nodes id) :=
  inferInstanceAs (Decidable (_ ∧ _))

/-- The negation of a node, where `other` is done with a node that is not the last one or that an
operator has. -/
def negateOr (other : Negation) (limits : Limits) : Negation := fun operand p =>
  if Unshared p.nodes operand then negate limits operand p else other operand p

/-- The root of a tree that has been put in is the last node, and no operator has it, because
operands come before their operators. -/
theorem Adds.unshared {before nodes : Array Node} {id : Nat} (h : Adds before id nodes)
    (hbefore : OrderedFrom 0 before) : Unshared nodes id := by
  have hordered := h.ordered hbefore
  obtain ⟨row, t, rfl, hlaid⟩ := h
  have hlast : id + 1 = (before ++ row).size := by
    rw [hlaid.root_succ, Array.size_append]
  refine ⟨hlast, fun parent hparent hmem => ?_⟩
  -- An operator comes after its operands, and the last node has none after it.
  obtain ⟨side, hoperand⟩ := mem_operandsOf_iff.1 hmem
  have hlt := hordered.operand_lt hoperand
  omega

/-- The negation that asks first agrees with the plain one on the trees that are laid, since there
the answer is always yes. -/
theorem negates_negateOr (other : Negation) (limits : Limits) :
    Negates (negateOr other limits) limits := by
  intro before id p hbefore hadds
  exact if_pos (hadds.unshared hbefore)

/-- No node that an operator has is ever negated: whatever would be done with it instead is never
done. So it makes no difference that a number is negated in place. -/
theorem exprBy_negateOr (other : Negation) (limits : Limits) (symbols : List Symbol) :
    exprBy (negateOr other limits) limits ⟨symbols, #[]⟩ = expr limits ⟨symbols, #[]⟩ := by
  have hempty : OrderedFrom 0 #[] := ⟨fun hk => nomatch hk⟩
  refine Except.map_injective (fun {a b} hab => ?_)
    (same_exprBy (negates_negateOr other limits) ⟨symbols, #[]⟩ hempty)
  obtain ⟨id, q⟩ := a
  obtain ⟨id', q'⟩ := b
  obtain ⟨rfl, hq⟩ := Prod.mk.inj hab
  rw [Subtype.ext hq]

end Arena

end UnitPlane
