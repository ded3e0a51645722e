import UnitPlane.Proofs.Formula.Arena.Layout
import UnitPlane.Proofs.Formula.Limits

/-!
# `UnitPlane.Proofs.Formula.Arena.Trees`: the arena of a text holds its tree

The readers of trees and those of arenas go through the same words. Step by step they give a tree
and a row of nodes in which this tree lies, or both refuse, and the place where the symbols halt is
the word that the fault is about. `Matches` is this relation between two outcomes, and each rule for
readers keeps it (`MatchesReader.relates`).

A reader of trees counts the nodes that it builds, and a reader of arenas puts them in. The count is
the size of the arena, and the arena has one node for each node of its tree, so that the limit on
the count is a limit on the tree.

* `Formula.within_of_parse`: a formula that is read keeps every limit on formulas.
* `Arena.map_tree?_parse`: the arena of a text holds the tree of its formula, or both are refused
  with one fault.
-/

set_option autoImplicit false

namespace UnitPlane

open Setting

/-- Results that belong together, or the fault of halting in a text with the given words. -/
inductive Matches {α β : Type} (ts : Tokens) (R : α → β → Prop) :
    Except Fault α → Except Halt β → Prop where
  | ok {a : α} {b : β} (h : R a b) : Matches ts R (.ok a) (.ok b)
  | error (h : Halt) : Matches ts R (.error (ts.faultAt h)) (.error h)

namespace Matches

variable {α α' β β' : Type} {ts : Tokens} {R : α → β → Prop} {R' : α' → β' → Prop}

/-- A fault and a halt match if the fault is that of halting there. -/
theorem of_fault {e : Fault} {h : Halt} (he : ts.faultAt h = e) :
    Matches ts R (.error e) (.error h) :=
  he ▸ .error h

/-- Steps that match one after another match together. What follows may use that the first result is
the one that was returned. -/
theorem bind_of_eq_ok {x : Except Fault α} {y : Except Halt β} {f : α → Except Fault α'}
    {g : β → Except Halt β'}
    (h : Matches ts R x y) (hf : ∀ a b, x = .ok a → R a b → Matches ts R' (f a) (g b)) :
    Matches ts R' (x >>= f) (y >>= g) := by
  cases h with
  | ok h => exact hf _ _ rfl h
  | error h => exact .error h

/-- Steps that match one after another match together, whatever the results of the first are, as
long as they belong together. -/
theorem bind {x : Except Fault α} {y : Except Halt β} {f : α → Except Fault α'}
    {g : β → Except Halt β'}
    (h : Matches ts R x y) (hf : ∀ a b, R a b → Matches ts R' (f a) (g b)) :
    Matches ts R' (x >>= f) (y >>= g) :=
  h.bind_of_eq_ok fun a b _ => hf a b

/-- A last step that only changes the result of the one side keeps the match. -/
theorem bind_ok {S : α' → β → Prop} {x : Except Fault α} {y : Except Halt β} {f : α → α'}
    (h : Matches ts R x y) (hf : ∀ a b, R a b → S (f a) b) :
    Matches ts S (x >>= fun a => .ok (f a)) y := by
  cases h with
  | ok h => exact .ok (hf _ _ h)
  | error h => exact .error h

/-- Outcomes whose results belong together in one way match in every weaker way. -/
theorem mono {S : α → β → Prop} {x : Except Fault α} {y : Except Halt β} (h : Matches ts R x y)
    (hS : ∀ a b, R a b → S a b) : Matches ts S x y := by
  cases h with
  | ok h => exact .ok (hS _ _ h)
  | error h => exact .error h

/-- What the results have in common, taken from both sides, is the same, and the faults are the same
once the halt is seen as a fault. -/
theorem map_eq {γ : Type} {x : Except Fault α} {y : Except Halt β} {f : α → γ} {g : β → γ}
    (h : Matches ts R x y) (hfg : ∀ a b, R a b → f a = g b) :
    x.map f = (y.mapError ts.faultAt).map g := by
  cases h with
  | ok h => exact congrArg Except.ok (hfg _ _ h)
  | error h => rfl

end Matches

/-- A tree, with the words left after it, and its root in an arena, with the symbols of these words.
The nodes before it are still there, the tree lies in the row after them, and the arena is within
its limit. -/
inductive Built (ts : Tokens) (limits : Limits) (before : Array Node) :
    Tree × Place → Nat × Site → Prop where
  | mk {words : List Token} {row : Array Node} {t : Tree} {id : Nat} (hwords : words <:+ ts.words)
      (h : Laid before.size row t id) (hsize : (before ++ row).size ≤ limits.maxNodes) :
      Built ts limits before (t, ⟨words, (before ++ row).size⟩)
        (id, ⟨words.map Token.symbol, before ++ row⟩)

/-- The same from equations, for arenas that are not written as one row after another. -/
theorem Built.of_eq {ts : Tokens} {limits : Limits} {before nodes row : Array Node}
    {words : List Token} {t : Tree} {id n : Nat} (hnodes : nodes = before ++ row)
    (hn : n = nodes.size) (hsize : nodes.size ≤ limits.maxNodes) (hwords : words <:+ ts.words)
    (h : Laid before.size row t id) :
    Built ts limits before (t, ⟨words, n⟩) (id, ⟨words.map Token.symbol, nodes⟩) := by
  subst hn hnodes
  exact ⟨hwords, h, hsize⟩

/-- From every place in the words of a text, and with any nodes before, both readers do the same:
they build the same tree, or they refuse with the same fault. -/
def MatchesReader (ts : Tokens) (limits : Limits) (read : Reader) (read' : Arena.Reader) : Prop :=
  ∀ (words : List Token) (nodes : Array Node), words <:+ ts.words →
    Matches ts (Built ts limits nodes) (Except.plain (read ⟨words, nodes.size⟩))
      (Except.plain (read' ⟨words.map Token.symbol, nodes⟩))

section Steps

variable {ts : Tokens} {limits : Limits} {words : List Token} {nodes : Array Node}

/-- The word at which reading halts is the next one, or the end of the text. It is found from the
number of symbols that are left. -/
theorem wordAt_halt (nodes : Array Node) (hwords : words <:+ ts.words) (o : Obstacle) :
    ts.wordAt (Site.halt ⟨words.map Token.symbol, nodes⟩ o) =
      words.headD ⟨.stop, ts.length, ts.length⟩ := by
  obtain ⟨us, hus⟩ := hwords
  unfold Tokens.wordAt Site.halt
  rw [List.length_map, ← hus, List.length_append, Nat.add_sub_cancel, List.drop_left]

/-- The word at which reading halts is the first of those that are left. -/
theorem wordAt_halt_cons {w : Token} {rest : List Token} (nodes : Array Node)
    (hwords : w :: rest <:+ ts.words) (o : Obstacle) :
    ts.wordAt (Site.halt ⟨(w :: rest).map Token.symbol, nodes⟩ o) = w :=
  wordAt_halt nodes hwords o

/-- Another word than the one expected gives the same fault on both sides, at the same place in the
text. -/
theorem faultAt_unexpected (hwords : words <:+ ts.words) (n : Nat) (e : Expectation) :
    ts.faultAt (Site.halt ⟨words.map Token.symbol, nodes⟩ (.unexpected e)) =
      (Setting.peek ⟨limits, ts.length⟩ ⟨words, n⟩).unexpected e :=
  congrArg (Token.unexpected e) (wordAt_halt nodes hwords _)

/-- A node is counted when it is put in, and both readers refuse it beyond the limit. The count is
the size of the arena. -/
theorem matches_push (node : Node) (symbols : List Symbol) :
    Matches ts
      (fun n r => n = (nodes.push node).size ∧ (nodes.push node).size ≤ limits.maxNodes ∧
        r = (nodes.size, nodes.push node))
      (Setting.addNode ⟨limits, ts.length⟩ nodes.size)
        (Arena.push limits node ⟨symbols, nodes⟩) := by
  rw [Arena.push_eq, Setting.addNode]
  dsimp only
  split
  next hlt => exact .ok ⟨(Array.size_push node).symm, by rwa [Array.size_push], rfl⟩
  next => exact .of_fault rfl

/-- A tree of one node: it is counted on the one side, and put in on the other. -/
theorem matches_leaf {node : Node} {t : Tree} (h : Laid nodes.size #[node] t nodes.size)
    (hwords : words <:+ ts.words) (symbols : List Symbol) :
    Matches ts (Built ts limits nodes)
      (Setting.addNode ⟨limits, ts.length⟩ nodes.size >>= fun n => .ok (t, ⟨words, n⟩))
      (Arena.push limits node ⟨symbols, nodes⟩ >>= fun r =>
        .ok (r.1, ⟨words.map Token.symbol, r.2⟩)) := by
  refine (matches_push node symbols).bind ?_
  rintro _ _ ⟨rfl, hsize, rfl⟩
  exact .ok (.of_eq Array.push_eq_append rfl hsize hwords h)

/-- An operator after both operands. It is counted once and put in once, and its tree lies in the
rows of its operands and one more node. -/
theorem matches_binary {ls rs : Array Node} {l r : Tree} {i j : Nat} (op : Operator)
    (hl : Laid nodes.size ls l i) (hr : Laid (nodes ++ ls).size rs r j)
    (hwords : words <:+ ts.words) :
    Matches ts
      (fun n s => Built ts limits nodes (.binary op l r, ⟨words, n⟩)
        (s.1, ⟨words.map Token.symbol, s.2⟩))
      (Setting.addNode ⟨limits, ts.length⟩ (nodes ++ ls ++ rs).size)
      (Arena.push limits (.binary op i j) ⟨words.map Token.symbol, nodes ++ ls ++ rs⟩) := by
  refine (matches_push (.binary op i j) _).mono ?_
  rintro _ _ ⟨rfl, hsize, rfl⟩
  rw [Array.size_append] at hr
  have hnode := Laid.binary op hl hr
  rw [← Array.size_append, ← Array.append_assoc] at hnode
  exact .of_eq (by simp only [Array.push_eq_append, Array.append_assoc]) rfl hsize hwords hnode

/-- A negation. A number changes its sign in place, and anything else is multiplied by minus one. -/
theorem matches_negate {row : Array Node} {t : Tree} {id : Nat} (h : Laid nodes.size row t id)
    (hsize : (nodes ++ row).size ≤ limits.maxNodes) (hwords : words <:+ ts.words) :
    Matches ts
      (fun r s => Built ts limits nodes (r.1, ⟨words, r.2⟩) (s.1, ⟨words.map Token.symbol, s.2⟩))
      (Setting.negate ⟨limits, ts.length⟩ t (nodes ++ row).size)
      (Arena.negate limits id ⟨words.map Token.symbol, nodes ++ row⟩) := by
  have hrow : RowAt (nodes ++ row) nodes.size row := .append_right nodes row
  by_cases ht : ∃ value, t = .literal value
  · obtain ⟨value, rfl⟩ := ht
    obtain ⟨rfl, rfl⟩ := h.eq_of_literal
    -- The number is the only node of its row, so it stands right after the nodes before.
    rw [Arena.negate_of_literal limits hrow.single]
    have hset : (nodes ++ #[Node.literal value]).setIfInBounds nodes.size (.literal (-value)) =
        nodes ++ #[Node.literal (-value)] := by
      rw [Array.setIfInBounds_append_right (Nat.le_refl _), Nat.sub_self]
      rfl
    have hlength :
      ((nodes ++ #[Node.literal value]).setIfInBounds nodes.size (.literal (-value))).size =
        (nodes ++ #[Node.literal value]).size := Array.size_setIfInBounds
    exact .ok (.of_eq hset hlength.symm (Nat.le_trans (Nat.le_of_eq hlength) hsize) hwords
      (.literal _ _))
  · have hne (value : Float) : t ≠ .literal value := fun hvalue => ht ⟨value, hvalue⟩
    rw [Arena.negate_of_ne limits (h.getElem?_root_ne hrow hne), negate_of_ne _ hne]
    refine (matches_push _ _).bind ?_
    rintro _ _ ⟨rfl, -, rfl⟩
    refine (matches_push _ _).bind_ok ?_
    rintro _ _ ⟨rfl, hsize, rfl⟩
    have hnode := h.negated
    rw [← Array.size_append, ← Array.size_append, ← Array.append_assoc,
      ← Array.push_eq_append] at hnode
    exact .of_eq (by simp only [Array.push_eq_append, Array.append_assoc]) rfl hsize hwords hnode

end Steps

/-! ### Readers -/

namespace MatchesReader

variable {ts : Tokens} (limits : Limits)

/-- Operands are built alike if expressions in brackets are. Each way to refuse one is a fault of
the word at which the other reader halts. -/
theorem primary {expr : Reader} {expr' : Arena.Reader} (h : MatchesReader ts limits expr expr') :
    MatchesReader ts limits (Setting.primary ⟨limits, ts.length⟩ expr)
      (Arena.primary limits expr') := by
  intro words nodes hwords
  rw [plain_primary, Arena.plain_primary]
  cases words with
  | nil => exact .of_fault (faultAt_unexpected hwords _ _)
  | cons w rest =>
    have hw (o : Obstacle) := wordAt_halt_cons nodes hwords o
    have hrest : rest <:+ ts.words := (List.suffix_cons w rest).trans hwords
    rw [List.map_cons]
    -- Both readers look at the next symbol, and a fault about its word is found again by the words
    -- that are left.
    obtain ⟨symbol, start, stop⟩ := w
    cases symbol with
    | number value => exact matches_leaf (.literal _ _) hrest _
    | name name =>
      dsimp only
      rw [List.head?_map]
      split
      · exact .of_fault rfl
      cases Variable.ofName? name with
      | none =>
        exact .of_fault (congrArg (fun w : Token => Fault.unknownVariable name w.start) (hw _))
      | some v => exact matches_leaf (.var _ _) hrest _
    | openBracket =>
      refine (h rest nodes hrest).bind ?_
      rintro _ _ ⟨hwords', hlaid, hsize⟩
      rename_i words' row t id
      cases words' with
      | nil => exact .of_fault (faultAt_unexpected hwords' _ _)
      | cons w' rest' =>
        have hw' (o : Obstacle) := wordAt_halt_cons (nodes ++ row) hwords' o
        obtain ⟨symbol', start', stop'⟩ := w'
        cases symbol' with
        | closeBracket => exact .ok ⟨(List.suffix_cons _ _).trans hwords', hlaid, hsize⟩
        | number | name | plus | minus | star | doubleStar | slash | openBracket | unsupported
        | stop => exact .of_fault (congrArg (Token.unexpected .closingBracket) (hw' _))
    | plus | minus | star | doubleStar | slash | closeBracket | unsupported | stop =>
      exact .of_fault (congrArg (Token.unexpected .operand) (hw _))

/-- Powers are built alike if their bases and exponents are. -/
theorem power {primary unary : Reader} {primary' unary' : Arena.Reader}
    (hprimary : MatchesReader ts limits primary primary')
    (hunary : MatchesReader ts limits unary unary') :
    MatchesReader ts limits (Setting.power ⟨limits, ts.length⟩ primary unary)
      (Arena.power limits primary' unary') := by
  intro words nodes hwords
  rw [plain_power, Arena.plain_power]
  refine (hprimary words nodes hwords).bind ?_
  rintro _ _ ⟨hwords', hbase, hsize⟩
  rename_i words' row t id
  cases words' with
  | nil => exact .ok ⟨hwords', hbase, hsize⟩
  | cons w rest =>
    have hrest : rest <:+ ts.words := (List.suffix_cons w rest).trans hwords'
    obtain ⟨symbol, start, stop⟩ := w
    cases symbol with
    | doubleStar =>
      -- The exponent is laid after the base, so the base is part of what stands before it.
      refine (hunary rest _ hrest).bind ?_
      rintro _ _ ⟨hleft, hexponent, -⟩
      exact (matches_binary .pow hbase hexponent hleft).bind fun _ _ h => .ok h
    | number | name | plus | minus | star | slash | openBracket | closeBracket | unsupported
    | stop => exact .ok ⟨hwords', hbase, hsize⟩

/-- Both readers go on in the same way after an operand that both have built. The row that they have
built so far is the left operand of the next operator. -/
theorem chainRest (operator? : Symbol → Option Operator) {operand : Reader}
    {operand' : Arena.Reader} (hoperand : MatchesReader ts limits operand operand')
    {nodes : Array Node} {left : Tree} {p : Place} {q : Nat × Site}
    (h : Built ts limits nodes (left, p) q) :
    Matches ts (Built ts limits nodes)
      (Except.plain (Setting.chainRest ⟨limits, ts.length⟩ operator? operand left p))
      (Except.plain (Arena.chainRest limits operator? operand' q.1 q.2)) := by
  -- The induction is on the words that are left, with the tree on the left built so far.
  induction left, p using Reader.chain_induction operand generalizing q with
  | step left p ih =>
    rw [plain_chainRest, Arena.plain_chainRest]
    obtain ⟨hwords, hlaid, hsize⟩ := h
    rename_i words row id
    cases words with
    | nil => exact .ok ⟨hwords, hlaid, hsize⟩
    | cons w rest =>
      have hrest : rest <:+ ts.words := (List.suffix_cons w rest).trans hwords
      rw [List.map_cons]
      dsimp only
      cases operator? w.symbol with
      | none => exact .ok ⟨hwords, hlaid, hsize⟩
      | some op =>
        refine (hoperand rest (nodes ++ row) hrest).bind_of_eq_ok fun _ _ hread hbuilt => ?_
        obtain ⟨hleft, hright, -⟩ := hbuilt
        exact (matches_binary op hlaid hright hleft).bind fun n _ h =>
          ih w rest _ _ rfl hread _ n h

/-- Rows of operands are built alike if their operands are. -/
theorem chain (operator? : Symbol → Option Operator) {operand : Reader} {operand' : Arena.Reader}
    (hoperand : MatchesReader ts limits operand operand') :
    MatchesReader ts limits (Setting.chain ⟨limits, ts.length⟩ operator? operand)
      (Arena.chain limits operator? operand') := by
  intro words nodes hwords
  rw [plain_chain, Arena.plain_chain]
  exact (hoperand words nodes hwords).bind fun _ _ h => chainRest limits operator? hoperand h

/-- Signed operands are built alike if what follows the sign is, and what has no sign. It is the two
negations that are compared here. -/
theorem signed {inner unsigned : Reader} {inner' unsigned' : Arena.Reader}
    (hinner : MatchesReader ts limits inner inner')
    (hunsigned : MatchesReader ts limits unsigned unsigned') :
    MatchesReader ts limits (Setting.signed ⟨limits, ts.length⟩ inner unsigned)
      (Arena.signedBy (Arena.negate limits) inner' unsigned') := by
  intro words nodes hwords
  have hpower := hunsigned words nodes hwords
  rw [plain_signed, Arena.plain_signedBy]
  -- The signs are taken off on both sides, and a minus is turned into a node by both.
  cases words with
  | nil => exact hpower
  | cons w rest =>
    have hrest : rest <:+ ts.words := (List.suffix_cons w rest).trans hwords
    obtain ⟨symbol, start, stop⟩ := w
    cases symbol with
    | minus =>
      refine (hinner rest nodes hrest).bind ?_
      rintro _ _ ⟨hleft, hoperand, hsize⟩
      exact (matches_negate hoperand hsize hleft).bind fun _ _ h => .ok h
    | plus => exact hinner rest nodes hrest
    | number | name | star | doubleStar | slash | openBracket | closeBracket | unsupported | stop =>
      exact hpower

/-- Each rule makes a reader of arenas that does what the reader of trees made by it does. -/
theorem relates : (Setting.rules ⟨limits, ts.length⟩).Relates (Arena.rules limits) fun _ =>
    MatchesReader ts limits where
  primary := primary limits
  power := power limits
  term := chain limits _
  sum := chain limits _
  signed := signed limits

/-- Without a level of nesting both readers refuse with the limit on the depth. -/
theorem exhausted : MatchesReader ts limits (Setting.rules ⟨limits, ts.length⟩).exhausted
    (Arena.rules limits).exhausted :=
  fun _ _ _ => .of_fault rfl

/-- Whole expressions are built alike, at the deepest level of nesting that is allowed. -/
theorem expr :
    MatchesReader ts limits (Setting.expr ⟨limits, ts.length⟩) (Arena.expr limits) := by
  rw [← Setting.rules_expr, ← Arena.rules_expr]
  exact (relates limits).expr (exhausted limits) limits.maxDepth

end MatchesReader

/-! ### Texts -/

/-- The words of a text give a tree and the arena that holds it, or the same fault. The tree has as
many nodes as the arena, which is within its limit, and its depth is within the limit too. -/
theorem Tokens.matches_ofSymbols (limits : Limits) (ts : Tokens) :
    Matches ts
      (fun t a => a.tree? = some t ∧ t.size ≤ limits.maxNodes ∧ t.depth ≤ limits.maxDepth)
      (ts.parse limits) (Arena.ofSymbols limits (ts.words.map Token.symbol)) := by
  rw [Tokens.parse_eq, Arena.ofSymbols_eq, List.isEmpty_map]
  split
  · exact .of_fault rfl
  · refine (MatchesReader.expr limits ts.words #[] (List.suffix_refl _)).bind ?_
    rintro _ _ ⟨hwords, hlaid, hsize⟩
    rename_i words row t id
    dsimp only
    rw [List.isEmpty_map]
    split
    · rw [Array.empty_append] at hsize ⊢
      -- The depth is walked on the one side and found by recursion on the other.
      have hdepth : Arena.depth ⟨row, id⟩ = t.depth := hlaid.depthFrom (.self row)
      rw [hdepth]
      split
      next hle => exact .ok ⟨hlaid.treeFrom? (.self row), by rwa [← hlaid.size_eq], hle⟩
      next => exact .of_fault rfl
    · exact .of_fault (faultAt_unexpected hwords _ _)

/-- A tree read from words keeps the limits on nodes and depth. The nodes are counted while it is
read, and the depth is looked at afterwards. -/
theorem Tokens.within_of_parse {limits : Limits} {ts : Tokens} {t : Tree}
    (h : ts.parse limits = .ok t) : t.size ≤ limits.maxNodes ∧ t.depth ≤ limits.maxDepth := by
  have hmatches := ts.matches_ofSymbols limits
  rw [h] at hmatches
  generalize Arena.ofSymbols limits (ts.words.map Token.symbol) = y at hmatches
  cases hmatches with
  | ok hheld => exact hheld.2

/-- A formula that is read keeps the limits on the text, its depth and its nodes, whichever of the
limits would be looked at first. -/
theorem Formula.within_of_parse {limits : Limits} {source : String} {f : Formula}
    (h : Formula.parse limits source = .ok f) :
    source.utf8ByteSize ≤ limits.maxFormulaLen ∧ f.tree.size ≤ limits.maxNodes ∧
      f.tree.depth ≤ limits.maxDepth := by
  unfold Formula.parse at h
  split at h
  · cases h
  next hlen =>
    obtain ⟨ts, -, h⟩ := Except.bind_eq_ok.1 h
    obtain ⟨t, ht, h⟩ := Except.bind_eq_ok.1 h
    cases h
    exact ⟨Nat.le_of_not_lt hlen, Tokens.within_of_parse ht⟩

/-- The words of a text are refused with the fault of where their symbols halt. So what is shown of
halting symbols is shown of refused texts. -/
theorem Tokens.parse_eq_error_iff {limits : Limits} {ts : Tokens} {e : Fault} :
    ts.parse limits = .error e ↔
      ∃ h, Arena.ofSymbols limits (ts.words.map Token.symbol) = .error h ∧ ts.faultAt h = e := by
  have hmatches := ts.matches_ofSymbols limits
  generalize ts.parse limits = x at hmatches ⊢
  generalize Arena.ofSymbols limits (ts.words.map Token.symbol) = y at hmatches ⊢
  cases hmatches with
  | ok h => simp
  | error h => simp

/-- The arena of a text holds the tree of its formula, or both are refused with one fault. So the
formula may be thought of as its tree. -/
theorem Arena.map_tree?_parse (limits : Limits) (source : String) :
    (Arena.parse limits source).map Arena.tree? =
      (Formula.parse limits source).map fun f => some f.tree := by
  unfold Arena.parse Formula.parse
  split
  · rfl
  -- The words are the same for both, and so is every check before they are read.
  cases tokenize source with
  | error e => rfl
  | ok ts =>
    have hmatches := (ts.matches_ofSymbols limits).map_eq (f := some)
      (g := Arena.tree?) fun t a h => h.1.symm
    show (ts.arena limits).map Arena.tree? = _
    unfold Tokens.arena
    rw [← hmatches]
    show _ = (ts.parse limits >>= _).map _
    cases ts.parse limits with
    | error e => rfl
    | ok t => rfl

end UnitPlane
