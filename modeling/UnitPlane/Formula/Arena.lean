import UnitPlane.Formula.Parser

/-!
# `UnitPlane.Formula.Arena`: the nodes of a formula in one array

A formula is stored as an array of its nodes, in which an operator names its operands by their
numbers. The readers here put the nodes into the array in the order in which they are read: an
operator after its operands, and the minus one of a negation after the operand that is negated. A
number is negated where it stands.

The readers go by the symbols of the words alone. Where reading halts, a `Halt` says how many
symbols are left there, and the fault is found from the word at this place.
-/

set_option autoImplicit false

namespace UnitPlane

/-- A node of a formula. An operator has the numbers of its operands in the arena. -/
inductive Node where
  | var (v : Variable)
  | literal (value : Float)
  | binary (op : Operator) (left right : Nat)
deriving DecidableEq

/-- The nodes of a formula, and which of them is the whole. -/
structure Arena where
  nodes : Array Node
  root : Nat
deriving DecidableEq

/-- Why reading halts. -/
inductive Obstacle where
  /-- There are no symbols at all. -/
  | nothing
  /-- Another symbol was expected. -/
  | unexpected (expected : Expectation)
  /-- A name other than `x` and `y`. -/
  | unknownName (name : String)
  /-- A name with a bracket after it. -/
  | call (name : String)
  | limit (ceiling : Ceiling) (actual max : Nat)
deriving DecidableEq

/-- Where reading halts, by the number of symbols that are left there, and why. -/
structure Halt where
  obstacle : Obstacle
  left : Nat
deriving DecidableEq

/-- How far a reader has come: the symbols not yet read, and the nodes built. -/
structure Site where
  symbols : List Symbol
  nodes : Array Node

namespace Site

/-- A site with fewer symbols left than `p` has. -/
abbrev Beyond (p : Site) := { q : Site // q.symbols.length < p.symbols.length }

/-- A site with at most the symbols left that `p` has. -/
abbrev NotBefore (p : Site) := { q : Site // q.symbols.length ≤ p.symbols.length }

/-- Halts in front of what is left. -/
def halt (p : Site) (obstacle : Obstacle) : Halt := ⟨obstacle, p.symbols.length⟩

end Site

namespace Arena

/-- A reader of one kind of expression, which returns the number of its node. -/
abbrev Reader := (p : Site) → Except Halt (Nat × p.Beyond)

/-- Puts a node at the end of the arena. -/
def push (limits : Limits) (node : Node) (p : Site) : Except Halt (Nat × Array Node) :=
  if p.nodes.size < limits.maxNodes then pure (p.nodes.size, p.nodes.push node)
  else throw (p.halt (.limit .nodes (p.nodes.size + 1) limits.maxNodes))

/-- Where a symbol leads to one node. -/
def leaf (limits : Limits) (p : Site) (node : Node) {symbol : Symbol} {rest : List Symbol}
    (h : p.symbols = symbol :: rest) : Except Halt (Nat × p.Beyond) := do
  let (id, nodes) ← push limits node p
  pure (id, ⟨⟨rest, nodes⟩, by simp [h]⟩)

/-- A number, a variable, or an expression in brackets. -/
def primary (limits : Limits) (expr : Reader) : Reader := fun p =>
  match h : p.symbols with
  | [] => throw (p.halt (.unexpected .operand))
  | symbol :: rest =>
    match symbol with
    | .number value => leaf limits p (.literal value) h
    | .name name =>
      if rest.head? = some .openBracket then throw (p.halt (.call name))
      else
        match Variable.ofName? name with
        | some v => leaf limits p (.var v) h
        | none => throw (p.halt (.unknownName name))
    | .openBracket => do
      let (inner, ⟨q, hq⟩) ← expr ⟨rest, p.nodes⟩
      match h' : q.symbols with
      | .closeBracket :: rest' =>
        pure (inner, ⟨⟨rest', q.nodes⟩, by
          simp only [h, h', List.length_cons] at hq ⊢
          omega⟩)
      | _ => throw (q.halt (.unexpected .closingBracket))
    | _ => throw (p.halt (.unexpected .operand))

/-- A primary expression, or a power of one. -/
def power (limits : Limits) (primary unary : Reader) : Reader := fun p => do
  let (base, ⟨q, hq⟩) ← primary p
  match h : q.symbols with
  | .doubleStar :: rest =>
    let (exponent, ⟨r, hr⟩) ← unary ⟨rest, q.nodes⟩
    let (id, nodes) ← push limits (.binary .pow base exponent) r
    pure (id, ⟨⟨r.symbols, nodes⟩, by
      simp only [h, List.length_cons] at hq hr ⊢
      omega⟩)
  | _ => pure (base, ⟨q, hq⟩)

/-- The negation of a node. A number changes its sign in place. -/
def negate (limits : Limits) (operand : Nat) (p : Site) : Except Halt (Nat × Array Node) :=
  match p.nodes[operand]? with
  | some (.literal value) => pure (operand, p.nodes.setIfInBounds operand (.literal (-value)))
  | _ => do
    let (minusOne, nodes) ← push limits (.literal (-1)) p
    push limits (.binary .mul minusOne operand) ⟨p.symbols, nodes⟩

/-- Operands joined by operators of one rank, grouped from the left, after the operand `left`. -/
def chainRest (limits : Limits) (operator? : Symbol → Option Operator) (operand : Reader)
    (left : Nat) (p : Site) : Except Halt (Nat × p.NotBefore) :=
  match h : p.symbols with
  | [] => pure (left, ⟨p, Nat.le_refl _⟩)
  | symbol :: rest =>
    match operator? symbol with
    | none => pure (left, ⟨p, Nat.le_refl _⟩)
    | some op => do
      let (right, ⟨q, hq⟩) ← operand ⟨rest, p.nodes⟩
      let (id, nodes) ← push limits (.binary op left right) q
      let (id, ⟨r, hr⟩) ← chainRest limits operator? operand id ⟨q.symbols, nodes⟩
      pure (id, ⟨r, by
        simp only [h, List.length_cons] at hq hr ⊢
        omega⟩)
termination_by p.symbols.length
decreasing_by
  simp only [h, List.length_cons] at hq ⊢
  omega

/-- Operands joined by operators of one rank, grouped from the left. -/
def chain (limits : Limits) (operator? : Symbol → Option Operator) (operand : Reader) : Reader :=
  fun p => do
    let (left, ⟨q, hq⟩) ← operand p
    let (id, ⟨r, hr⟩) ← chainRest limits operator? operand left q
    pure (id, ⟨r, by omega⟩)

/-- Sums of products, given how their factors are read. -/
def sumOf (limits : Limits) (unary : Reader) : Reader :=
  chain limits Setting.sumOperator? (chain limits Setting.productOperator? unary)

/-- What is done with an operand at a minus sign. -/
abbrev Negation := (operand : Nat) → (p : Site) → Except Halt (Nat × Array Node)

/-- The signs in front of an expression, where `negation` is done at a minus sign: after a sign
`inner` reads on, and without one `unsigned` does. -/
def signedBy (negation : Negation) (inner unsigned : Reader) : Reader := fun p =>
  match h : p.symbols with
  | .minus :: rest => do
    let (operand, ⟨q, hq⟩) ← inner ⟨rest, p.nodes⟩
    let (id, nodes) ← negation operand q
    pure (id, ⟨⟨q.symbols, nodes⟩, by
      simp only [h, List.length_cons] at hq ⊢
      omega⟩)
  | .plus :: rest => do
    let (operand, ⟨q, hq⟩) ← inner ⟨rest, p.nodes⟩
    pure (operand, ⟨q, by
      simp only [h, List.length_cons] at hq ⊢
      omega⟩)
  | _ => unsigned p

/-- A power with any number of signs in front of it, where `levels` more levels of nesting are
allowed. -/
def unary (limits : Limits) : (levels : Nat) → Reader
  | 0 => fun p => throw (p.halt (.limit .depth (limits.maxDepth + 1) limits.maxDepth))
  | levels + 1 => fun p =>
    let inner := unary limits levels
    signedBy (negate limits) inner (power limits (primary limits (sumOf limits inner)) inner) p

/-- A whole expression. -/
def expr (limits : Limits) : Reader := sumOf limits (unary limits limits.maxDepth)

/-- The tree below a node. An operator comes after its operands, so the numbers get smaller on the
way down. -/
def treeFrom? (nodes : Array Node) (id : Nat) : Option Tree :=
  match nodes[id]? with
  | none => none
  | some (.var v) => some (.var v)
  | some (.literal value) => some (.literal value)
  | some (.binary op left right) =>
    if left < id ∧ right < id then
      (treeFrom? nodes left).bind fun l => (treeFrom? nodes right).map (.binary op l)
    else none
termination_by id
decreasing_by
  all_goals omega

/-- The tree that an arena holds. -/
def tree? (a : Arena) : Option Tree := treeFrom? a.nodes a.root

/-- The number of nodes on the longest path from a node down to a leaf. -/
def depthFrom (nodes : Array Node) (id : Nat) : Nat :=
  match nodes[id]? with
  | some (.binary _ left right) =>
    if left < id ∧ right < id then max (depthFrom nodes left) (depthFrom nodes right) + 1 else 1
  | _ => 1
termination_by id
decreasing_by
  all_goals omega

/-- The number of nodes on the longest path from the root to a leaf. -/
def depth (a : Arena) : Nat := depthFrom a.nodes a.root

/-- The arena of the symbols of a text. -/
def ofSymbols (limits : Limits) (symbols : List Symbol) : Except Halt Arena := do
  if symbols.isEmpty then throw ⟨.nothing, 0⟩
  let (root, ⟨q, _⟩) ← expr limits ⟨symbols, #[]⟩
  if q.symbols.isEmpty then
    let a : Arena := ⟨q.nodes, root⟩
    if a.depth ≤ limits.maxDepth then pure a
    else throw (q.halt (.limit .depth a.depth limits.maxDepth))
  else throw (q.halt (.unexpected .endOfFormula))

end Arena

/-- The word at which reading halts, or the end of the text. -/
def Tokens.wordAt (ts : Tokens) (h : Halt) : Token :=
  (ts.words.drop (ts.words.length - h.left)).headD ⟨.stop, ts.length, ts.length⟩

/-- The fault of halting there. -/
def Tokens.faultAt (ts : Tokens) (h : Halt) : Fault :=
  match h.obstacle with
  | .nothing => .badSyntax 0 .emptyFormula
  | .unexpected expected => (ts.wordAt h).unexpected expected
  | .unknownName name => .unknownVariable name (ts.wordAt h).start
  | .call name => .unsupportedOperator (.call name)
  | .limit ceiling actual max => .limitExceeded ceiling actual max

/-- The arena of a text's words. -/
def Tokens.arena (limits : Limits) (ts : Tokens) : Except Fault Arena :=
  (Arena.ofSymbols limits (ts.words.map Token.symbol)).mapError ts.faultAt

/-- The arena of the formula that a text stands for. -/
def Arena.parse (limits : Limits) (source : String) : Except Fault Arena := do
  if limits.maxFormulaLen < source.utf8ByteSize then
    throw (.limitExceeded .formulaLen source.utf8ByteSize limits.maxFormulaLen)
  let ts ← tokenize source
  ts.arena limits

end UnitPlane
