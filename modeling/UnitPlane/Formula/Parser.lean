import UnitPlane.Formula.Lexer
import UnitPlane.Formula.Tree
import UnitPlane.Limits

/-!
# `UnitPlane.Formula.Parser`: trees from words

```text
expr    := term (('+' | '-') term)*
term    := unary (('*' | '/') unary)*
unary   := ('-' | '+') unary | power
power   := primary ('**' unary)?
primary := NUMBER | 'x' | 'y' | '(' expr ')'
```

A minus negates a number at once and is a factor of minus one before anything else. Each `unary` is
one level of nesting, so a text cannot nest more deeply than the limit on the tree's depth, and
reading recurses on the levels that are left. Every node built is counted, and the first limit or
error met in reading order is the one reported. A reader returns the tree and the place it stopped
at, with fewer words left.
-/

set_option autoImplicit false

namespace UnitPlane

/-- How far a reader has come: the words not yet read, and the number of nodes built. -/
structure Place where
  words : List Token
  nodes : Nat

/-- A place with fewer words left than `p` has. -/
abbrev Beyond (p : Place) := { q : Place // q.words.length < p.words.length }

/-- A place with at most the words left that `p` has. -/
abbrev NotBefore (p : Place) := { q : Place // q.words.length ≤ p.words.length }

/-- A reader of one kind of expression. -/
abbrev Reader := (p : Place) → Except Fault (Tree × Beyond p)

/-- What readers go by: the limits, and where the text ends. -/
structure Setting where
  limits : Limits
  /-- The length of the text, which is the position of whatever is missing at its end. -/
  length : Nat

namespace Setting

/-- The next word, or the end of the text. -/
def peek (s : Setting) (p : Place) : Token := p.words.headD ⟨.stop, s.length, s.length⟩

/-- Counts one more node. -/
def addNode (s : Setting) (nodes : Nat) : Except Fault Nat :=
  if nodes < s.limits.maxNodes then pure (nodes + 1)
  else throw (.limitExceeded .nodes (nodes + 1) s.limits.maxNodes)

/-- Where a word leads to a tree of one node. -/
def leaf (s : Setting) (p : Place) (t : Tree) {w : Token} {rest : List Token}
    (h : p.words = w :: rest) : Except Fault (Tree × Beyond p) := do
  let nodes ← s.addNode p.nodes
  pure (t, ⟨⟨rest, nodes⟩, by simp [h]⟩)

/-- A number, a variable, or an expression in brackets. -/
def primary (s : Setting) (expr : Reader) : Reader := fun p =>
  match h : p.words with
  | [] => throw ((s.peek p).unexpected .operand)
  | w :: rest =>
    match w.symbol with
    | .number value => s.leaf p (.literal value) h
    | .name name =>
      if rest.head?.map Token.symbol = some .openBracket then
        throw (.unsupportedOperator (.call name))
      else
        match Variable.ofName? name with
        | some v => s.leaf p (.var v) h
        | none => throw (.unknownVariable name w.start)
    | .openBracket => do
      let (inner, ⟨q, hq⟩) ← expr ⟨rest, p.nodes⟩
      match h' : q.words with
      | ⟨.closeBracket, _, _⟩ :: rest' =>
        pure (inner, ⟨⟨rest', q.nodes⟩, by
          simp only [h, h', List.length_cons] at hq ⊢
          omega⟩)
      | _ => throw ((s.peek q).unexpected .closingBracket)
    | _ => throw (w.unexpected .operand)

/-- A primary expression, or a power of one. -/
def power (s : Setting) (primary unary : Reader) : Reader := fun p => do
  let (base, ⟨q, hq⟩) ← primary p
  match h : q.words with
  | ⟨.doubleStar, _, _⟩ :: rest =>
    let (exponent, ⟨r, hr⟩) ← unary ⟨rest, q.nodes⟩
    let nodes ← s.addNode r.nodes
    pure (.binary .pow base exponent, ⟨⟨r.words, nodes⟩, by
      simp only [h, List.length_cons] at hq hr ⊢
      omega⟩)
  | _ => pure (base, ⟨q, hq⟩)

/-- The negation of a tree, and the number of nodes with it. -/
def negate (s : Setting) (t : Tree) (nodes : Nat) : Except Fault (Tree × Nat) :=
  match t with
  | .literal value => pure (.literal (-value), nodes)
  | t => do
    let nodes ← s.addNode nodes
    let nodes ← s.addNode nodes
    pure (.binary .mul (.literal (-1)) t, nodes)

/-- Operands joined by operators of one rank, grouped from the left, after the operand `left`. -/
def chainRest (s : Setting) (operator? : Symbol → Option Operator) (operand : Reader) (left : Tree)
    (p : Place) : Except Fault (Tree × NotBefore p) :=
  match h : p.words with
  | [] => pure (left, ⟨p, Nat.le_refl _⟩)
  | w :: rest =>
    match operator? w.symbol with
    | none => pure (left, ⟨p, Nat.le_refl _⟩)
    | some op => do
      let (right, ⟨q, hq⟩) ← operand ⟨rest, p.nodes⟩
      let nodes ← s.addNode q.nodes
      let (t, ⟨r, hr⟩) ← s.chainRest operator? operand (.binary op left right) ⟨q.words, nodes⟩
      pure (t, ⟨r, by
        simp only [h, List.length_cons] at hq hr ⊢
        omega⟩)
termination_by p.words.length
decreasing_by
  simp only [h, List.length_cons] at hq ⊢
  omega

/-- Operands joined by operators of one rank, grouped from the left. -/
def chain (s : Setting) (operator? : Symbol → Option Operator) (operand : Reader) : Reader :=
  fun p => do
    let (left, ⟨q, hq⟩) ← operand p
    let (t, ⟨r, hr⟩) ← s.chainRest operator? operand left q
    pure (t, ⟨r, by omega⟩)

/-- The operators between terms. -/
def sumOperator? : Symbol → Option Operator
  | .plus => some .add
  | .minus => some .sub
  | _ => none

/-- The operators between factors. -/
def productOperator? : Symbol → Option Operator
  | .star => some .mul
  | .slash => some .div
  | _ => none

/-- Sums of products, given how their factors are read. -/
def sumOf (s : Setting) (unary : Reader) : Reader :=
  s.chain sumOperator? (s.chain productOperator? unary)

/-- The signs in front of an expression: after a sign `inner` reads on, and without one `unsigned`
does. A plus sign leaves nothing behind. -/
def signed (s : Setting) (inner unsigned : Reader) : Reader := fun p =>
  match h : p.words with
  | ⟨.minus, _, _⟩ :: rest => do
    let (operand, ⟨q, hq⟩) ← inner ⟨rest, p.nodes⟩
    let (t, nodes) ← s.negate operand q.nodes
    pure (t, ⟨⟨q.words, nodes⟩, by
      simp only [h, List.length_cons] at hq ⊢
      omega⟩)
  | ⟨.plus, _, _⟩ :: rest => do
    let (operand, ⟨q, hq⟩) ← inner ⟨rest, p.nodes⟩
    pure (operand, ⟨q, by
      simp only [h, List.length_cons] at hq ⊢
      omega⟩)
  | _ => unsigned p

/-- A power with any number of signs in front of it, where `levels` more levels of nesting are
allowed. -/
def unary (s : Setting) : (levels : Nat) → Reader
  | 0 => fun _ => throw (.limitExceeded .depth (s.limits.maxDepth + 1) s.limits.maxDepth)
  | levels + 1 => fun p =>
    let inner := s.unary levels
    s.signed inner (s.power (s.primary (s.sumOf inner)) inner) p

/-- A whole expression. -/
def expr (s : Setting) : Reader := s.sumOf (s.unary s.limits.maxDepth)

end Setting

/-- The tree of a text's words. -/
def Tokens.parse (limits : Limits) (ts : Tokens) : Except Fault Tree := do
  let s : Setting := ⟨limits, ts.length⟩
  if ts.words.isEmpty then throw (.badSyntax 0 .emptyFormula)
  let (t, ⟨q, _⟩) ← s.expr ⟨ts.words, 0⟩
  if q.words.isEmpty then
    if t.depth ≤ limits.maxDepth then pure t
    else throw (.limitExceeded .depth t.depth limits.maxDepth)
  else throw ((s.peek q).unexpected .endOfFormula)

/-- The formula that a text stands for. -/
def Formula.parse (limits : Limits) (source : String) : Except Fault Formula := do
  if limits.maxFormulaLen < source.utf8ByteSize then
    throw (.limitExceeded .formulaLen source.utf8ByteSize limits.maxFormulaLen)
  let ts ← tokenize source
  let tree ← ts.parse limits
  pure ⟨tree, source⟩

end UnitPlane
