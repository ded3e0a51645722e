import UnitPlane.Proofs.Formula.Agreement
import UnitPlane.Proofs.Formula.Letters
import UnitPlane.Proofs.Formula.Limits

/-!
# `UnitPlane.Proofs.Formula.Exchange`: formulas with the variables exchanged

`Tree.exchanged` puts `y` for `x` and `x` for `y`. Nothing that is done with a tree prefers one
variable to the other, so every outcome has a mirror image: the same with the variables exchanged,
or a fault of the same code. `Mirrors` is that relation between two outcomes, and it passes from
step to step. Each rule for readers keeps it, and so does each walk:

* `Mirrors.parse`: a text with the letters exchanged is read as the tree with the variables
  exchanged.
* `Mirrors.value?` and `Mirrors.dimension?`: the tree with the variables exchanged has the same
  value and dimension once the coordinates are exchanged too.
-/

set_option autoImplicit false

namespace UnitPlane

/-! ### Mirror images -/

/-- The other variable. -/
def Variable.exchanged : Variable → Variable
  | x => y
  | y => x

/-- The tree with the variables exchanged. -/
def Tree.exchanged : Tree → Tree
  | var v => var v.exchanged
  | literal value => literal value
  | binary op l r => binary op l.exchanged r.exchanged

/-- The formula with the variables exchanged, in its tree and in its text. -/
def Formula.exchanged (f : Formula) : Formula := ⟨f.tree.exchanged, exchangeLetters f.source⟩

/-- The place a reader has come to in the words with the letters exchanged. -/
def Place.exchanged (p : Place) : Place := ⟨p.words.map Token.exchanged, p.nodes⟩

namespace Tree

/-- A tree is as deep with the variables exchanged. -/
theorem depth_exchanged (t : Tree) : t.exchanged.depth = t.depth := by
  induction t with
  | var v => rfl
  | literal value => rfl
  | binary op l r ihl ihr => rw [exchanged, depth, depth, ihl, ihr]

/-- With the coordinates exchanged too, the plain value is the same number. -/
theorem value_exchanged (x y : Float) (t : Tree) : t.exchanged.value y x = t.value x y := by
  induction t with
  | var v => cases v <;> rfl
  | literal value => rfl
  | binary op l r ihl ihr => rw [exchanged, value, value, ihl, ihr]

end Tree

/-- The outcome `y` mirrors the outcome `x`: its result is that of `x` under `g`, or its fault has
the code of that of `x`. -/
def Mirrors {α β : Type} (g : α → β) (x : Except Fault α) (y : Except Fault β) : Prop :=
  y.mapError Fault.code = (x.map g).mapError Fault.code

namespace Mirrors

section Steps

variable {α β γ δ : Type} {g : α → β} {g' : γ → δ}

/-- A result mirrors another if it is that one under `g`. -/
theorem ok (g : α → β) (a : α) : Mirrors g (.ok a) (.ok (g a)) := rfl

/-- A fault mirrors every other one of the same code. -/
theorem error {e e' : Fault} (h : e'.code = e.code) : Mirrors g (.error e) (.error e') :=
  congrArg Except.error h

/-- Either both fail with the same code, or both have a result, that of the second being that of the
first under `g`. -/
theorem error_or_ok {x : Except Fault α} {y : Except Fault β} (h : Mirrors g x y) :
    (∃ e e', x = .error e ∧ y = .error e' ∧ e'.code = e.code) ∨ ∃ a, x = .ok a ∧ y = .ok (g a) := by
  cases x with
  | error e =>
    cases y with
    | error e' => exact .inl ⟨e, e', rfl, rfl, Except.error.inj h⟩
    | ok b => cases h
  | ok a =>
    cases y with
    | error e' => cases h
    | ok b => exact .inr ⟨a, rfl, congrArg Except.ok (Except.ok.inj h)⟩

/-- Steps that mirror one after another mirror together. What follows may use that the first result
is the one that was returned. -/
theorem bind_of_eq_ok {x : Except Fault α} {y : Except Fault β} {f : α → Except Fault γ}
    {f' : β → Except Fault δ} (h : Mirrors g x y)
    (hf : ∀ a, x = .ok a → Mirrors g' (f a) (f' (g a))) :
    Mirrors g' (x >>= f) (y >>= f') := by
  rcases h.error_or_ok with ⟨e, e', rfl, rfl, hcode⟩ | ⟨a, rfl, rfl⟩
  · exact error hcode
  · exact hf a rfl

/-- Steps that mirror one after another mirror together, whatever the results in between. -/
theorem bind {x : Except Fault α} {y : Except Fault β} {f : α → Except Fault γ}
    {f' : β → Except Fault δ} (h : Mirrors g x y) (hf : ∀ a, Mirrors g' (f a) (f' (g a))) :
    Mirrors g' (x >>= f) (y >>= f') :=
  h.bind_of_eq_ok fun a _ => hf a

/-- A step without variables is its own mirror image, so only what follows it has to be compared. -/
theorem step {x : Except Fault α} {f : α → Except Fault γ} {f' : α → Except Fault δ}
    (hf : ∀ a, Mirrors g' (f a) (f' a)) : Mirrors g' (x >>= f) (x >>= f') := by
  refine bind (g := id) ?_ hf
  unfold Mirrors
  rw [Except.map_id]
  rfl

/-- Where one has a result the other has, and it is the result under `g`. -/
theorem toOption {x : Except Fault α} {y : Except Fault β} (h : Mirrors g x y) :
    y.toOption = x.toOption.map g := by
  rcases h.error_or_ok with ⟨e, e', rfl, rfl, -⟩ | ⟨a, rfl, rfl⟩
  · rfl
  · rfl

/-- What is done with results that mirror each other gives results that do. -/
theorem map {x : Except Fault α} {y : Except Fault β} {f : α → γ} {f' : β → δ} (h : Mirrors g x y)
    (hf : ∀ a, g' (f a) = f' (g a)) : Mirrors g' (x.map f) (y.map f') := by
  rcases h.error_or_ok with ⟨e, e', rfl, rfl, hcode⟩ | ⟨a, rfl, rfl⟩
  · exact error hcode
  · exact congrArg Except.ok (hf a).symm

end Steps

end Mirrors

/-! ### Readers -/

/-- What was read, with the variables exchanged in the tree and the letters in the words that are
left. -/
def exchangeRead (r : Tree × Place) : Tree × Place := (r.1.exchanged, r.2.exchanged)

/-- On words with the letters exchanged, the reader does the same with the variables exchanged. -/
def MirrorsReader (read : Reader) : Prop :=
  ∀ p, Mirrors exchangeRead (Except.plain (read p)) (Except.plain (read p.exchanged))

/-- A word that is not expected is refused with one code, whichever letter it is. -/
theorem Token.code_unexpected_exchanged (expected : Expectation) (t : Token) :
    (t.exchanged.unexpected expected).code = (t.unexpected expected).code := by
  obtain ⟨symbol, start, stop⟩ := t
  cases symbol <;> rfl

/-- What is missing in a text is missing in its mirror image. Only the words differ, and the place
is the same. -/
theorem Setting.code_peek_exchanged (s : Setting) (expected : Expectation) (p : Place) :
    ((s.peek p.exchanged).unexpected expected).code = ((s.peek p).unexpected expected).code := by
  obtain ⟨words, nodes⟩ := p
  cases words with
  | nil => rfl
  | cons w rest => exact w.code_unexpected_exchanged expected

/-- The name of a variable with the letters exchanged is that of the other variable, and every other
name is still none. -/
theorem Variable.ofName?_exchangeLetters (name : String) :
    ofName? (exchangeLetters name) = (ofName? name).map exchanged := by
  -- The exchange is its own inverse, so a name is exchanged to another just when that one is
  -- exchanged to it.
  have heq {s s' : String} (h : exchangeLetters s = s') : exchangeLetters name = s' ↔ name = s := by
    rw [← h]
    constructor
    · intro hname
      rw [← exchangeLetters_exchangeLetters name, hname, exchangeLetters_exchangeLetters]
    · intro hname
      rw [hname]
  have hx : exchangeLetters name = "x" ↔ name = "y" := heq (by decide)
  have hy : exchangeLetters name = "y" ↔ name = "x" := heq (by decide)
  unfold ofName?
  simp only [hx, hy]
  by_cases h : name = "x"
  · subst h
    rfl
  by_cases h' : name = "y"
  · subst h'
    rfl
  rw [if_neg h, if_neg h', if_neg h, if_neg h']
  rfl

namespace MirrorsReader

open Setting

variable {s : Setting}

/-- Operands mirror if expressions in brackets do. It is here that a name is taken for a
variable. -/
theorem primary {expr : Reader} (h : MirrorsReader expr) : MirrorsReader (s.primary expr) := by
  intro p
  rw [plain_primary, plain_primary]
  obtain ⟨words, nodes⟩ := p
  cases words with
  | nil => exact .error rfl
  | cons w rest =>
    have hunexpected := w.code_unexpected_exchanged .operand
    obtain ⟨symbol, start, stop⟩ := w
    cases symbol with
    | number value => exact .step fun _ => .ok _ _
    | name name =>
      -- An opening bracket is still one with the letters exchanged.
      have hcall : ((rest.map Token.exchanged).head?.map Token.symbol = some .openBracket) =
          (rest.head?.map Token.symbol = some .openBracket) := by
        cases rest with
        | nil => rfl
        | cons w' rest =>
          obtain ⟨symbol', start', stop'⟩ := w'
          cases symbol' <;> simp [Token.exchanged, Symbol.exchanged]
      simp only [Place.exchanged, List.map_cons, Token.exchanged, Symbol.exchanged, hcall,
        Variable.ofName?_exchangeLetters]
      split
      · exact .error rfl
      cases Variable.ofName? name with
      | none => exact .error rfl
      | some v => exact .step fun _ => .ok _ _
    | openBracket =>
      refine (h ⟨rest, nodes⟩).bind fun r => ?_
      obtain ⟨t, q⟩ := r
      have hmissing : Mirrors exchangeRead (.error ((s.peek q).unexpected .closingBracket))
          (.error ((s.peek q.exchanged).unexpected .closingBracket)) :=
        .error (s.code_peek_exchanged .closingBracket q)
      obtain ⟨words', nodes'⟩ := q
      cases words' with
      | nil => exact hmissing
      | cons w' rest' =>
        obtain ⟨symbol', start', stop'⟩ := w'
        cases symbol' with
        | closeBracket => exact .ok _ _
        | number | name | plus | minus | star | doubleStar | slash | openBracket
            | unsupported | stop =>
          exact hmissing
    | plus | minus | star | doubleStar | slash | closeBracket | unsupported | stop =>
      exact .error hunexpected

/-- Powers mirror if their bases and exponents do. -/
theorem power {primary unary : Reader} (hp : MirrorsReader primary) (hu : MirrorsReader unary) :
    MirrorsReader (s.power primary unary) := by
  intro p
  rw [plain_power, plain_power]
  refine (hp p).bind fun r => ?_
  obtain ⟨t, words, nodes⟩ := r
  -- Exchanging the letters leaves every symbol but a name as it is.
  cases words with
  | nil => exact .ok _ _
  | cons w rest =>
    obtain ⟨symbol, start, stop⟩ := w
    cases symbol with
    | doubleStar => exact (hu ⟨rest, nodes⟩).bind fun _ => .step fun _ => .ok _ _
    | number | name | plus | minus | star | slash | openBracket | closeBracket
        | unsupported | stop =>
      exact .ok _ _

/-- What follows an operand mirrors if operands do and no letter is an operator. -/
theorem chainRest {operator? : Symbol → Option Operator} {operand : Reader}
    (hop : ∀ symbol, operator? symbol.exchanged = operator? symbol) (h : MirrorsReader operand)
    (left : Tree) (p : Place) :
    Mirrors exchangeRead (Except.plain (s.chainRest operator? operand left p))
      (Except.plain (s.chainRest operator? operand left.exchanged p.exchanged)) := by
  -- The induction is on the words that are left, and the exchanged ones keep step with them.
  induction left, p using Reader.chain_induction operand with
  | step left p ih =>
    rw [plain_chainRest, plain_chainRest]
    obtain ⟨words, nodes⟩ := p
    cases words with
    | nil => exact .ok _ _
    | cons w rest =>
      simp only [Place.exchanged, List.map_cons, Token.exchanged, hop]
      cases operator? w.symbol with
      | none => exact .ok _ _
      | some op =>
        refine (h ⟨rest, nodes⟩).bind_of_eq_ok fun q hq => ?_
        exact .step fun nodes' => ih w rest q.1 q.2 rfl hq (.binary op left q.1) nodes'

/-- Rows of operands mirror if their operands do. -/
theorem chain {operator? : Symbol → Option Operator} {operand : Reader}
    (hop : ∀ symbol, operator? symbol.exchanged = operator? symbol) (h : MirrorsReader operand) :
    MirrorsReader (s.chain operator? operand) := by
  intro p
  rw [plain_chain, plain_chain]
  exact (h p).bind fun q => chainRest hop h q.1 q.2

/-- A negation mirrors, since a number takes the sign itself under both names. -/
theorem negate (t : Tree) (nodes : Nat) :
    Mirrors (fun r => (r.1.exchanged, r.2)) (s.negate t nodes) (s.negate t.exchanged nodes) := by
  cases t with
  | literal value => exact .ok _ _
  | var v => exact .step fun _ => .step fun _ => .ok _ _
  | binary op l r => exact .step fun _ => .step fun _ => .ok _ _

/-- Signed operands mirror if what follows the sign does, and what has no sign. -/
theorem signed {inner unsigned : Reader} (hi : MirrorsReader inner) (hu : MirrorsReader unsigned) :
    MirrorsReader (s.signed inner unsigned) := by
  intro p
  have hpower := hu p
  rw [plain_signed, plain_signed]
  obtain ⟨words, nodes⟩ := p
  -- The signs are the same in both texts.
  cases words with
  | nil => exact hpower
  | cons w rest =>
    obtain ⟨symbol, start, stop⟩ := w
    cases symbol with
    | minus => exact (hi ⟨rest, nodes⟩).bind fun q => (negate q.1 q.2.nodes).bind fun _ => .ok _ _
    | plus => exact hi ⟨rest, nodes⟩
    | number | name | star | doubleStar | slash | openBracket | closeBracket | unsupported | stop =>
      exact hpower

/-- No rule for readers prefers a letter: the operators are the same with the letters exchanged. -/
theorem keeps (s : Setting) : s.rules.Keeps fun _ => MirrorsReader where
  primary := primary
  power := power
  term := chain fun symbol => by cases symbol <;> rfl
  sum := chain fun symbol => by cases symbol <;> rfl
  signed := signed

/-- Without a level of nesting both readers refuse. -/
theorem expr (s : Setting) : MirrorsReader s.expr :=
  s.rules_expr ▸ (keeps s).expr (fun _ => .error rfl) s.limits.maxDepth

end MirrorsReader

/-! ### Texts -/

namespace Mirrors

/-- Words with the letters exchanged are read as the tree with the variables exchanged, and where
the one is refused so is the other. -/
theorem tokens_parse (limits : Limits) (ts : Tokens) :
    Mirrors Tree.exchanged (ts.parse limits) (ts.exchanged.parse limits) := by
  obtain ⟨words, length⟩ := ts
  rw [Tokens.parse_eq, Tokens.parse_eq]
  cases words with
  | nil => exact .error rfl
  | cons w rest =>
    refine (MirrorsReader.expr ⟨limits, length⟩ ⟨w :: rest, 0⟩).bind fun r => ?_
    obtain ⟨t, q⟩ := r
    have hleft := Setting.code_peek_exchanged ⟨limits, length⟩ .endOfFormula q
    obtain ⟨left, nodes⟩ := q
    -- What is left has to be nothing in both, and the depths of the two trees are the same.
    cases left with
    | nil =>
      show Mirrors _ (if t.depth ≤ limits.maxDepth then _ else _)
        (if t.exchanged.depth ≤ limits.maxDepth then _ else _)
      rw [t.depth_exchanged]
      split
      · exact .ok _ _
      · exact .error rfl
    | cons w' rest' => exact .error hleft

/-- A text with the letters exchanged is read as the formula with the variables exchanged. Both
texts have the same length and the same words but for the letters. -/
theorem parse (limits : Limits) (source : String) :
    Mirrors Formula.exchanged (Formula.parse limits source)
      (Formula.parse limits (exchangeLetters source)) := by
  unfold Formula.parse
  rw [utf8ByteSize_exchangeLetters, tokenize_exchangeLetters]
  split
  · exact .error rfl
  have htokens : Mirrors Tokens.exchanged (tokenize source)
    ((tokenize source).map Tokens.exchanged) := rfl
  exact htokens.bind fun ts => (tokens_parse limits ts).bind fun _ => .ok _ _

/-! ### Walks -/

/-- With the coordinates exchanged too, the value at a point is the same. Where the one divides by
zero so does the other. -/
theorem value? (x y : Float) (t : Tree) : Mirrors id (t.value? x y) (t.exchanged.value? y x) := by
  -- The induction is on the tree. A division by zero is one in both.
  induction t with
  | var v =>
    rw [Tree.exchanged, Tree.value?_var, Tree.value?_var]
    cases v <;> rfl
  | literal value =>
    rw [Tree.exchanged, Tree.value?_literal, Tree.value?_literal]
    exact .ok id value
  | binary op l r ihl ihr =>
    rw [Tree.exchanged, Tree.value?_binary, Tree.value?_binary]
    refine ihl.bind fun a => ihr.bind fun b => ?_
    dsimp only [id]
    split
    · exact .error rfl
    · exact .ok id _

/-- With the dimensions of the variables exchanged too, the typing is the same, its constant
included. -/
theorem typing? (x y : Dimension) (t : Tree) :
    Mirrors id (t.typing? x y) (t.exchanged.typing? y x) := by
  induction t with
  | var v =>
    rw [Tree.exchanged, Tree.typing?_var, Tree.typing?_var]
    cases v <;> rfl
  | literal value =>
    rw [Tree.exchanged, Tree.typing?_literal, Tree.typing?_literal]
    exact .ok id _
  | binary op l r ihl ihr =>
    rw [Tree.exchanged, Tree.typing?_binary, Tree.typing?_binary]
    refine ihl.bind fun a => ihr.bind fun b => ?_
    -- The trees take part in a fault by their texts only.
    have hcombine : Mirrors id
        (op.combine (.binary op l r) r a.dimension b.dimension b.constant)
        (op.combine (.binary op l.exchanged r.exchanged) r.exchanged a.dimension b.dimension
          b.constant) := by
      unfold Mirrors
      rw [Except.map_id]
      exact Tree.Interchangeable.mapError_combine op _ _ _ _ _ _ _
    exact hcombine.bind fun _ => .ok id _

/-- With the dimensions of the variables exchanged too, the dimension is the same. -/
theorem dimension? (x y : Dimension) (t : Tree) :
    Mirrors id (t.dimension? x y) (t.exchanged.dimension? y x) :=
  (typing? x y t).bind fun _ => .ok id _

end Mirrors

end UnitPlane
