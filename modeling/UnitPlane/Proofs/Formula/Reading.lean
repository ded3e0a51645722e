import UnitPlane.Proofs.Formula.Grammar
import UnitPlane.Proofs.Support.Except

/-!
# `UnitPlane.Proofs.Formula.Reading`: the readers of formulas as equations

Each reader of a formula returns a tree and the place it stopped at. The place comes with a proof
that fewer words are left there, which is why the readers end, and nothing else needs that proof.
`Except.plain` leaves it out, and without it the readers satisfy the plain recursive equations
stated here: one for each rule of `Setting`, with the cases in the order in which the rule tries
them. What is proved of formulas that are read starts from these equations, or from those for
arenas.
-/

set_option autoImplicit false

namespace UnitPlane.Setting

variable (s : Setting)

/-- A node is counted as long as there are fewer than the limit allows. -/
theorem addNode_of_lt {s : Setting} {nodes : Nat} (h : nodes < s.limits.maxNodes) :
    s.addNode nodes = .ok (nodes + 1) := if_pos h

/-- A leaf is counted, and the word that it stands for is passed over. -/
theorem plain_leaf {p : Place} {t : Tree} {w : Token} {rest : List Token}
    (h : p.words = w :: rest) :
    Except.plain (s.leaf p t h) = s.addNode p.nodes >>= fun nodes => .ok (t, ⟨rest, nodes⟩) := by
  unfold leaf
  cases s.addNode p.nodes with
  | error e => rfl
  | ok nodes => rfl

/-- An operand is a number, a variable, or an expression in brackets. A name in front of a bracket
is a call, which is refused as such. -/
theorem plain_primary (expr : Reader) (p : Place) :
    Except.plain (s.primary expr p) =
      match p.words with
      | [] => .error ((s.peek p).unexpected .operand)
      | w :: rest =>
        match w.symbol with
        | .number value => s.addNode p.nodes >>= fun nodes => .ok (.literal value, ⟨rest, nodes⟩)
        | .name name =>
          if rest.head?.map Token.symbol = some .openBracket then
            .error (.unsupportedOperator (.call name))
          else
            match Variable.ofName? name with
            | some v => s.addNode p.nodes >>= fun nodes => .ok (.var v, ⟨rest, nodes⟩)
            | none => .error (.unknownVariable name w.start)
        | .openBracket =>
          Except.plain (expr ⟨rest, p.nodes⟩) >>= fun r =>
            match r.2.words with
            | ⟨.closeBracket, _, _⟩ :: rest' => .ok (r.1, ⟨rest', r.2.nodes⟩)
            | _ => .error ((s.peek r.2).unexpected .closingBracket)
        | _ => .error (w.unexpected .operand) := by
  obtain ⟨words, nodes⟩ := p
  cases words with
  | nil => rfl
  | cons w rest =>
    obtain ⟨symbol, start, stop⟩ := w
    -- The cases are those of the reader, which looks at the next word alone.
    cases symbol with
    | number value => exact s.plain_leaf rfl
    | name name =>
      dsimp only [primary]
      rw [apply_ite Except.plain]
      refine congrArg (ite _ _) ?_
      cases Variable.ofName? name with
      | none => rfl
      | some v => exact s.plain_leaf rfl
    | openBracket =>
      refine Except.plain_bind fun inner q hq => ?_
      obtain ⟨words', nodes'⟩ := q
      cases words' with
      | nil => rfl
      | cons w' rest' =>
        obtain ⟨symbol', start', stop'⟩ := w'
        cases symbol' <;> rfl
    | plus | minus | star | doubleStar | slash | closeBracket | unsupported | stop => rfl

/-- A power is an operand, and after a double star an exponent with signs of its own. Its node is
counted after both. -/
theorem plain_power (primary unary : Reader) (p : Place) :
    Except.plain (s.power primary unary p) =
      Except.plain (primary p) >>= fun r =>
        match r.2.words with
        | ⟨.doubleStar, _, _⟩ :: rest =>
          Except.plain (unary ⟨rest, r.2.nodes⟩) >>= fun q =>
            s.addNode q.2.nodes >>= fun nodes =>
              .ok (.binary .pow r.1 q.1, ⟨q.2.words, nodes⟩)
        | _ => .ok r := by
  refine Except.plain_bind fun base q hq => ?_
  obtain ⟨words, nodes⟩ := q
  cases words with
  | nil => rfl
  | cons w rest =>
    obtain ⟨symbol, start, stop⟩ := w
    cases symbol with
    | doubleStar =>
      refine Except.plain_bind fun exponent r hr => ?_
      dsimp only
      cases s.addNode r.nodes with
      | error e => rfl
      | ok nodes => rfl
    | number | name | plus | minus | star | slash | openBracket | closeBracket | unsupported
        | stop => rfl

/-- A row of operands goes on as long as one of its operators is next. Each operator takes all that
was read before as its left operand. -/
theorem plain_chainRest (operator? : Symbol → Option Operator) (operand : Reader) (left : Tree)
    (p : Place) :
    Except.plain (s.chainRest operator? operand left p) =
      match p.words with
      | [] => .ok (left, p)
      | w :: rest =>
        match operator? w.symbol with
        | none => .ok (left, p)
        | some op =>
          Except.plain (operand ⟨rest, p.nodes⟩) >>= fun q =>
            s.addNode q.2.nodes >>= fun nodes =>
              Except.plain
                (s.chainRest operator? operand (.binary op left q.1) ⟨q.2.words, nodes⟩) := by
  obtain ⟨words, nodes⟩ := p
  cases words with
  | nil =>
    rw [chainRest]
    rfl
  | cons w rest =>
    rw [chainRest]
    dsimp only
    cases operator? w.symbol with
    | none => rfl
    | some op =>
      refine Except.plain_bind fun right q hq => ?_
      dsimp only
      cases s.addNode q.nodes with
      | error e => rfl
      | ok nodes => exact Except.plain_bind_self fun _ _ _ => rfl

/-- A row of operands is the first operand and what follows it. -/
theorem plain_chain (operator? : Symbol → Option Operator) (operand : Reader) (p : Place) :
    Except.plain (s.chain operator? operand p) =
      Except.plain (operand p) >>= fun q =>
        Except.plain (s.chainRest operator? operand q.1 q.2) :=
  Except.plain_bind fun _ _ _ => Except.plain_bind_self fun _ _ _ => rfl

/-- The number of nodes a negation takes, and the tree it denotes: none for a number, and otherwise
two. -/
theorem negate_eq (t : Tree) (nodes : Nat) :
    s.negate t nodes =
      if t matches .literal _ then .ok (t.negated, nodes)
      else s.addNode nodes >>= fun n => s.addNode n >>= fun n => .ok (t.negated, n) := by
  cases t <;> rfl

/-- Anything but a number is negated by a product with minus one. -/
theorem negate_of_ne {t : Tree} {n : Nat} (h : ∀ value, t ≠ .literal value) :
    s.negate t n = s.addNode n >>= fun n => s.addNode n >>= fun n =>
      .ok (.binary .mul (.literal (-1)) t, n) := by
  cases t with
  | literal value => exact absurd rfl (h value)
  | var | binary => rfl

/-- A signed operand is what is negated after a minus sign, what follows a plus sign, or an operand
without a sign. -/
theorem plain_signed (inner unsigned : Reader) (p : Place) :
    Except.plain (s.signed inner unsigned p) =
      match p.words with
      | ⟨.minus, _, _⟩ :: rest =>
        Except.plain (inner ⟨rest, p.nodes⟩) >>= fun q =>
          s.negate q.1 q.2.nodes >>= fun r => .ok (r.1, ⟨q.2.words, r.2⟩)
      | ⟨.plus, _, _⟩ :: rest => Except.plain (inner ⟨rest, p.nodes⟩)
      | _ => Except.plain (unsigned p) := by
  obtain ⟨words, nodes⟩ := p
  cases words with
  | nil => rfl
  | cons w rest =>
    obtain ⟨symbol, start, stop⟩ := w
    cases symbol with
    | minus =>
      refine Except.plain_bind fun operand q hq => ?_
      dsimp only
      cases s.negate operand q.nodes with
      | error e => rfl
      | ok r => rfl
    | plus => exact Except.plain_bind_self fun _ _ _ => rfl
    | number | name | star | doubleStar | slash | openBracket | closeBracket | unsupported | stop =>
      rfl

/-- With a level of nesting left, signs come first, and a power without one uses up the level. -/
theorem plain_unary_succ (levels : Nat) (p : Place) :
    Except.plain (s.unary (levels + 1) p) =
      match p.words with
      | ⟨.minus, _, _⟩ :: rest =>
        Except.plain (s.unary levels ⟨rest, p.nodes⟩) >>= fun q =>
          s.negate q.1 q.2.nodes >>= fun r => .ok (r.1, ⟨q.2.words, r.2⟩)
      | ⟨.plus, _, _⟩ :: rest => Except.plain (s.unary levels ⟨rest, p.nodes⟩)
      | _ =>
        Except.plain (s.power (s.primary (s.sumOf (s.unary levels))) (s.unary levels) p) :=
  s.plain_signed (s.unary levels) _ p

end UnitPlane.Setting
