import UnitPlane.Formula.Arena
import UnitPlane.Proofs.Support.Except

/-!
# `UnitPlane.Proofs.Formula.Arena.Reading`: the readers of arenas as equations

Each reader of an arena returns the number of a node and the site it stopped at. Without the proofs
that fewer symbols are left there, the readers satisfy the plain recursive equations stated here.
They are the equations of the readers of trees, with two differences: a node that is made is put at
the end of the array and returned by its number, and a minus sign looks up what it negates. So two
proofs that follow both kinds of readers go through the same cases in the same order.
-/

set_option autoImplicit false

namespace UnitPlane.Arena

variable (limits : Limits)

/-- A node is put in at the end and gets the next number, unless there are as many nodes already as
the limit allows. -/
theorem push_eq (node : Node) (p : Site) :
    push limits node p =
      if p.nodes.size < limits.maxNodes then .ok (p.nodes.size, p.nodes.push node)
      else .error (p.halt (.limit .nodes (p.nodes.size + 1) limits.maxNodes)) := rfl

/-- A leaf is put in, and the symbol that it stands for is passed over. -/
theorem plain_leaf {p : Site} {node : Node} {symbol : Symbol} {rest : List Symbol}
    (h : p.symbols = symbol :: rest) :
    Except.plain (leaf limits p node h) = push limits node p >>= fun r =>
      .ok (r.1, ⟨rest, r.2⟩) := by
  unfold leaf
  cases push limits node p with
  | error e => rfl
  | ok r => rfl

/-- An operand is a number, a variable, or an expression in brackets. Anything else halts the
reading, at the symbol that is not expected. -/
theorem plain_primary (expr : Reader) (p : Site) :
    Except.plain (primary limits expr p) =
      match p.symbols with
      | [] => .error (p.halt (.unexpected .operand))
      | symbol :: rest =>
        match symbol with
        | .number value => push limits (.literal value) p >>= fun r => .ok (r.1, ⟨rest, r.2⟩)
        | .name name =>
          if rest.head? = some .openBracket then .error (p.halt (.call name))
          else
            match Variable.ofName? name with
            | some v => push limits (.var v) p >>= fun r => .ok (r.1, ⟨rest, r.2⟩)
            | none => .error (p.halt (.unknownName name))
        | .openBracket =>
          Except.plain (expr ⟨rest, p.nodes⟩) >>= fun r =>
            match r.2.symbols with
            | .closeBracket :: rest' => .ok (r.1, ⟨rest', r.2.nodes⟩)
            | _ => .error (r.2.halt (.unexpected .closingBracket))
        | _ => .error (p.halt (.unexpected .operand)) := by
  obtain ⟨symbols, nodes⟩ := p
  cases symbols with
  | nil => rfl
  | cons symbol rest =>
    -- The cases are those of the reader, which looks at the next symbol alone.
    cases symbol with
    | number value => exact plain_leaf limits rfl
    | name name =>
      dsimp only [primary]
      rw [apply_ite Except.plain]
      refine congrArg (ite _ _) ?_
      cases Variable.ofName? name with
      | none => rfl
      | some v => exact plain_leaf limits rfl
    | openBracket =>
      refine Except.plain_bind fun inner q hq => ?_
      obtain ⟨symbols', nodes'⟩ := q
      cases symbols' with
      | nil => rfl
      | cons symbol' rest' => cases symbol' <;> rfl
    | plus | minus | star | doubleStar | slash | closeBracket | unsupported | stop => rfl

/-- A power is an operand, and after a double star an exponent with signs of its own. The exponent
is put in after the base, and the operator after both. -/
theorem plain_power (primary unary : Reader) (p : Site) :
    Except.plain (power limits primary unary p) =
      Except.plain (primary p) >>= fun r =>
        match r.2.symbols with
        | .doubleStar :: rest =>
          Except.plain (unary ⟨rest, r.2.nodes⟩) >>= fun q =>
            push limits (.binary .pow r.1 q.1) q.2 >>= fun s => .ok (s.1, ⟨q.2.symbols, s.2⟩)
        | _ => .ok r := by
  refine Except.plain_bind fun base q hq => ?_
  obtain ⟨symbols, nodes⟩ := q
  -- Only a double star goes on with the power.
  cases symbols with
  | nil => rfl
  | cons symbol rest =>
    cases symbol with
    | doubleStar =>
      refine Except.plain_bind fun exponent r hr => ?_
      dsimp only
      cases push limits (.binary .pow base exponent) r with
      | error e => rfl
      | ok s => rfl
    | number | name | plus | minus | star | slash | openBracket | closeBracket | unsupported
        | stop => rfl

/-- A number changes its sign in place, so that no node is added. -/
theorem negate_of_literal {p : Site} {id : Nat} {value : Float}
    (h : p.nodes[id]? = some (.literal value)) :
    negate limits id p = .ok (id, p.nodes.setIfInBounds id (.literal (-value))) := by
  rw [negate, h]
  rfl

/-- Any other operand is multiplied by minus one, which takes two more nodes. -/
theorem negate_of_ne {p : Site} {id : Nat} (h : ∀ value, p.nodes[id]? ≠ some (.literal value)) :
    negate limits id p =
      push limits (.literal (-1)) p >>= fun r =>
        push limits (.binary .mul r.1 id) ⟨p.symbols, r.2⟩ := by
  rw [negate]
  split
  next value hvalue => exact absurd hvalue (h value)
  · rfl

/-- A row of operands goes on as long as one of its operators is next. Each operator is put in after
its right operand and becomes the left one of the next. -/
theorem plain_chainRest (operator? : Symbol → Option Operator) (operand : Reader) (left : Nat)
    (p : Site) :
    Except.plain (chainRest limits operator? operand left p) =
      match p.symbols with
      | [] => .ok (left, p)
      | symbol :: rest =>
        match operator? symbol with
        | none => .ok (left, p)
        | some op =>
          Except.plain (operand ⟨rest, p.nodes⟩) >>= fun q =>
            push limits (.binary op left q.1) q.2 >>= fun r =>
              Except.plain (chainRest limits operator? operand r.1 ⟨q.2.symbols, r.2⟩) := by
  obtain ⟨symbols, nodes⟩ := p
  cases symbols with
  | nil =>
    rw [chainRest]
    rfl
  | cons symbol rest =>
    rw [chainRest]
    dsimp only
    -- The chain goes on as long as an operator comes next, and the proof about the rest is dropped
    -- at each step.
    cases operator? symbol with
    | none => rfl
    | some op =>
      refine Except.plain_bind fun right q hq => ?_
      dsimp only
      cases push limits (.binary op left right) q with
      | error e => rfl
      | ok r => exact Except.plain_bind_self fun _ _ _ => rfl

/-- A row of operands is the first operand and what follows it. -/
theorem plain_chain (operator? : Symbol → Option Operator) (operand : Reader) (p : Site) :
    Except.plain (chain limits operator? operand p) =
      Except.plain (operand p) >>= fun q =>
        Except.plain (chainRest limits operator? operand q.1 q.2) :=
  Except.plain_bind fun _ _ _ => Except.plain_bind_self fun _ _ _ => rfl

/-- A signed operand is what is negated after a minus sign, what follows a plus sign, or an operand
without a sign. -/
theorem plain_signedBy (negation : Negation) (inner unsigned : Reader) (p : Site) :
    Except.plain (signedBy negation inner unsigned p) =
      match p.symbols with
      | .minus :: rest =>
        Except.plain (inner ⟨rest, p.nodes⟩) >>= fun q =>
          negation q.1 q.2 >>= fun r => .ok (r.1, ⟨q.2.symbols, r.2⟩)
      | .plus :: rest => Except.plain (inner ⟨rest, p.nodes⟩)
      | _ => Except.plain (unsigned p) := by
  obtain ⟨symbols, nodes⟩ := p
  -- Only the two signs are taken off.
  cases symbols with
  | nil => rfl
  | cons symbol rest =>
    cases symbol with
    | minus =>
      refine Except.plain_bind fun operand q hq => ?_
      dsimp only
      cases negation operand q with
      | error e => rfl
      | ok r => rfl
    | plus => exact Except.plain_bind_self fun _ _ _ => rfl
    | number | name | star | doubleStar | slash | openBracket | closeBracket | unsupported | stop =>
      rfl

/-- A row of symbols is read as a whole expression, and then nothing may be left, and the tree may
not be too deep. The depth is looked at last. -/
theorem ofSymbols_eq (symbols : List Symbol) :
    ofSymbols limits symbols =
      if symbols.isEmpty then .error ⟨.nothing, 0⟩
      else
        Except.plain (expr limits ⟨symbols, #[]⟩) >>= fun r =>
          if r.2.symbols.isEmpty then
            if depth ⟨r.2.nodes, r.1⟩ ≤ limits.maxDepth then .ok ⟨r.2.nodes, r.1⟩
            else .error (r.2.halt (.limit .depth (depth ⟨r.2.nodes, r.1⟩) limits.maxDepth))
          else .error (r.2.halt (.unexpected .endOfFormula)) := by
  unfold ofSymbols
  split
  · rfl
  · cases expr limits ⟨symbols, #[]⟩ with
    | error h => rfl
    | ok r => rfl

end UnitPlane.Arena
