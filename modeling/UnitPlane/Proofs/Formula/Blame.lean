import UnitPlane.Proofs.Dimension
import UnitPlane.Proofs.Formula.Typing

/-!
# `UnitPlane.Proofs.Formula.Blame`: the rules for dimensions, and the node that breaks one

The dimension of a formula is found by a walk with a stack of operands. `Tree.HasDimension` states
the rules by recursion on the tree, with no stack: each node has the dimension that its operator
makes of those of its operands. `Tree.Breaks` says how a node whose operands have dimensions can
break the rule of its operator, and what the fault is then. A power looks at its exponent only for
its value, so the value of a tree without variables stands in for the constants that the walk
carries along.

* `Operator.combine_eq_error_iff`: an operator refuses its operands just when they break its rule.
* `Tree.typing?_eq_ok_iff`: the walk gives the dimension of the rules, and the value of a tree
  without variables.
* `Tree.dimension?_settled`: a formula has the dimension of the rules, or else the fault is that of
  the first node in post-order that breaks one.
-/

set_option autoImplicit false

namespace UnitPlane

/-- Exponents that were computed are refused just when there are none, with the fault of an exponent
that is too large. -/
theorem Dimension.orOverflow_eq_error_iff {o : Option Dimension} {e : Fault} :
    Dimension.orOverflow o = .error e ↔ o = none ∧ e = .exponentOverflow := by
  cases o with
  | none =>
    constructor
    · intro h
      cases h
      exact ⟨rfl, rfl⟩
    · rintro ⟨-, rfl⟩
      rfl
  | some d => exact ⟨nofun, nofun⟩

namespace Operator

/-! ### Rules of operators -/

/-- What a rule says of the exponents of the result: those of the operands of a sum, which are the
same, the sums for a product, the differences for a quotient, and for a power the multiples by the
value of the exponent, or none at all if the base has none. -/
def Combines (constant : Option Float) : Operator → Dimension → Dimension → Dimension → Prop
  | add, l, r, d | sub, l, r, d => l = r ∧ l = d
  | mul, l, r, d => ∀ b, (d.exponent b).val = (l.exponent b).val + (r.exponent b).val
  | div, l, r, d => ∀ b, (d.exponent b).val = (l.exponent b).val - (r.exponent b).val
  | pow, l, r, d =>
    r = .dimensionless ∧
      (l = .dimensionless ∧ d = .dimensionless ∨
        ∃ v p, constant = some v ∧ Exponent.ofFloat? v = some p ∧
          ∀ b, (d.exponent b).val = (l.exponent b).val * p.val)

/-- A rule that gives a dimension combines the exponents of the operands. The rule also asks the
exponents to fit, which this leaves out. -/
theorem Rule.combines {constant : Option Float} {op : Operator} {l r d : Dimension}
    (h : op.Rule constant l r d) : op.Combines constant l r d := by
  cases h with
  | add | sub => exact ⟨rfl, rfl⟩
  | mul h => exact Dimension.val_of_mul? h
  | div h => exact Dimension.val_of_div? h
  | powOfNumber => exact ⟨rfl, .inl ⟨rfl, rfl⟩⟩
  | pow hl hv hp h => exact ⟨rfl, .inr ⟨_, _, hv, hp, Dimension.val_of_pow? h⟩⟩

/-- How operands of dimensions `l` and `r` can break the rule of an operator between two trees, and
the fault that names the place: the operator's node for unlike summands, and its right operand for
an exponent. -/
inductive Violation (left right : Tree) (constant : Option Float) (l r : Dimension) :
    Operator → Fault → Prop
  | sum (h : l ≠ r) :
    Violation left right constant l r add (.dimensionMismatch (Tree.binary add left right).text l r)
  | difference (h : l ≠ r) :
    Violation left right constant l r sub (.dimensionMismatch (Tree.binary sub left right).text l r)
  | product (h : l.mul? r = none) : Violation left right constant l r mul .exponentOverflow
  | quotient (h : l.div? r = none) : Violation left right constant l r div .exponentOverflow
  | exponentDimension (hr : r ≠ .dimensionless) :
    Violation left right constant l r pow (.exponentDimension right.text r)
  | notConstant (hr : r = .dimensionless) (hl : l ≠ .dimensionless) (hv : constant = none) :
    Violation left right constant l r pow (.exponentValue right.text .notConstant)
  | notSimpleFraction {v : Float} (hr : r = .dimensionless) (hl : l ≠ .dimensionless)
      (hv : constant = some v) (hp : Exponent.ofFloat? v = none) :
    Violation left right constant l r pow (.exponentValue right.text .notSimpleFraction)
  | power {v : Float} {p : Exponent} (hr : r = .dimensionless) (hl : l ≠ .dimensionless)
      (hv : constant = some v) (hp : Exponent.ofFloat? v = some p) (h : l.pow? p = none) :
    Violation left right constant l r pow .exponentOverflow

variable {op : Operator} {left right : Tree} {constant : Option Float} {l r : Dimension} {e : Fault}

/-- A sum is refused just when the summands are unlike, and the fault has the dimensions of both. -/
theorem combineSum_eq_error_iff {whole : Tree} :
    (if l = r then pure l else throw (.dimensionMismatch whole.text l r) : Except Fault Dimension) =
        .error e ↔ l ≠ r ∧ e = .dimensionMismatch whole.text l r := by
  by_cases h : l = r
  · rw [if_pos h]
    exact ⟨nofun, fun hne => absurd h hne.1⟩
  · rw [if_neg h]
    exact ⟨fun herror => ⟨h, (Except.error.inj herror).symm⟩, fun herror => herror.2 ▸ rfl⟩

/-- A power is refused just when its operands break the rule of powers. There are four ways to break
it, which are looked for one after the other. -/
theorem combinePower_eq_error_iff :
    combinePower right l r constant = .error e ↔ Violation left right constant l r pow e := by
  constructor
  · intro h
    unfold combinePower at h
    split at h
    next hr =>
      cases h
      exact .exponentDimension (by simpa [Dimension.isDimensionless] using hr)
    next hr =>
      -- From here on the exponent has no dimension.
      have hr : r = .dimensionless := by simpa [Dimension.isDimensionless] using hr
      split at h
      · cases h
      next hl =>
        have hl : l ≠ .dimensionless := by simpa [Dimension.isDimensionless] using hl
        split at h
        · cases h
          exact .notConstant hr hl rfl
        next v =>
          split at h
          next hp =>
            cases h
            exact .notSimpleFraction hr hl rfl hp
          next p hp =>
            obtain ⟨hpow, rfl⟩ := Dimension.orOverflow_eq_error_iff.1 h
            exact .power hr hl rfl hp hpow
  · intro h
    unfold combinePower
    cases h with
    | exponentDimension hr =>
      rw [if_pos (by simpa [Dimension.isDimensionless] using hr)]
      rfl
    | notConstant hr hl hv =>
      rw [if_neg (by simpa [Dimension.isDimensionless] using hr),
        if_neg (by simpa [Dimension.isDimensionless] using hl), hv]
      rfl
    | notSimpleFraction hr hl hv hp =>
      rw [if_neg (by simpa [Dimension.isDimensionless] using hr),
        if_neg (by simpa [Dimension.isDimensionless] using hl), hv]
      simp only [hp]
      rfl
    | power hr hl hv hp h =>
      rw [if_neg (by simpa [Dimension.isDimensionless] using hr),
        if_neg (by simpa [Dimension.isDimensionless] using hl), hv]
      simp only [hp]
      exact Dimension.orOverflow_eq_error_iff.2 ⟨h, rfl⟩

/-- An operator refuses its operands just when they break its rule. So the fault of an operator is
known from its operands. -/
theorem combine_eq_error_iff :
    op.combine (.binary op left right) right l r constant = .error e ↔
      Violation left right constant l r op e := by
  -- Each operator has one kind of violation, but for powers, which have four.
  cases op with
  | add =>
    refine combineSum_eq_error_iff.trans ⟨?_, ?_⟩
    · rintro ⟨h, rfl⟩
      exact .sum h
    · intro h
      cases h with
      | sum h => exact ⟨h, rfl⟩
  | sub =>
    refine combineSum_eq_error_iff.trans ⟨?_, ?_⟩
    · rintro ⟨h, rfl⟩
      exact .difference h
    · intro h
      cases h with
      | difference h => exact ⟨h, rfl⟩
  | mul =>
    refine Dimension.orOverflow_eq_error_iff.trans ⟨?_, ?_⟩
    · rintro ⟨h, rfl⟩
      exact .product h
    · intro h
      cases h with
      | product h => exact ⟨h, rfl⟩
  | div =>
    refine Dimension.orOverflow_eq_error_iff.trans ⟨?_, ?_⟩
    · rintro ⟨h, rfl⟩
      exact .quotient h
    · intro h
      cases h with
      | quotient h => exact ⟨h, rfl⟩
  | pow => exact combinePower_eq_error_iff

end Operator

namespace Tree

/-! ### Rules of formulas -/

/-- The value of a tree without variables, which is the same at every point. A tree with variables
has no such value, even if they cancel. -/
def constant? (t : Tree) : Option Float := if t.hasVariable then none else some (t.value 0 0)

/-- The dimension of a tree by the rules: that of the variable, none for a number, and for an
operator what its rule makes of the dimensions of its operands. -/
inductive HasDimension (x y : Dimension) : Tree → Dimension → Prop
  | variableX : HasDimension x y (.var .x) x
  | variableY : HasDimension x y (.var .y) y
  | literal (value : Float) : HasDimension x y (.literal value) .dimensionless
  | binary {op : Operator} {left right : Tree} {l r d : Dimension} (hl : HasDimension x y left l)
      (hr : HasDimension x y right r) (h : op.Rule right.constant? l r d) :
    HasDimension x y (.binary op left right) d

/-- A node whose operands have dimensions by the rules and break the rule of its operator. -/
inductive Breaks (x y : Dimension) : Tree → Fault → Prop
  | intro {op : Operator} {left right : Tree} {l r : Dimension} {e : Fault}
      (hl : HasDimension x y left l) (hr : HasDimension x y right r)
      (h : op.Violation left right right.constant? l r e) : Breaks x y (.binary op left right) e

variable {x y : Dimension}

/-- An operator has a constant value just when both its operands have, and applies to their
values. -/
theorem constant?_binary (op : Operator) (l r : Tree) :
    (do pure (op.apply (← l.constant?) (← r.constant?))) = (binary op l r).constant? := by
  have hvariable : (binary op l r).hasVariable = (l.hasVariable || r.hasVariable) := rfl
  unfold constant?
  rw [hvariable]
  cases l.hasVariable with
  | true => rfl
  | false =>
    cases r.hasVariable with
    | true => rfl
    | false => rfl

/-! ### The walk follows the rules -/

/-- A typing is what it was made of: its dimension and its constant. -/
theorem typing_eq_iff {ty : Typing} {d : Dimension} {constant : Option Float} :
    (Except.ok ⟨d, constant⟩ : Except Fault Typing) = .ok ty ↔ d = ty.dimension ∧
    ty.constant = constant := by
  obtain ⟨d', constant'⟩ := ty
  rw [Except.ok.injEq, Typing.mk.injEq]
  exact and_congr_right fun _ => eq_comm

/-- The walk finds the dimension of the rules, and carries the value of a tree without variables.
The constant of the right operand is needed where the operator is a power. -/
theorem typing?_eq_ok_iff {t : Tree} {ty : Typing} :
    t.typing? x y = .ok ty ↔ t.HasDimension x y ty.dimension ∧ ty.constant = t.constant? := by
  induction t generalizing ty with
  | var v =>
    rw [typing?_var]
    cases v with
    | x =>
      refine typing_eq_iff.trans (and_congr_left fun _ => ⟨fun h => h ▸ .variableX, fun h => ?_⟩)
      cases h
      rfl
    | y =>
      refine typing_eq_iff.trans (and_congr_left fun _ => ⟨fun h => h ▸ .variableY, fun h => ?_⟩)
      cases h
      rfl
  | literal value =>
    rw [typing?_literal]
    refine typing_eq_iff.trans (and_congr_left fun _ => ⟨fun h => h ▸ .literal value, fun h => ?_⟩)
    generalize ty.dimension = d at h
    cases h
    rfl
  | binary op l r ihl ihr =>
    rw [typing?_binary]
    constructor
    · intro h
      obtain ⟨left, hleft, h⟩ := Except.bind_eq_ok.1 h
      obtain ⟨right, hright, h⟩ := Except.bind_eq_ok.1 h
      obtain ⟨d, hd, h⟩ := Except.bind_eq_ok.1 h
      -- The constants that the walk carries are the values that the rules ask for.
      obtain ⟨hl, hlc⟩ := ihl.1 hleft
      obtain ⟨hr, hrc⟩ := ihr.1 hright
      rw [hlc, hrc, constant?_binary] at h
      rw [hrc] at hd
      obtain ⟨rfl, hc⟩ := typing_eq_iff.1 h
      exact ⟨.binary hl hr (Operator.combine_eq_ok_iff.1 hd), hc⟩
    · rintro ⟨h, hc⟩
      cases h with
      | @binary _ _ _ dl dr _ hl hr h =>
        have hleft : l.typing? x y = .ok ⟨dl, l.constant?⟩ := ihl.2 ⟨hl, rfl⟩
        have hright : r.typing? x y = .ok ⟨dr, r.constant?⟩ := ihr.2 ⟨hr, rfl⟩
        rw [hleft, Except.ok_bind, hright, Except.ok_bind, Operator.combine_eq_ok_iff.2 h,
          Except.ok_bind, constant?_binary]
        exact typing_eq_iff.2 ⟨rfl, hc⟩

/-- A formula has the dimension that the rules give it, so at most one. -/
theorem dimension?_eq_ok_iff {t : Tree} {d : Dimension} :
    t.dimension? x y = .ok d ↔ t.HasDimension x y d := by
  constructor
  · intro h
    obtain ⟨ty, hty, h⟩ := Except.bind_eq_ok.1 h
    cases h
    exact (typing?_eq_ok_iff.1 hty).1
  · intro h
    have hty : t.typing? x y = .ok ⟨d, t.constant?⟩ := typing?_eq_ok_iff.2 ⟨h, rfl⟩
    unfold dimension?
    rw [hty]
    rfl

/-- A tree with a dimension is put together from trees with dimensions. So no node of such a tree
breaks a rule. -/
theorem HasDimension.exists_of_mem_subtrees {t u : Tree} {d : Dimension} (h : t.HasDimension x y d)
    (hu : u ∈ t.subtrees) : ∃ d, u.HasDimension x y d := by
  -- The induction is on the typing, which has one for each subtree.
  induction h with
  | variableX =>
    obtain rfl := List.mem_singleton.1 hu
    exact ⟨x, .variableX⟩
  | variableY =>
    obtain rfl := List.mem_singleton.1 hu
    exact ⟨y, .variableY⟩
  | literal value =>
    obtain rfl := List.mem_singleton.1 hu
    exact ⟨_, .literal value⟩
  | binary hl hr h ihl ihr =>
    simp only [subtrees, List.mem_append, List.mem_singleton] at hu
    obtain (hu | hu) | rfl := hu
    · exact ihl hu
    · exact ihr hu
    · exact ⟨_, .binary hl hr h⟩

/-- The walk stops at a node with the fault of that node, and all nodes before it have dimensions.
Post-order has the operands of a node before it. -/
theorem exists_breaks_of_typing?_eq_error {t : Tree} {e : Fault} (h : t.typing? x y = .error e) :
    ∃ before s after, t.subtrees = before ++ s :: after ∧
      (∀ u ∈ before, ∃ d, u.HasDimension x y d) ∧ s.Breaks x y e := by
  induction t with
  | var v =>
    rw [typing?_var] at h
    cases h
  | literal value =>
    rw [typing?_literal] at h
    cases h
  | binary op l r ihl ihr =>
    rw [typing?_binary] at h
    -- The left operand's nodes come first, then those of the right one, then the operator.
    rcases Except.bind_eq_error.1 h with hleft | ⟨left, hleft, h⟩
    · obtain ⟨before, s, after, hsub, hbefore, hs⟩ := ihl hleft
      exact ⟨before, s, after ++ (r.subtrees ++ [binary op l r]), by simp [subtrees, hsub],
        hbefore, hs⟩
    obtain ⟨hl, -⟩ := typing?_eq_ok_iff.1 hleft
    rcases Except.bind_eq_error.1 h with hright | ⟨right, hright, h⟩
    · obtain ⟨before, s, after, hsub, hbefore, hs⟩ := ihr hright
      refine ⟨l.subtrees ++ before, s, after ++ [binary op l r], by simp [subtrees, hsub], ?_, hs⟩
      intro u hu
      exact (List.mem_append.1 hu).elim hl.exists_of_mem_subtrees (hbefore u)
    obtain ⟨hr, hrc⟩ := typing?_eq_ok_iff.1 hright
    rcases Except.bind_eq_error.1 h with hop | ⟨d, -, h⟩
    · rw [hrc] at hop
      refine ⟨l.subtrees ++ r.subtrees, binary op l r, [], rfl, ?_,
        .intro hl hr (Operator.combine_eq_error_iff.1 hop)⟩
      intro u hu
      exact (List.mem_append.1 hu).elim hl.exists_of_mem_subtrees hr.exists_of_mem_subtrees
    · cases h

/-- At a node that breaks a rule the walk stops with its fault, since it gets through the
operands. -/
theorem Breaks.typing?_eq_error {t : Tree} {e : Fault} (h : t.Breaks x y e) :
    t.typing? x y = .error e := by
  cases h with
  | @intro op left right l r _ hl hr h =>
    have hleft : left.typing? x y = .ok ⟨l, left.constant?⟩ := typing?_eq_ok_iff.2 ⟨hl, rfl⟩
    have hright : right.typing? x y = .ok ⟨r, right.constant?⟩ := typing?_eq_ok_iff.2 ⟨hr, rfl⟩
    rw [typing?_binary, hleft, Except.ok_bind, hright, Except.ok_bind,
      Operator.combine_eq_error_iff.2 h]
    rfl

/-- A node that breaks a rule has no dimension, because what the rule refuses it does not give. -/
theorem Breaks.not_hasDimension {t : Tree} {e : Fault} {d : Dimension} (h : t.Breaks x y e) :
    ¬ t.HasDimension x y d := by
  intro hd
  have hok : t.typing? x y = .ok ⟨d, t.constant?⟩ := typing?_eq_ok_iff.2 ⟨hd, rfl⟩
  rw [h.typing?_eq_error] at hok
  cases hok

/-- There is only one first node in post-order that breaks a rule. It is the node itself that is
unique; the tree may have another node like it further on. -/
theorem eq_of_first_breaks {before before' after after' : List Tree} {s s' : Tree} {e e' : Fault}
    (hsub : before ++ s :: after = before' ++ s' :: after')
    (hbefore : ∀ u ∈ before, ∃ d, u.HasDimension x y d)
    (hbefore' : ∀ u ∈ before', ∃ d, u.HasDimension x y d) (hs : s.Breaks x y e)
    (hs' : s'.Breaks x y e') : s = s' := by
  -- The node further on would come after the other one, which has no dimension.
  rcases List.append_eq_append_iff.1 hsub with ⟨between, rfl, h⟩ | ⟨between, rfl, h⟩
  · cases between with
    | nil => exact (List.cons.inj h).1
    | cons u between =>
      obtain ⟨rfl, -⟩ := List.cons.inj h
      obtain ⟨d, hd⟩ := hbefore' s (by simp)
      exact absurd hd hs.not_hasDimension
  · cases between with
    | nil => exact (List.cons.inj h).1.symm
    | cons u between =>
      obtain ⟨rfl, -⟩ := List.cons.inj h
      obtain ⟨d, hd⟩ := hbefore s' (by simp)
      exact absurd hd hs'.not_hasDimension

/-- The dimension of a formula is the one that the rules give it, and a rule that gives a dimension
combines the exponents of the operands. Where the rules give none, the fault is that of the first
node in post-order that breaks one: all nodes before it have dimensions, and the fault names this
node, or its right operand if that is the exponent at fault, and the dimensions of its operands. -/
theorem dimension?_settled (x y : Dimension) (t : Tree) :
    (∀ d, t.dimension? x y = .ok d ↔ t.HasDimension x y d) ∧
    (∀ op l r d, (binary op l r).HasDimension x y d →
      ∃ dl dr, l.HasDimension x y dl ∧ r.HasDimension x y dr ∧ op.Combines r.constant? dl dr d) ∧
    (∀ e, t.dimension? x y = .error e ↔
      ∃ before s after, t.subtrees = before ++ s :: after ∧
        (∀ u ∈ before, ∃ d, u.HasDimension x y d) ∧ s.Breaks x y e) := by
  refine ⟨fun d => dimension?_eq_ok_iff, ?_, fun e => ⟨fun h => ?_, ?_⟩⟩
  · intro op l r d h
    cases h with
    | binary hl hr h => exact ⟨_, _, hl, hr, h.combines⟩
  · rcases Except.bind_eq_error.1 h with h | ⟨ty, -, h⟩
    · exact exists_breaks_of_typing?_eq_error h
    · cases h
  · rintro ⟨before, s, after, hsub, hbefore, hs⟩
    cases h : t.typing? x y with
    | ok ty =>
      -- Then every node has a dimension.
      obtain ⟨d, hd⟩ := (typing?_eq_ok_iff.1 h).1.exists_of_mem_subtrees (u := s) (by simp [hsub])
      exact absurd hd hs.not_hasDimension
    | error e' =>
      obtain ⟨before', s', after', hsub', hbefore', hs'⟩ := exists_breaks_of_typing?_eq_error h
      rw [hsub] at hsub'
      obtain rfl := eq_of_first_breaks hsub' hbefore hbefore' hs hs'
      have heq := hs.typing?_eq_error.symm.trans hs'.typing?_eq_error
      unfold dimension?
      rw [h, ← Except.error.inj heq]
      rfl

/-- Two nodes break a rule here, and the power is the first of them in post-order. -/
example :
    (binary .mul (binary .pow (var .x) (var .x)) (binary .add (var .x) (var .y))).dimension?
        { length := 1 } .dimensionless =
      .error (.exponentDimension "x" { length := 1 }) := by
  decide +kernel

end Tree

end UnitPlane
