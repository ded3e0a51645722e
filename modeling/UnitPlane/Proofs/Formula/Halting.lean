import UnitPlane.Proofs.Formula.Due
import UnitPlane.Proofs.Formula.Readers

/-!
# `UnitPlane.Proofs.Formula.Halting`: where readers halt

A reader goes through symbols that may come one after another, and it halts at the first one that
may not, unless a limit or a call stops it before. Where it succeeds, the next symbol is none that
it would have gone on with. `Orderly` says this of a reader at the sites where an operand is due,
and each rule for readers keeps it.

* `Arena.justified_of_ofSymbols`: the symbols of a text are refused at the first one that may not
  come next.
-/

set_option autoImplicit false

namespace UnitPlane

/-- From `d` on, the symbols run as far as `rest`, in front of which `d'` is due. -/
def Runs (d : Due) (ss : List Symbol) (d' : Due) (rest : List Symbol) : Prop :=
  ∃ us, ss = us ++ rest ∧ d.after us = some d'

namespace Runs

variable {d d' d'' : Due} {s : Symbol} {ss rest rest' : List Symbol}

/-- Nothing has run yet. -/
theorem refl (d : Due) (ss : List Symbol) : Runs d ss d ss := ⟨[], rfl, rfl⟩

/-- One symbol in front that may come next. -/
theorem cons (hnext : d.next s = some d') (h : Runs d' ss d'' rest) :
    Runs d (s :: ss) d'' rest := by
  obtain ⟨us, rfl, hafter⟩ := h
  exact ⟨s :: us, rfl, (Due.after_cons_of_eq hnext us).trans hafter⟩

/-- Symbols that run as far as others, which run further, run as far as these. -/
theorem trans (h : Runs d ss d' rest) (h' : Runs d' rest d'' rest') : Runs d ss d'' rest' := by
  obtain ⟨us, rfl, hus⟩ := h
  obtain ⟨vs, rfl, hvs⟩ := h'
  exact ⟨us ++ vs, (List.append_assoc us vs rest').symm, (Due.after_append_of_eq hus vs).trans hvs⟩

end Runs

/-- Reading the symbols halts at a limit, at a call of one of the names among them, or at the first
symbol that may not come next. For the last it is said how far the symbols run. -/
inductive Justified (d : Due) (ss : List Symbol) : Halt → Prop where
  | limit (ceiling : Ceiling) (actual max left : Nat) :
      Justified d ss ⟨.limit ceiling actual max, left⟩
  | call {name : String} (hname : .name name ∈ ss) (left : Nat) : Justified d ss ⟨.call name, left⟩
  | unknownName {d' : Due} {name : String} {rest : List Symbol}
      (h : Runs d ss d' (.name name :: rest)) (hnext : d'.next (.name name) = none)
      (hname : Variable.ofName? name = none) :
      Justified d ss ⟨.unknownName name, (Symbol.name name :: rest).length⟩
  | unexpected {d' : Due} {rest : List Symbol} (h : Runs d ss d' rest)
      (hnext : d'.next (rest.headD .stop) = none) (e : Expectation) :
      Justified d ss ⟨.unexpected e, rest.length⟩

/-- What justifies halting further on justifies it from here, if the symbols in between run. -/
theorem Justified.of_runs {d d' : Due} {ss rest : List Symbol} {h : Halt}
    (hruns : Runs d ss d' rest) (hhalt : Justified d' rest h) : Justified d ss h := by
  cases hhalt with
  | limit ceiling actual max left => exact .limit ceiling actual max left
  | call hname left =>
    obtain ⟨us, rfl, -⟩ := hruns
    exact .call (List.mem_append_right us hname) left
  | unknownName h hnext hname => exact .unknownName (hruns.trans h) hnext hname
  | unexpected h hnext e => exact .unexpected (hruns.trans h) hnext e

namespace Phrase

/-- Whether an expression of the kind goes on with the symbol. A power goes on with a double star, a
product with an operator of products, and so on up to sums. -/
def goesOnWith : Phrase → Symbol → Bool
  | primary, _ => false
  | power, s => s = .doubleStar
  | unary, s => s = .doubleStar
  | term, s => s = .doubleStar || (Setting.productOperator? s).isSome
  | expr, s =>
      s = .doubleStar || (Setting.productOperator? s).isSome || (Setting.sumOperator? s).isSome

/-- An expression of the kind does not go on. -/
def DoneBefore (k : Phrase) (rest : List Symbol) : Prop := ∀ s ∈ rest.head?, k.goesOnWith s = false

/-- At the end of the symbols no expression goes on. -/
theorem doneBefore_nil (k : Phrase) : k.DoneBefore [] := nofun

/-- Whether an expression goes on is decided by the next symbol alone. -/
theorem doneBefore_cons {k : Phrase} {s : Symbol} {rest : List Symbol} :
    k.DoneBefore (s :: rest) ↔ k.goesOnWith s = false := by
  simp [DoneBefore]

/-- Inside a bracket, an expression ends at the closing bracket or where nothing fits. So where no
closing bracket is next, the next symbol may not come. -/
theorem next_of_unclosed {rest : List Symbol} (h : expr.DoneBefore rest)
    (hclose : rest.head? ≠ some .closeBracket) (n : Nat) :
    (Due.operator (n + 1)).next (rest.headD .stop) = none := by
  cases rest with
  | nil => rfl
  | cons s rest =>
    have hs := doneBefore_cons.1 h
    cases s with
    | plus | minus | star | slash | doubleStar => cases hs
    | closeBracket => exact absurd rfl hclose
    | number | name | openBracket | unsupported | stop => rfl

/-- Outside all brackets, an expression ends at the end of the text or where nothing fits, so a
symbol that is left over may not come. -/
theorem next_of_leftover {s : Symbol} {rest : List Symbol} (h : expr.DoneBefore (s :: rest))
    (hstop : s ≠ .stop) : (Due.operator 0).next s = none := by
  have hs := doneBefore_cons.1 h
  cases s with
  | plus | minus | star | slash | doubleStar => cases hs
  | stop => exact absurd rfl hstop
  | number | name | openBracket | closeBracket | unsupported => rfl

end Phrase

/-! ### Readers -/

/-- What a reader of expressions of the kind does with the symbols at a site where an operand is
due: it takes one such expression, or it halts where nothing fits. -/
def OrderlyAt (read : Arena.Reader) (k : Phrase) (p : Site) : Prop :=
  ∀ n : Nat,
    Except.Outcome
      (fun r => Runs (.operand n) p.symbols (.operator n) r.2.symbols ∧ k.DoneBefore r.2.symbols)
      (Justified (.operand n) p.symbols) (Except.plain (read p))

/-- Where a reader of the kind is asked to read. Signs are read before, so that the readers of
powers and of primaries meet none. -/
def Phrase.AskedAt : Phrase → Site → Prop
  | primary, p | power, p => p.symbols.head? ≠ some .plus ∧ p.symbols.head? ≠ some .minus
  | unary, _ | term, _ | expr, _ => True

/-- The same for every site where the reader is asked. -/
def Orderly (read : Arena.Reader) (k : Phrase) : Prop := ∀ p, k.AskedAt p → OrderlyAt read k p

namespace Orderly

variable {limits : Limits}

/-- Only the limit keeps a node from being put in, so a reader that puts one in goes on or halts at
the limit. -/
theorem push {α : Type} {P : α → Prop} (node : Node) (p : Site)
    {f : Nat × Array Node → Except Halt α} {d : Due} {ss : List Symbol}
    (hf : ∀ r, Except.Outcome P (Justified d ss) (f r)) :
    Except.Outcome P (Justified d ss) (Arena.push limits node p >>= f) := by
  rw [Arena.push_eq]
  split
  · exact hf _
  · exact .limit _ _ _ _

/-- A negation puts in two nodes or none, and only the limit keeps it from that. -/
theorem negate {α : Type} {P : α → Prop} (operand : Nat) (p : Site)
    {f : Nat × Array Node → Except Halt α} {d : Due} {ss : List Symbol}
    (hf : ∀ r, Except.Outcome P (Justified d ss) (f r)) :
    Except.Outcome P (Justified d ss) (Arena.negate limits operand p >>= f) := by
  unfold Arena.negate
  split
  · exact hf _
  · rw [bind_assoc]
    exact push _ _ fun _ => push _ _ hf

/-- After a step, what happens further on is seen from where it began, with the symbols of the step
in front. -/
theorem of_runs {α : Type} {P Q : α → Prop} {x : Except Halt α} {d d' : Due} {ss rest : List Symbol}
    (hruns : Runs d ss d' rest) (h : Except.Outcome P (Justified d' rest) x)
    (hPQ : ∀ a, P a → Q a) :
    Except.Outcome Q (Justified d ss) x := by
  cases x with
  | error e => exact h.of_runs hruns
  | ok a => exact hPQ a h

/-- A reader does its part, and what it returns is used further on. Where it halts, it halts where
the symbols in front have run. -/
theorem bind_runs {α β : Type} {P : α → Prop} {Q : β → Prop} {x : Except Halt α}
    {f : α → Except Halt β} {d d' : Due} {ss rest : List Symbol}
    (hruns : Runs d ss d' rest) (h : Except.Outcome P (Justified d' rest) x)
    (hf : ∀ a, x = .ok a → P a → Except.Outcome Q (Justified d ss) (f a)) :
    Except.Outcome Q (Justified d ss) (x >>= f) :=
  (of_runs hruns h fun _ ha => ha).bind_of_eq_ok hf

/-- Operands are read in order if expressions in brackets are. Where a reader finds neither an
operand nor a bracket, the next symbol may not come. -/
theorem primary {expr : Arena.Reader} (h : Orderly expr .expr) :
    Orderly (Arena.primary limits expr) .primary := by
  rintro p ⟨hplus, hminus⟩ n
  rw [Arena.plain_primary]
  obtain ⟨symbols, nodes⟩ := p
  cases symbols with
  | nil => exact .unexpected (.refl _ []) rfl .operand
  | cons s rest =>
    cases s with
    | number value => exact push _ _ fun _ => ⟨(Runs.refl _ rest).cons rfl, fun _ _ => rfl⟩
    | name name =>
      dsimp only
      split
      · exact .call List.mem_cons_self _
      cases hname : Variable.ofName? name with
      | none => exact .unknownName (.refl _ _) (by rw [Due.next, hname]; rfl) hname
      | some v =>
          exact push _ _ fun _ => ⟨(Runs.refl _ rest).cons (by rw [Due.next, hname]; rfl),
          fun _ _ => rfl⟩
    | openBracket =>
      -- Inside, one more bracket is open, and only the closing one takes it back.
      have hopen : Runs (.operand n) (.openBracket :: rest) (.operand (n + 1)) rest :=
        (Runs.refl _ rest).cons rfl
      refine bind_runs hopen (h ⟨rest, nodes⟩ trivial (n + 1)) ?_
      rintro ⟨inner, q⟩ - ⟨hruns, hdone⟩
      have hinner := hopen.trans hruns
      dsimp only at hinner hdone ⊢
      split
      next rest' hq =>
        rw [hq] at hinner
        exact ⟨hinner.trans ((Runs.refl _ rest').cons rfl), fun _ _ => rfl⟩
      next hclose =>
        refine .unexpected hinner (Phrase.next_of_unclosed hdone (fun hhead => ?_) n)
          .closingBracket
        obtain ⟨rest', hq⟩ := List.head?_eq_some_iff.1 hhead
        exact hclose rest' hq
    | plus => exact absurd rfl hplus
    | minus => exact absurd rfl hminus
    | star | doubleStar | slash | closeBracket | unsupported | stop =>
        exact .unexpected (.refl _ _) rfl .operand

/-- Powers are read in order if bases and exponents are. Behind the base a power goes on with a
double star only. -/
theorem power {primary unary : Arena.Reader} (hprimary : Orderly primary .primary)
    (hunary : Orderly unary .unary) : Orderly (Arena.power limits primary unary) .power := by
  intro p hp n
  rw [Arena.plain_power]
  refine (hprimary p hp n).bind ?_
  rintro ⟨base, q⟩ ⟨hbase, -⟩
  dsimp only at hbase ⊢
  -- With a double star the exponent has to run as well, and without one the base is all that ran.
  split
  next rest hq =>
    rw [hq] at hbase
    have hoperator := hbase.trans ((Runs.refl _ rest).cons rfl)
    refine bind_runs hoperator (hunary ⟨rest, q.nodes⟩ trivial n) ?_
    rintro ⟨exponent, r⟩ - ⟨hexponent, hdone⟩
    exact push _ _ fun _ => ⟨hoperator.trans hexponent, hdone⟩
  next hother =>
    refine ⟨hbase, fun s hs => decide_eq_false ?_⟩
    rintro rfl
    obtain ⟨rest, hq⟩ := List.head?_eq_some_iff.1 hs
    exact hother rest hq

/-- What follows an operand is read in order if operands are: the row goes on with its own
operators, and ends at any other symbol. -/
theorem chainRest {operator? : Symbol → Option Operator} {operand : Arena.Reader} {k k' : Phrase}
    (hoperand : ∀ p, OrderlyAt operand k' p)
    (hnext : ∀ {s : Symbol} {op : Operator}, operator? s = some op →
      ∀ n, (Due.operator n).next s = some (.operand n))
    (hdone : ∀ {s : Symbol}, k'.goesOnWith s = false → operator? s = none → k.goesOnWith s = false)
    (n : Nat) (left : Nat) (p : Site) (hp : k'.DoneBefore p.symbols) :
    Except.Outcome
      (fun r => Runs (.operator n) p.symbols (.operator n) r.2.symbols ∧ k.DoneBefore r.2.symbols)
      (Justified (.operator n) p.symbols)
        (Except.plain (Arena.chainRest limits operator? operand left p)) := by
  -- The run goes on from the operator that is due after each operand.
  induction left, p using Arena.Reader.chain_induction operand with
  | step left p ih =>
    rw [Arena.plain_chainRest]
    obtain ⟨symbols, nodes⟩ := p
    cases symbols with
    | nil => exact ⟨.refl _ _, Phrase.doneBefore_nil k⟩
    | cons s rest =>
      dsimp only
      cases hop : operator? s with
      | none => exact ⟨.refl _ _,
          Phrase.doneBefore_cons.2 (hdone (Phrase.doneBefore_cons.1 hp) hop)⟩
      | some op =>
        have hoperator : Runs (.operator n) (s :: rest) (.operand n) rest :=
          (Runs.refl _ rest).cons (hnext hop n)
        refine bind_runs hoperator (hoperand ⟨rest, nodes⟩ n) ?_
        rintro ⟨right, q⟩ hread ⟨hright, hq⟩
        have hruns := hoperator.trans hright
        refine push _ _ fun r => ?_
        exact of_runs hruns (ih s rest right q rfl hread r.1 r.2 hq) fun _ hr =>
          ⟨hruns.trans hr.1, hr.2⟩

/-- Rows of operands are read in order if their operands are and an operand is due behind each of
their operators. -/
theorem chain {operator? : Symbol → Option Operator} {operand : Arena.Reader} {k k' : Phrase}
    (hoperand : ∀ p, OrderlyAt operand k' p)
    (hnext : ∀ {s : Symbol} {op : Operator}, operator? s = some op →
      ∀ n, (Due.operator n).next s = some (.operand n))
    (hdone : ∀ {s : Symbol}, k'.goesOnWith s = false → operator? s = none →
      k.goesOnWith s = false) :
    Orderly (Arena.chain limits operator? operand) k := by
  intro p _ n
  rw [Arena.plain_chain]
  refine (hoperand p n).bind ?_
  rintro ⟨left, q⟩ ⟨hleft, hq⟩
  exact of_runs hleft (chainRest hoperand hnext hdone n left q hq) fun _ hr =>
    ⟨hleft.trans hr.1, hr.2⟩

/-- Signed operands are read in order if what follows the sign is, and what has no sign. -/
theorem signed {inner unsigned : Arena.Reader} (hinner : Orderly inner .unary)
    (hunsigned : Orderly unsigned .power) :
    Orderly (Arena.signedBy (Arena.negate limits) inner unsigned) .unary := by
  intro p _ n
  rw [Arena.plain_signedBy]
  split
  next rest hp =>
    have hsign : Runs (.operand n) p.symbols (.operand n) rest := by
      rw [hp]
      exact (Runs.refl _ rest).cons rfl
    refine bind_runs hsign (hinner ⟨rest, p.nodes⟩ trivial n) ?_
    rintro ⟨operand, q⟩ - ⟨hoperand, hdone⟩
    exact negate _ _ fun _ => ⟨hsign.trans hoperand, hdone⟩
  next rest hp =>
    have hsign : Runs (.operand n) p.symbols (.operand n) rest := by
      rw [hp]
      exact (Runs.refl _ rest).cons rfl
    exact of_runs hsign (hinner ⟨rest, p.nodes⟩ trivial n) fun _ hr => ⟨hsign.trans hr.1, hr.2⟩
  next hminus hplus =>
    -- Without a sign the readers below meet none, so what they do not take is not due.
    refine hunsigned p ⟨fun hhead => ?_, fun hhead => ?_⟩ n
    · obtain ⟨rest, hp⟩ := List.head?_eq_some_iff.1 hhead
      exact hplus rest hp
    · obtain ⟨rest, hp⟩ := List.head?_eq_some_iff.1 hhead
      exact hminus rest hp

/-- A reader goes on with an operator as long as one of its own comes next, and a chain of terms
goes on with the operators of its operands as well. So each rule keeps readers orderly. -/
theorem keeps (limits : Limits) : (Arena.rules limits).Keeps fun k read => Orderly read k where
  primary := primary
  power := power
  term h := chain (fun p => h p trivial) (fun hop => next_of_productOperator? hop) fun hs hop => by
    simp_all [Phrase.goesOnWith]
  sum h := chain (fun p => h p trivial) (fun hop => next_of_sumOperator? hop) fun hs hop => by
    simp_all [Phrase.goesOnWith]
  signed := signed

/-- Without a level of nesting left, it is the limit that halts, and so the readers of whole
expressions are orderly. -/
theorem expr (limits : Limits) : Orderly (Arena.expr limits) .expr :=
  Arena.rules_expr limits ▸ (keeps limits).expr (fun _ _ _ => .limit _ _ _ _) limits.maxDepth

end Orderly

/-- The symbols of a text are refused at the first one that may not come next, unless a limit or a
call is in the way. If the reader succeeds, what is left over is refused. -/
theorem Arena.justified_of_ofSymbols {limits : Limits} {ss : List Symbol} {h : Halt} (hne : ss ≠ [])
    (hstop : .stop ∉ ss) (hhalt : Arena.ofSymbols limits ss = .error h) :
    Justified (.operand 0) ss h := by
  rw [ofSymbols_eq, if_neg (by rwa [List.isEmpty_iff])] at hhalt
  have hexpr := Orderly.expr limits ⟨ss, #[]⟩ trivial 0
  -- Reading halts inside the expression, or after it because of what is left.
  rcases Except.bind_eq_error.1 hhalt with hhalt | ⟨⟨root, q⟩, hread, hhalt⟩
  · exact hexpr.of_eq_error hhalt
  · obtain ⟨hruns, hdone⟩ := hexpr.of_eq_ok hread
    dsimp only at hruns hdone hhalt
    split at hhalt
    · split at hhalt
      · cases hhalt
      · cases hhalt
        exact .limit _ _ _ _
    next hleft =>
      cases hhalt
      obtain ⟨symbols, nodes⟩ := q
      cases symbols with
      | nil => exact absurd rfl hleft
      | cons s rest =>
        have hs : s ≠ .stop := by
          rintro rfl
          obtain ⟨us, rfl, -⟩ := hruns
          exact hstop (List.mem_append_right us List.mem_cons_self)
        exact .unexpected hruns (Phrase.next_of_leftover hdone hs) .endOfFormula

end UnitPlane
