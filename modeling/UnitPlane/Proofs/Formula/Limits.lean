import UnitPlane.Proofs.Formula.Readers

/-!
# `UnitPlane.Proofs.Formula.Limits`: limits only refuse

A reader under lower limits does what it does under higher ones, or refuses with the fault of a
limit. `Settles` is that relation between two results. It is kept where steps follow each other
(`Settles.bind`), and each rule for readers keeps it, so that only the places where a reader
compares with a limit are of interest: where a node is counted, and where no level of nesting is
left. At the latter the reader with the higher limit may have levels left, so the two have different
numbers of levels from there on, and the relation is proved between readers with more levels and
with fewer.

* `Settles.parse`: a text whose words are read, or refused for any other reason, under some limits
  has the same outcome under all higher ones.
-/

set_option autoImplicit false

namespace UnitPlane

/-- No limit of `l` on formulas and grids is higher than that of `l'`. -/
structure Limits.Below (l l' : Limits) : Prop where
  formulaLen : l.maxFormulaLen ≤ l'.maxFormulaLen
  depth : l.maxDepth ≤ l'.maxDepth
  nodes : l.maxNodes ≤ l'.maxNodes
  cells : l.maxCells ≤ l'.maxCells

/-- The fault is that of a limit that can be set. The exponents of dimensions have a limit too,
which is the same for all jobs. -/
def Fault.OfLimits : Fault → Prop
  | limitExceeded ceiling _ _ => ceiling ≠ .dimensionExponent
  | _ => False

/-- The outcome `y` is the outcome `x`, unless `x` is the fault of a limit. -/
def Settles {α : Type} (x y : Except Fault α) : Prop :=
  (∀ fault, x = .error fault → ¬ fault.OfLimits) → x = y

namespace Settles

variable {α β : Type}

/-- An outcome settles itself. -/
theorem refl (x : Except Fault α) : Settles x x := fun _ => rfl

/-- Where the lower limits refuse, the higher ones may do anything. -/
theorem of_limitExceeded (ceiling : Ceiling) (h : ceiling ≠ .dimensionExponent) (actual max : Nat)
    (y : Except Fault α) : Settles (.error (.limitExceeded ceiling actual max)) y :=
  fun hno => absurd h (hno _ rfl)

/-- Steps that settle one after another settle together. What follows may use that the first result
is the one that was returned. -/
theorem bind_of_eq_ok {x y : Except Fault α} {f g : α → Except Fault β} (h : Settles x y)
    (hf : ∀ a, x = .ok a → Settles (f a) (g a)) : Settles (x >>= f) (y >>= g) := by
  intro hno
  cases x with
  | error fault =>
    obtain rfl := h fun fault' heq => hno fault' (by rw [heq]; rfl)
    rfl
  | ok a =>
    obtain rfl := h fun _ heq => nomatch heq
    exact hf a rfl hno

/-- Steps that settle one after another settle together, as long as they go on in the same way from
every result. -/
theorem bind {x y : Except Fault α} {f g : α → Except Fault β} (h : Settles x y)
    (hf : ∀ a, Settles (f a) (g a)) : Settles (x >>= f) (y >>= g) :=
  h.bind_of_eq_ok fun a _ => hf a

end Settles

/-! ### Readers -/

/-- From every place, what `read'` does settles what `read` does. -/
def SettlesReader (read read' : Reader) : Prop :=
  ∀ p, Settles (Except.plain (read p)) (Except.plain (read' p))

namespace SettlesReader

open Setting

variable {l l' : Limits} (h : l.Below l') (length : Nat)

include h

/-- One more node is counted under both limits, or refused by the lower one. -/
theorem addNode (nodes : Nat) :
    Settles ((⟨l, length⟩ : Setting).addNode nodes) ((⟨l', length⟩ : Setting).addNode nodes) := by
  by_cases hlt : nodes < l.maxNodes
  · rw [addNode_of_lt hlt, addNode_of_lt (Nat.lt_of_lt_of_le hlt h.nodes)]
    exact .refl _
  · rw [Setting.addNode, if_neg hlt]
    exact .of_limitExceeded .nodes nofun _ _ _

/-- Operands settle if expressions in brackets do. Limits take part only where a node is counted. -/
theorem primary {expr expr' : Reader} (hexpr : SettlesReader expr expr') :
    SettlesReader (Setting.primary ⟨l, length⟩ expr) (Setting.primary ⟨l', length⟩ expr') := by
  intro p
  rw [plain_primary, plain_primary]
  obtain ⟨words, nodes⟩ := p
  -- Nodes are counted in two of the cases, and the others do not look at limits.
  cases words with
  | nil => exact .refl _
  | cons w rest =>
    obtain ⟨symbol, start, stop⟩ := w
    cases symbol with
    | number value => exact (addNode h length nodes).bind fun _ => .refl _
    | name name =>
      dsimp only
      split
      · exact .refl _
      cases Variable.ofName? name with
      | none => exact .refl _
      | some v => exact (addNode h length nodes).bind fun _ => .refl _
    | openBracket => exact (hexpr ⟨rest, nodes⟩).bind fun _ => .refl _
    | plus | minus | star | doubleStar | slash | closeBracket | unsupported | stop => exact .refl _

/-- Powers settle if their bases and exponents do. -/
theorem power {primary primary' unary unary' : Reader} (hprimary : SettlesReader primary primary')
    (hunary : SettlesReader unary unary') :
    SettlesReader (Setting.power ⟨l, length⟩ primary unary)
      (Setting.power ⟨l', length⟩ primary' unary') := by
  intro p
  rw [plain_power, plain_power]
  refine (hprimary p).bind fun base => ?_
  obtain ⟨t, words, nodes⟩ := base
  -- A node is counted after an exponent.
  cases words with
  | nil => exact .refl _
  | cons w rest =>
    obtain ⟨symbol, start, stop⟩ := w
    cases symbol with
    | doubleStar =>
      exact (hunary ⟨rest, nodes⟩).bind fun _ => (addNode h length _).bind fun _ => .refl _
    | number | name | plus | minus | star | slash | openBracket | closeBracket
        | unsupported | stop =>
      exact .refl _

/-- What follows an operand settles if operands do, from one operand to the next. -/
theorem chainRest (operator? : Symbol → Option Operator) {operand operand' : Reader}
    (hoperand : SettlesReader operand operand') (left : Tree) (p : Place) :
    Settles (Except.plain (Setting.chainRest ⟨l, length⟩ operator? operand left p))
      (Except.plain (Setting.chainRest ⟨l', length⟩ operator? operand' left p)) := by
  -- The induction is on the words that are left, and a node is counted for each operator.
  induction left, p using Reader.chain_induction operand with
  | step left p ih =>
    rw [plain_chainRest, plain_chainRest]
    obtain ⟨words, nodes⟩ := p
    cases words with
    | nil => exact .refl _
    | cons w rest =>
      dsimp only
      cases operator? w.symbol with
      | none => exact .refl _
      | some op =>
        refine (hoperand ⟨rest, nodes⟩).bind_of_eq_ok fun q hq => ?_
        exact (addNode h length _).bind fun nodes' => ih w rest q.1 q.2 rfl hq _ nodes'

/-- Rows of operands settle if their operands do. -/
theorem chain (operator? : Symbol → Option Operator) {operand operand' : Reader}
    (hoperand : SettlesReader operand operand') :
    SettlesReader (Setting.chain ⟨l, length⟩ operator? operand)
      (Setting.chain ⟨l', length⟩ operator? operand') := by
  intro p
  rw [plain_chain, plain_chain]
  exact (hoperand p).bind fun q => chainRest h length operator? hoperand q.1 q.2

/-- A negation settles: it counts two nodes, or none where a number takes the sign. -/
theorem negate (t : Tree) (nodes : Nat) :
    Settles (Setting.negate ⟨l, length⟩ t nodes) (Setting.negate ⟨l', length⟩ t nodes) := by
  rw [negate_eq, negate_eq]
  split
  · exact .refl _
  · exact (addNode h length nodes).bind fun n => (addNode h length n).bind fun _ => .refl _

/-- Signed operands settle if what follows the sign does, and what has no sign. -/
theorem signed {inner inner' unsigned unsigned' : Reader} (hinner : SettlesReader inner inner')
    (hunsigned : SettlesReader unsigned unsigned') :
    SettlesReader (Setting.signed ⟨l, length⟩ inner unsigned)
      (Setting.signed ⟨l', length⟩ inner' unsigned') := by
  intro p
  have hpower := hunsigned p
  rw [plain_signed, plain_signed]
  obtain ⟨words, nodes⟩ := p
  -- Nodes are counted for a minus, unless it goes into a number.
  cases words with
  | nil => exact hpower
  | cons w rest =>
    obtain ⟨symbol, start, stop⟩ := w
    cases symbol with
    | minus =>
      exact (hinner ⟨rest, nodes⟩).bind fun q =>
        (negate h length q.1 q.2.nodes).bind fun _ => .refl _
    | plus => exact hinner ⟨rest, nodes⟩
    | number | name | star | doubleStar | slash | openBracket | closeBracket | unsupported | stop =>
      exact hpower

/-- Each rule under the higher limits settles what it does under the lower ones, which is what the
induction over the readers asks for. -/
theorem relates :
    (Setting.rules ⟨l, length⟩).Relates (Setting.rules ⟨l', length⟩) fun _ => SettlesReader where
  primary := primary h length
  power := power h length
  term := chain h length _
  sum := chain h length _
  signed := signed h length

/-- Where the lower limits leave no level of nesting, it is the limit on the depth that refuses,
whatever the higher ones still allow. -/
theorem expr : SettlesReader (Setting.expr ⟨l, length⟩) (Setting.expr ⟨l', length⟩) := by
  have hexhausted (read : Reader) : SettlesReader (Setting.rules ⟨l, length⟩).exhausted read :=
    fun p => .of_limitExceeded .depth nofun _ _ _
  rw [← Setting.rules_expr, ← Setting.rules_expr]
  exact (relates h length).sumOf ((relates h length).unary_of_le hexhausted h.depth)

end SettlesReader

/-! ### Texts -/

/-- The words of a text are read as a whole expression, then nothing may be left, and then the depth
is looked at. -/
theorem Tokens.parse_eq (limits : Limits) (ts : Tokens) :
    ts.parse limits =
      if ts.words.isEmpty then .error (.badSyntax 0 .emptyFormula)
      else
        Except.plain (Setting.expr ⟨limits, ts.length⟩ ⟨ts.words, 0⟩) >>= fun r =>
          if r.2.words.isEmpty then
            if r.1.depth ≤ limits.maxDepth then .ok r.1
            else .error (.limitExceeded .depth r.1.depth limits.maxDepth)
          else .error ((Setting.peek ⟨limits, ts.length⟩ r.2).unexpected .endOfFormula) := by
  unfold Tokens.parse
  split
  · rfl
  · dsimp only
    cases Setting.expr ⟨limits, ts.length⟩ ⟨ts.words, 0⟩ with
    | error fault => rfl
    | ok r => rfl

/-- Words read, or refused for anything but a limit, have the same outcome under higher limits. The
depth of the tree is the last thing that a limit is about. -/
theorem Settles.tokens_parse {l l' : Limits} (h : l.Below l') (ts : Tokens) :
    Settles (ts.parse l) (ts.parse l') := by
  rw [Tokens.parse_eq, Tokens.parse_eq]
  split
  · exact .refl _
  refine (SettlesReader.expr h ts.length ⟨ts.words, 0⟩).bind fun r => ?_
  split
  · by_cases hdepth : r.1.depth ≤ l.maxDepth
    · rw [if_pos hdepth, if_pos (Nat.le_trans hdepth h.depth)]
      exact .refl _
    · rw [if_neg hdepth]
      exact .of_limitExceeded .depth nofun _ _ _
  · exact .refl _

/-- A text read, or refused for anything but a limit, has the same outcome under higher limits. The
length of the text is looked at before anything else. -/
theorem Settles.parse {l l' : Limits} (h : l.Below l') (source : String) :
    Settles (Formula.parse l source) (Formula.parse l' source) := by
  unfold Formula.parse
  by_cases hlen : l.maxFormulaLen < source.utf8ByteSize
  · rw [if_pos hlen]
    exact .of_limitExceeded .formulaLen nofun _ _ _
  · have hlen' : ¬ l'.maxFormulaLen < source.utf8ByteSize := by
      have := h.formulaLen
      omega
    rw [if_neg hlen, if_neg hlen']
    exact (Settles.refl _).bind fun ts => (tokens_parse h ts).bind fun _ => .refl _

end UnitPlane
