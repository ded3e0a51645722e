import UnitPlane.Proofs.Formula.Lines
import UnitPlane.Proofs.MeasureUnit.Reading

/-!
# `UnitPlane.Proofs.MeasureUnit.Lines`: faults of unit expressions are on one line

The names, numbers and single characters that a fault takes over from a unit expression are no white
space, so they are on one line. Besides them the fault takes over the whole expression without the
white space around it, which may have a line break inside. So the hypothesis here is on the trimmed
expression: a line break in front of it or after it does no harm.

* `inline_resolve`: an expression on one line stands for a unit on one line, or its fault is on one
  line.
-/

set_option autoImplicit false

namespace UnitPlane

open Text

/-- The texts that a unit error takes over from the expression are on one line. -/
def UnitCause.Inline (cause : UnitCause) : Prop := ∀ s ∈ cause.echoes, OneLine s

namespace UnitExpression

/-- Whatever a reader of unit expressions returns, its fault is on one line. Nothing is said of what
it returns. -/
abbrev InlineOutcome {α : Type} (x : Except UnitCause α) : Prop :=
  Except.Outcome (fun _ => True) UnitCause.Inline x

/-! ### Exponents -/

/-- An integer is refused without taking anything over from the text. -/
theorem inline_readInt (cs : List Char) : InlineOutcome (Except.plain (readInt cs)) := by
  have hcases (p q : Prop) [Decidable p] [Decidable q] (n : Int) (r : Int × List Char) :
      InlineOutcome (if p then .error .notAnInteger else if q then .error (.exponentOutOfRange n)
        else .ok r) := by
    split
    · exact List.forall_mem_nil _
    split
    · exact List.forall_mem_nil _
    · trivial
  rw [plain_readInt]
  exact hcases _ _ _ _

/-- A denominator is refused for its integer only. -/
theorem inline_readDenominator (cs : List Char) :
    InlineOutcome (Except.plain (readDenominator cs)) := by
  rw [plain_readDenominator]
  split
  · exact inline_readInt _
  · trivial

/-- A fraction is refused for one of its integers or for a bracket. -/
theorem inline_fraction (cs : List Char) : InlineOutcome (fraction cs) := by
  rw [fraction_eq]
  split
  · refine (inline_readInt _).bind fun p _ => (inline_readDenominator _).bind fun q _ => ?_
    split
    · trivial
    · exact List.forall_mem_nil _
  · exact (inline_readInt _).bind fun _ _ => trivial

/-- An exponent is refused for its fraction, or for being none that fits. -/
theorem inline_readExponent (cs : List Char) : InlineOutcome (Except.plain (readExponent cs)) := by
  rw [plain_readExponent]
  refine (inline_fraction cs).bind fun p _ => ?_
  split
  · exact List.forall_mem_nil _
  split
  · trivial
  · exact List.forall_mem_nil _

/-! ### Factors -/

/-- A number is refused with its characters, which are digits and points. -/
theorem inline_numberFactor {numeral : List Char} (h : ∀ c ∈ numeral, isNumberChar c = true) :
    InlineOutcome (numberFactor numeral) := by
  unfold numberFactor
  split
  · exact List.forall_mem_singleton.2 (oneLine_ofList.2 (newline_notMem (by decide) h))
  split
  · trivial
  · exact List.forall_mem_nil _

/-- A name is refused with itself. -/
theorem inline_nameFactor {name : String} (h : OneLine name) : InlineOutcome (nameFactor name) := by
  unfold nameFactor
  split
  · trivial
  · exact List.forall_mem_singleton.2 h

/-- What comes next after white space is none. -/
theorem isBlank_of_skipBlanks_eq_cons {cs rest : List Char} {c : Char}
    (h : skipBlanks cs = c :: rest) :
    isBlank c = false := by
  have hhead := List.head?_dropWhile_not isBlank cs
  rw [show cs.dropWhile isBlank = c :: rest from h] at hhead
  simpa using hhead

/-- The characters left after white space and one more are fewer. This is what the induction over
the readers needs. -/
theorem length_lt_of_skipBlanks_eq_cons {cs rest : List Char} {c : Char}
    (h : skipBlanks cs = c :: rest) :
    rest.length < cs.length := by
  have := length_skipBlanks_le cs
  rw [h, List.length_cons] at this
  omega

/-- A character that comes next after white space is no line break. -/
theorem inline_unexpectedCharacter {cs rest : List Char} {c : Char}
    (h : skipBlanks cs = c :: rest) :
    (UnitCause.unexpectedCharacter c).Inline :=
  List.forall_mem_singleton.2
    (oneLine_singleton (ne_newline_of_isBlank (isBlank_of_skipBlanks_eq_cons h)))

/-! ### Products -/

section Step

variable {cs : List Char} (ih : ∀ rest : List Char, rest.length < cs.length →
  InlineOutcome (Except.plain (readProduct rest)) ∧ InlineOutcome (Except.plain (readTerm rest)) ∧
    ∀ left, InlineOutcome (Except.plain (readProductRest left rest)))

include ih

/-- A factor is refused on one line if the products in what is left are. -/
theorem inline_readFactor : InlineOutcome (Except.plain (readFactor cs)) := by
  rw [plain_readFactor]
  -- There is nothing left, or a bracket, a number, a name or some other character comes next.
  split
  · exact List.forall_mem_nil _
  next c rest h =>
    have hlt := length_lt_of_skipBlanks_eq_cons h
    split
    · refine (ih rest hlt).1.bind fun p _ => ?_
      split
      · exact List.forall_mem_nil _
      · trivial
    split
    next hnumber =>
      refine (inline_numberFactor (List.forall_mem_cons.2 ⟨hnumber, ?_⟩)).bind fun _ _ => trivial
      exact List.all_eq_true.1 List.all_takeWhile
    split
    next hname =>
      exact (inline_nameFactor (oneLine_ofList.2 (newline_notMem_name hname rest))).bind fun _ _ =>
        trivial
    · exact inline_unexpectedCharacter h

/-- A term is refused for its factor or its exponent. -/
theorem inline_readTerm : InlineOutcome (Except.plain (readTerm cs)) := by
  rw [plain_readTerm]
  refine (inline_readFactor ih).bind fun p _ => ?_
  split
  · trivial
  · refine (inline_readExponent _).bind fun q _ => ?_
    split
    · exact List.forall_mem_nil _
    · trivial

/-- The rest of a product is refused for its next term, or for what follows that. -/
theorem inline_readProductRest (left : Factor) :
    InlineOutcome (Except.plain (readProductRest left cs)) := by
  rw [plain_readProductRest]
  split
  · trivial
  next sign rest _ =>
    refine (ih rest.val rest.property).2.1.bind_of_eq_ok fun p hp _ => ?_
    obtain ⟨hshorter, -⟩ := Except.plain_eq_ok.1 hp
    split
    · exact List.forall_mem_nil _
    · exact (ih p.2 (Nat.lt_trans hshorter rest.property)).2.2 _

/-- A product is refused for its first term, or for its rest. -/
theorem inline_readProduct : InlineOutcome (Except.plain (readProduct cs)) := by
  rw [plain_readProduct]
  refine (inline_readTerm ih).bind_of_eq_ok fun p hp _ => ?_
  obtain ⟨hshorter, -⟩ := Except.plain_eq_ok.1 hp
  exact (ih p.2 hshorter).2.2 _

end Step

/-- Whatever is read of a unit expression, the fault is on one line. The readers call each other, so
this is shown for all of them at once. -/
theorem inline_readers (cs : List Char) :
    InlineOutcome (Except.plain (readProduct cs)) ∧ InlineOutcome (Except.plain (readTerm cs)) ∧
      ∀ left, InlineOutcome (Except.plain (readProductRest left cs)) := by
  -- What a reader leaves to the others is shorter.
  obtain ⟨n, hn⟩ : ∃ n, cs.length = n := ⟨_, rfl⟩
  induction n using Nat.strongRecOn generalizing cs with
  | ind n ih =>
    subst hn
    have ih : ∀ rest : List Char, rest.length < cs.length →
        InlineOutcome (Except.plain (readProduct rest)) ∧
          InlineOutcome (Except.plain (readTerm rest)) ∧
          ∀ left, InlineOutcome (Except.plain (readProductRest left rest)) :=
      fun rest hlt => ih rest.length hlt rest rfl
    exact ⟨inline_readProduct ih, inline_readTerm ih, inline_readProductRest ih⟩

/-- An expression that stands for nothing has a fault on one line. -/
theorem inline_evaluate (cs : List Char) : InlineOutcome (evaluate cs) := by
  have hread : InlineOutcome (read cs) := by
    rw [read_eq]
    refine (inline_readers cs).1.bind fun p _ => ?_
    split
    · trivial
    next h => exact inline_unexpectedCharacter h
  unfold evaluate
  split
  · exact List.forall_mem_nil _
  · refine hread.bind fun factor _ => ?_
    split
    · trivial
    · exact List.forall_mem_nil _

end UnitExpression

/-! ### Units -/

namespace MeasureUnit

/-- The text of a unit is its expression without the white space around it. If that is on one line,
then so is the unit, or the fault. -/
theorem inline_resolve {expr : String} (h : OneLine (String.ofList (trim expr.toList))) :
    Except.Outcome (fun u : MeasureUnit => OneLine u.expr) Fault.Inline (resolve expr) := by
  have hevaluate := UnitExpression.inline_evaluate (trim expr.toList)
  unfold resolve
  dsimp only
  split
  · exact oneLine_literal rfl
  split
  · exact h
  next cause hcause => exact List.forall_mem_cons.2 ⟨h, hevaluate.of_eq_error hcause⟩

/-- Without the white space around it a text on one line is on one line. A text on several lines may
be on one line then, too. -/
theorem oneLine_trim {s : String} (h : OneLine s) : OneLine (String.ofList (trim s.toList)) := by
  refine oneLine_ofList.2 fun hmem => h.newline_notMem ?_
  have hreverse := (List.dropWhile_sublist isBlank).mem (List.mem_reverse.1 hmem)
  exact (List.dropWhile_sublist isBlank).mem (List.mem_reverse.1 hreverse)

/-- What a unit is displayed as is on one line: its expression, or a word for a pure number. -/
theorem oneLine_displayName {u : MeasureUnit} (h : OneLine u.expr) : OneLine u.displayName := by
  unfold displayName
  split
  · exact oneLine_literal rfl
  · exact h

end MeasureUnit

end UnitPlane
