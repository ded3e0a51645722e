import UnitPlane.Formula.Printer
import UnitPlane.Proofs.Decimal.Written
import UnitPlane.Proofs.Support.Except

/-!
# `UnitPlane.Proofs.Lines`: texts on one line

A message is one line unless something that it repeats has a line break. Numbers, dimensions and
formulas that are written anew have none, so what is left are the texts that a fault takes over from
the job: `Fault.echoes` lists them. That the list is complete is what `Fault.oneLine_message` says,
and each later proof that a fault is on one line is about this list and not about messages.

* `Fault.oneLine_message`: if those texts are on one line, the message of the fault is on one line.
-/

set_option autoImplicit false

namespace UnitPlane

/-- A text without a line break. Only this character counts as one, as it is what lines are cut
at. -/
structure OneLine (s : String) : Prop where
  newline_notMem : '\n' ∉ s.toList

/-- Two texts in a row are on one line just when both are. This is what takes messages apart. -/
@[simp] theorem oneLine_append {s t : String} : OneLine (s ++ t) ↔ OneLine s ∧ OneLine t := by
  constructor
  · intro ⟨h⟩
    rw [String.toList_append, List.mem_append, not_or] at h
    exact ⟨⟨h.1⟩, ⟨h.2⟩⟩
  · intro ⟨⟨hs⟩, ⟨ht⟩⟩
    refine ⟨?_⟩
    rw [String.toList_append, List.mem_append, not_or]
    exact ⟨hs, ht⟩

/-- A text is on one line just when its characters have no line break among them. -/
theorem oneLine_ofList {cs : List Char} : OneLine (String.ofList cs) ↔ '\n' ∉ cs := by
  constructor
  · intro ⟨h⟩
    rwa [String.toList_ofList] at h
  · intro h
    refine ⟨?_⟩
    rwa [String.toList_ofList]

/-- A text that is written out is checked character by character. -/
theorem oneLine_literal {cs : List Char} (h : cs.all (· != '\n') = true) :
    OneLine (String.ofList cs) :=
  oneLine_ofList.2 fun hmem => nomatch List.all_eq_true.1 h _ hmem

/-- A character that is no line break is on one line. -/
theorem oneLine_singleton {c : Char} (h : c ≠ '\n') : OneLine c.toString :=
  oneLine_ofList.2 fun hmem => h (List.mem_singleton.1 hmem).symm

/-- A text of characters of a class that has no line break in it is on one line. -/
theorem newline_notMem {p : Char → Bool} (hp : p '\n' = false) {cs : List Char}
    (h : ∀ c ∈ cs, p c = true) :
    '\n' ∉ cs := by
  intro hmem
  rw [h _ hmem] at hp
  exact nomatch hp

/-- Texts on one line with a separator on one line between them are on one line. -/
theorem oneLine_intercalate {separator : String} (hseparator : OneLine separator)
    {parts : List String} (h : ∀ s ∈ parts, OneLine s) : OneLine (separator.intercalate parts) := by
  induction parts with
  | nil => exact oneLine_literal rfl
  | cons s parts ih =>
    have hs := h s (by simp)
    cases parts with
    | nil => rwa [String.intercalate_singleton]
    | cons s' parts =>
      rw [String.intercalate_cons_cons, oneLine_append, oneLine_append]
      exact ⟨⟨hs, hseparator⟩, ih fun s hmem => h s (by simp [hmem])⟩

/-- Texts on one line in a row are on one line. -/
theorem oneLine_join {parts : List String} (h : ∀ s ∈ parts, OneLine s) :
    OneLine (String.join parts) := by
  induction parts with
  | nil => exact oneLine_literal rfl
  | cons s parts ih =>
    rw [String.join_cons, oneLine_append]
    exact ⟨h s (by simp), ih fun s hmem => h s (by simp [hmem])⟩

/-! ### Numbers -/

/-- A natural number is on one line, as it is written in digits. -/
@[simp] theorem oneLine_natRepr (n : Nat) : OneLine n.repr := by
  rw [Nat.repr_eq_ofList_toDigits, oneLine_ofList]
  exact newline_notMem (p := Char.isDigit) (by decide) fun c hc => Text.isDigit_of_mem_toDigits hc

/-- An integer is on one line, as it is written in digits and perhaps a sign. -/
@[simp] theorem oneLine_intRepr (n : Int) : OneLine n.repr := by
  cases n with
  | ofNat n => exact oneLine_natRepr n
  | negSucc n => exact oneLine_append.2 ⟨oneLine_literal rfl, oneLine_natRepr n.succ⟩

/-- The characters of numerals. -/
def isNumeralChar (c : Char) : Bool := c.isDigit || ['.', 'e', 'E', '+', '-'].contains c

/-- Digits are characters of numerals. -/
theorem isNumeralChar_of_isDigit {c : Char} (h : c.isDigit) : isNumeralChar c = true := by
  simp [isNumeralChar, h]

/-- The sign of a number is a character of numerals, if it is written at all. -/
theorem isNumeralChar_minus {sign : Float.Model.UnpackedFloat.Sign} {c : Char}
    (h : c ∈ Decimal.minus sign) :
    isNumeralChar c = true := by
  cases sign with
  | positive => exact nomatch h
  | negative =>
    rw [List.mem_singleton.1 h]
    rfl

/-- A decimal with its digits in place has characters of numerals only. -/
theorem isNumeralChar_positional {d : Decimal.Scientific} {c : Char}
    (h : c ∈ Decimal.writePositional false d) : isNumeralChar c = true := by
  have hd := d.positional_numeral
  rw [Decimal.writePositional_eq, Decimal.Numeral.chars] at h
  rcases List.mem_append.1 h with hwhole | hfraction
  · exact isNumeralChar_of_isDigit (hd.whole c hwhole)
  split at hfraction
  · exact nomatch hfraction
  · rcases List.mem_cons.1 hfraction with rfl | hfraction
    · rfl
    · exact isNumeralChar_of_isDigit (hd.fraction c hfraction)

/-- The text of a double is on one line. It is a numeral or one of the words for what is no finite
number. -/
@[simp] theorem oneLine_text (x : Float) : OneLine (Decimal.text x) := by
  unfold Decimal.text Decimal.Spelling.write Decimal.Spelling.chars
  rw [oneLine_ofList]
  have hwritten : ∀ sign d, '\n' ∉ Decimal.minus sign ++ Decimal.writePositional false d := by
    intro sign d
    refine newline_notMem (p := isNumeralChar) rfl fun c hc => ?_
    rcases List.mem_append.1 hc with hc | hc
    · exact isNumeralChar_minus hc
    · exact isNumeralChar_positional hc
  cases x.toModel.unpack with
  | notANumber => exact oneLine_ofList.1 (oneLine_literal rfl)
  | infinity sign => cases sign <;> exact oneLine_ofList.1 (oneLine_literal rfl)
  | zero sign => exact hwritten _ _
  | finite sign m e => exact hwritten _ _

/-! ### Dimensions -/

/-- The text of an exponent is on one line: it is an integer or a fraction. -/
theorem oneLine_exponentText (e : Exponent) : OneLine e.text := by
  unfold Exponent.text
  split
  · exact oneLine_intRepr e.num
  · exact oneLine_append.2 ⟨oneLine_append.2 ⟨oneLine_intRepr e.num, oneLine_literal rfl⟩,
      oneLine_natRepr e.den⟩

/-- The text of a dimension is on one line. It has the names of base quantities and their
exponents. -/
@[simp] theorem oneLine_dimensionText (d : Dimension) : OneLine d.text := by
  unfold Dimension.text
  split
  · exact oneLine_literal rfl
  refine oneLine_intercalate (oneLine_literal rfl) fun s hs => ?_
  obtain ⟨b, -, rfl⟩ := List.mem_map.1 hs
  have hname : OneLine b.name := by
    cases b <;> exact oneLine_literal rfl
  have hbracket : OneLine s!"[{b.name}]" :=
    oneLine_append.2 ⟨oneLine_append.2 ⟨oneLine_literal rfl, hname⟩, oneLine_literal rfl⟩
  split
  · exact hbracket
  · simp only [oneLine_append, toString]
    exact ⟨⟨⟨oneLine_literal rfl, hname⟩, oneLine_literal rfl⟩, oneLine_exponentText _⟩

/-- A power of a base unit is on one line. -/
theorem oneLine_unitFactor (b : Base) (e : Exponent) :
    OneLine (Dimension.unitFactor b.symbol e) := by
  have hsymbol : OneLine b.symbol := by
    cases b <;> exact oneLine_literal rfl
  unfold Dimension.unitFactor
  split
  · split
    · exact hsymbol
    · simp only [oneLine_append, toString, oneLine_natRepr, and_true]
      exact ⟨hsymbol, oneLine_literal rfl⟩
  · simp only [oneLine_append, toString, oneLine_natRepr, and_true]
    exact ⟨⟨⟨hsymbol, oneLine_literal rfl⟩, oneLine_literal rfl⟩, oneLine_literal rfl⟩

/-- The base unit of a dimension is on one line. Its powers are joined by stars, and those below the
line stand behind a slash. -/
theorem oneLine_baseUnit (d : Dimension) : OneLine d.baseUnit := by
  have hpowers : ∀ bs : List Base,
      OneLine ("*".intercalate (bs.map fun b => Dimension.unitFactor b.symbol (d.exponent b))) := by
    intro bs
    refine oneLine_intercalate (oneLine_literal rfl) fun s hs => ?_
    obtain ⟨b, -, rfl⟩ := List.mem_map.1 hs
    exact oneLine_unitFactor b _
  -- A unit without powers above the line has a one there.
  have htop : ∀ bs : List Base, OneLine (if bs.isEmpty then "1"
      else "*".intercalate (bs.map fun b => Dimension.unitFactor b.symbol (d.exponent b))) := by
    intro bs
    split
    · exact oneLine_literal rfl
    · exact hpowers bs
  unfold Dimension.baseUnit
  dsimp only
  split
  · exact oneLine_literal rfl
  split
  · exact htop _
  next b _ =>
    simp only [oneLine_append, toString]
    exact ⟨⟨htop _, oneLine_literal rfl⟩, oneLine_unitFactor b _⟩
  · simp only [oneLine_append]
    exact ⟨⟨⟨htop _, oneLine_literal rfl⟩, hpowers _⟩, oneLine_literal rfl⟩

/-! ### Formulas -/

namespace Tree

/-- What is said of the pieces inside brackets and of brackets holds of all pieces. -/
theorem forall_mem_bracket {P : Piece → Prop} {ps : List Piece} (hopen : P (.symbol .openBracket))
    (hclose : P (.symbol .closeBracket)) (h : ∀ p ∈ ps, P p) (strength context : Nat) :
    ∀ p ∈ bracket strength context ps, P p := by
  intro p hp
  unfold bracket at hp
  split at hp
  · simp only [List.mem_cons, List.mem_append, List.not_mem_nil, or_false] at hp
    rcases hp with rfl | hp | rfl
    · exact hopen
    · exact h p hp
    · exact hclose
  · exact h p hp

/-- Every piece of a formula is spelled on one line. There are numbers, names, operators and gaps
among them. -/
theorem oneLine_pieces (t : Tree) (context : Nat) : ∀ p ∈ t.pieces context, OneLine p.spelling := by
  have hbracket {ps : List Piece} (h : ∀ p ∈ ps, OneLine p.spelling) (strength context : Nat) :
      ∀ p ∈ bracket strength context ps, OneLine p.spelling :=
    forall_mem_bracket (oneLine_literal rfl) (oneLine_literal rfl) h strength context
  have hminus : OneLine (Piece.symbol .minus).spelling := oneLine_literal rfl
  -- The induction is on the tree, along the cases of the printer.
  induction t generalizing context with
  | var v =>
    rw [pieces, List.forall_mem_singleton]
    cases v <;> exact oneLine_literal rfl
  | literal value =>
    unfold pieces
    split
    · refine hbracket ?_ _ _
      rw [List.forall_mem_cons, List.forall_mem_singleton]
      exact ⟨hminus, UnitPlane.oneLine_text _⟩
    · rw [List.forall_mem_singleton]
      exact UnitPlane.oneLine_text value
  | binary op l r ihl ihr =>
    have hop : ∀ p ∈ op.pieces, OneLine p.spelling := by
      intro p hp
      cases op <;> simp only [Operator.pieces, List.mem_cons, List.not_mem_nil, or_false] at hp <;>
        rcases hp with rfl | rfl | rfl <;> exact oneLine_literal rfl
    unfold pieces
    split
    · exact hbracket (List.forall_mem_cons.2 ⟨hminus, ihr _⟩) _ _
    · refine hbracket ?_ _ _
      simp only [List.forall_mem_append]
      exact ⟨⟨ihl _, hop⟩, ihr _⟩

/-- The text of a formula is on one line. So faults that repeat a part of a formula do so on one
line. -/
theorem oneLine_text (t : Tree) : OneLine t.text := by
  refine oneLine_join fun s hs => ?_
  obtain ⟨p, hp, rfl⟩ := List.mem_map.1 hs
  exact t.oneLine_pieces 0 p hp

end Tree

/-! ### Faults -/

/-- The texts that the message of a syntax error takes over from the formula. The others are counted
or described. -/
def SyntaxCause.echoes : SyntaxCause → List String
  | unexpectedCharacter c => [c.toString]
  | badNumber numeral => [numeral]
  | numberOutOfRange numeral => [numeral]
  | unexpectedToken _ found => [found]
  | _ => []

/-- The texts that the message of an unsupported operator takes over. -/
def UnsupportedOperator.echoes : UnsupportedOperator → List String
  | symbol s => [s]
  | call name => [name]

/-- The texts that the message of a unit error takes over. -/
def UnitCause.echoes : UnitCause → List String
  | unknownName name => [name]
  | unexpectedCharacter c => [c.toString]
  | badNumber numeral => [numeral]
  | _ => []

/-- The texts that the message of a configuration error takes over. -/
def ConfigurationCause.echoes : ConfigurationCause → List String
  | magnitudeNotFinite _ unit => [unit]
  | rangeOverflows _ _ unit => [unit]
  | _ => []

/-- The texts that the message of a fault takes over from the job. The texts of subexpressions are
written anew, but count among them. -/
def Fault.echoes : Fault → List String
  | badSyntax _ cause => cause.echoes
  | unknownVariable name _ => [name]
  | unsupportedOperator operator => operator.echoes
  | dimensionMismatch subexpression _ _ => [subexpression]
  | exponentDimension subexpression _ => [subexpression]
  | exponentValue subexpression _ => [subexpression]
  | undefinedUnit expression cause => expression :: cause.echoes
  | dimensionality .. => []
  | configuration cause => cause.echoes
  | zeroDivision subexpression .. => [subexpression]
  | limitExceeded .. => []

/-- Everything that a fault takes over from the job is on one line. -/
def Fault.Inline (fault : Fault) : Prop := ∀ s ∈ fault.echoes, OneLine s

/-- The message of a syntax error is on one line if what it takes over is. -/
theorem SyntaxCause.oneLine_message {cause : SyntaxCause} (h : ∀ s ∈ cause.echoes, OneLine s) :
    OneLine cause.message := by
  have hexpectation : ∀ expected : Expectation, OneLine expected.message := by
    intro expected
    cases expected <;> exact oneLine_literal rfl
  unfold message
  cases cause <;> simp only [oneLine_append, toString, hexpectation] <;> and_intros <;>
    first
    | exact oneLine_literal rfl
    | exact h _ (by simp [echoes])
    | trivial

/-- The message of an unsupported operator is on one line if the name of it is. -/
theorem UnsupportedOperator.oneLine_message {operator : UnsupportedOperator}
    (h : ∀ s ∈ operator.echoes, OneLine s) : OneLine operator.message := by
  cases operator with
  | symbol s =>
    have hs := h s (by simp [echoes])
    unfold message
    dsimp only
    split
    · exact oneLine_literal rfl
    · simp only [oneLine_append, toString]
      exact ⟨⟨oneLine_literal rfl, hs⟩, oneLine_literal rfl⟩
  | call name =>
    unfold message
    simp only [oneLine_append, toString]
    exact ⟨⟨oneLine_literal rfl, h name (by simp [echoes])⟩, oneLine_literal rfl⟩

/-- The message of a unit error is on one line if what it takes over is. -/
theorem UnitCause.oneLine_message {cause : UnitCause} (h : ∀ s ∈ cause.echoes, OneLine s) :
    OneLine cause.message := by
  unfold message
  cases cause <;> simp only [oneLine_append, toString, oneLine_natRepr, oneLine_intRepr] <;>
    and_intros <;>
    first
    | exact oneLine_literal rfl
    | exact h _ (by simp [echoes])
    | trivial

/-- The message of a configuration error is on one line if the units that it names are. -/
theorem ConfigurationCause.oneLine_message {cause : ConfigurationCause}
    (h : ∀ s ∈ cause.echoes, OneLine s) :
    OneLine cause.message := by
  unfold message
  cases cause <;> simp only [oneLine_append, toString, oneLine_natRepr, oneLine_text] <;>
    and_intros <;>
    first
    | exact oneLine_literal rfl
    | exact h _ (by simp [echoes])
    | trivial

/-- The message of a fault is on one line if the texts that it takes over are. Everything else in it
is fixed, a number or a dimension. -/
theorem Fault.oneLine_message {fault : Fault} (h : fault.Inline) : OneLine fault.message := by
  -- What a message takes over, its cause takes over.
  have hcause : ∀ cause : ExponentCause, OneLine cause.message := by
    intro cause
    cases cause <;> exact oneLine_literal rfl
  have hstage : ∀ stage : Stage, OneLine stage.name := by
    intro stage
    cases stage <;> exact oneLine_literal rfl
  have hceiling : ∀ ceiling : Ceiling, OneLine ceiling.name := by
    intro ceiling
    cases ceiling <;> exact oneLine_literal rfl
  unfold message
  cases fault <;> simp only [oneLine_append, toString, oneLine_natRepr, oneLine_text,
      oneLine_dimensionText, hcause, hstage, hceiling] <;>
    and_intros <;>
    first
    | exact oneLine_literal rfl
    | trivial
    | exact SyntaxCause.oneLine_message h
    | exact UnsupportedOperator.oneLine_message h
    | exact ConfigurationCause.oneLine_message h
    | exact UnitCause.oneLine_message fun s hs => h s (List.mem_cons_of_mem _ hs)
    | exact h _ (by simp [echoes])

end UnitPlane
