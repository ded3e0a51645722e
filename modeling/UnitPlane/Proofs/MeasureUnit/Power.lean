import Mathlib.Data.Nat.Init
import UnitPlane.Proofs.Exponent
import UnitPlane.Proofs.MeasureUnit.Reading

/-!
# `UnitPlane.Proofs.MeasureUnit.Power`: written powers of base units

A base unit is a product of written powers, such as `s**2` and `m**(1/2)`. The reader of unit
expressions takes a written power back, as long as its integers are within the bound on exponents.
Powers are written without a sign, because those with negative exponents stand behind the sign of a
division, so they are read back with the magnitude of the exponent.

A power is followed by the end of the text, by a sign or by a bracket (`Follows`). None of these
goes on with an integer, a name or a sign of a power, so what is read ends where the power does.

* `toList_unitFactor`: how a power is written.
* `plain_readTerm_written`: a power within the bound is read back and the text after it is left, and
  a power beyond the bound is refused.
-/

set_option autoImplicit false

namespace UnitPlane

open Text

/-! ### Magnitudes of exponents -/

namespace Exponent

/-- Both integers of an exponent are within the bound on written exponents. -/
def Writable (e : Exponent) : Prop := e.num.natAbs ≤ maxUnitExponent ∧ e.den ≤ maxUnitExponent

instance (e : Exponent) : Decidable e.Writable := inferInstanceAs (Decidable (_ ∧ _))

/-- An exponent without its sign, where there is one. The smallest exponent has no opposite that
fits, and keeps its sign; it is far beyond the bound. -/
def magnitude (e : Exponent) : Exponent :=
  if h : e.num < 0 ∧ Fits32 (-e.num) then e.opposite h.2 else e

/-- The denominator of an exponent has nothing to do with its sign. -/
@[simp] theorem den_magnitude (e : Exponent) : e.magnitude.den = e.den := by
  unfold magnitude
  split
  · exact den_opposite e _
  · rfl

/-- Within the bound, an exponent without its sign has the absolute value of the numerator. -/
theorem num_magnitude {e : Exponent} (h : e.Writable) : e.magnitude.num = e.num.natAbs := by
  have hle : e.num.natAbs ≤ 1000 := h.1
  unfold magnitude
  split
  next hneg =>
    rw [num_opposite]
    omega
  next hneg =>
    have hfits : Fits32 (-e.num) := by
      constructor <;> omega
    have hpos : ¬ e.num < 0 := fun hlt => hneg ⟨hlt, hfits⟩
    omega

/-- An exponent that is not negative has no sign to lose. -/
theorem magnitude_of_pos {e : Exponent} (h : 0 ≤ e.num) : e.magnitude = e :=
  dif_neg fun hneg => absurd hneg.1 (by omega)

/-- A negative exponent within the bound is replaced by its opposite. -/
theorem magnitude_of_neg {e : Exponent} (hw : e.Writable) (h : e.num < 0) :
    ∃ hfits, e.magnitude = e.opposite hfits := by
  have hle : e.num.natAbs ≤ 1000 := hw.1
  have hfits : Fits32 (-e.num) := by
    constructor <;> omega
  exact ⟨hfits, dif_pos ⟨h, hfits⟩⟩

/-- The quotient of the numerator and the denominator is the exponent, as it is in lowest terms
already. -/
theorem ofQuotient?_num_den (e : Exponent) : ofQuotient? e.num e.den = some e := by
  have hval : Rat.divInt e.num e.den = e.val := Rat.num_divInt_den e.val
  have hden : (e.den : Int) ≠ 0 := by exact_mod_cast Nat.ne_of_gt e.den_pos
  simp only [ofQuotient?, hval]
  rw [dif_pos ⟨hden, e.num_fits, e.den_fits⟩]

end Exponent

/-! ### Powers of one base quantity -/

namespace Dimension

/-- The dimension of a power of one base quantity. -/
def single (b : Base) (e : Exponent) : Dimension := ofFn fun c => if c = b then e else 0

/-- Eight exponents make a dimension, if each of them is there. -/
theorem ofFn?_eq_some {f : Base → Option Exponent} {g : Base → Exponent}
    (h : ∀ b, f b = some (g b)) : ofFn? f = some (ofFn g) := by
  simp [ofFn?, ofFn, h]

/-- A base quantity to a power is a power of one base quantity. -/
theorem pow?_single (b : Base) (e : Exponent) : (single b 1).pow? e = some (single b e) := by
  refine ofFn?_eq_some fun c => ?_
  rw [single, exponent_ofFn]
  split
  · exact Exponent.one_mul? e
  · exact Exponent.zero_mul? e

/-- The exponent of a written power: nothing for one, and brackets around a fraction. -/
def powerText (n d : Nat) : List Char :=
  if d = 1 then
    if n = 1 then [] else '*' :: '*' :: Nat.toDigits 10 n
  else '*' :: '*' :: '(' :: (Nat.toDigits 10 n ++ '/' :: (Nat.toDigits 10 d ++ [')']))

/-- A written power is the symbol and the text of the exponent. -/
theorem toList_unitFactor (symbol : String) (e : Exponent) :
    (unitFactor symbol e).toList = symbol.toList ++ powerText e.num.natAbs e.den := by
  unfold unitFactor powerText
  split
  · split
    · exact (List.append_nil _).symm
    · simp only [String.toList_append, Nat.toString_eq_ofList_toDigits, String.toList_ofList,
        List.append_assoc]
      rfl
  · simp only [String.toList_append, Nat.toString_eq_ofList_toDigits, String.toList_ofList,
      List.append_assoc]
    rfl

end Dimension

namespace UnitExpression

open Dimension

/-! ### What follows a power -/

/-- What may follow a written power: the end, a closing bracket, or a sign and another factor. -/
inductive Follows : List Char → Prop where
  | stop : Follows []
  | closed (rest : List Char) : Follows (')' :: rest)
  | slashed (rest : List Char) : Follows ('/' :: rest)
  | times {rest : List Char} (h : rest.head? ≠ some '*') : Follows ('*' :: rest)

/-- What follows a power starts in none of the classes that its parts are read by, as these have
none of the three characters. -/
theorem Follows.stops {p : Char → Bool} {cs : List Char} (h : Follows cs) (hclosed : p ')' = false)
    (hslash : p '/' = false) (htimes : p '*' = false) : Stops p cs := by
  cases h with
  | stop => exact stops_nil p
  | closed rest => exact stops_cons.2 hclosed
  | slashed rest => exact stops_cons.2 hslash
  | times _ => exact stops_cons.2 htimes

/-- What follows a power does not start with white space. -/
theorem Follows.stops_isBlank {cs : List Char} (h : Follows cs) : Stops isBlank cs :=
  h.stops (by decide) (by decide) (by decide)

/-- What follows a power does not start with a digit. -/
theorem Follows.stops_isDigit {cs : List Char} (h : Follows cs) : Stops Char.isDigit cs :=
  h.stops (by decide) (by decide) (by decide)

/-- What follows a power does not go on with a name. -/
theorem Follows.stops_continuesName {cs : List Char} (h : Follows cs) : Stops continuesName cs :=
  h.stops (continuesName_of_ascii (by decide)) (continuesName_of_ascii (by decide))
    (continuesName_of_ascii (by decide))

/-- A power is not taken to a power again: one star is no sign of it. -/
theorem Follows.powerSign?_eq_none {cs : List Char} (h : Follows cs) : powerSign? cs = none := by
  -- A caret never follows; a star may, but then it is the sign of a product.
  have hcaret : after? '^' cs = none := by
    refine afterSkip?_eq_none h.stops_isBlank ?_
    cases h <;> simp
  cases h with
  | stop | closed rest | slashed rest =>
    have hstar : ∀ cs, cs.head? ≠ some '*' → Stops isBlank cs → after? '*' cs = none :=
      fun cs hne hstops => afterSkip?_eq_none hstops hne
    unfold powerSign?
    rw [hstar _ (by simp) (by simp <;> decide)]
    exact hcaret
  | times hne =>
    next rest =>
    unfold powerSign?
    rw [after?, afterSkip?_cons_self (by decide)]
    cases rest with
    | nil => rfl
    | cons c rest =>
      have hc : c ≠ '*' := by simpa using hne
      split
      next heq =>
        cases heq
        exact absurd rfl hc
      next => rfl
      next heq => cases heq

/-- Two stars are the sign of a power, and what follows them is left. -/
theorem powerSign?_stars (cs : List Char) : ∃ h, powerSign? ('*' :: '*' :: cs) = some ⟨cs, h⟩ := by
  refine ⟨by simp only [List.length_cons]; omega, ?_⟩
  unfold powerSign?
  rw [after?, afterSkip?_cons_self (by decide)]
  rfl

/-! ### Integers and exponents -/

/-- The digits of a number are read as that number, if it is within the bound, and refused
otherwise. -/
theorem plain_readInt_digits (n : Nat) {rest : List Char} (hrest : Stops Char.isDigit rest) :
    (n ≤ maxUnitExponent →
      Except.plain (readInt (Nat.toDigits 10 n ++ rest)) = .ok ((n : Int), rest)) ∧
    (maxUnitExponent < n → ∃ e, Except.plain (readInt (Nat.toDigits 10 n ++ rest)) = .error e) := by
  have hdigits : ∀ c ∈ Nat.toDigits 10 n, c.isDigit := fun c hc => isDigit_of_mem_toDigits hc
  have hblank : skipBlanks (Nat.toDigits 10 n ++ rest) = Nat.toDigits 10 n ++ rest :=
    skipBlanks_of_stops (stops_toDigits (fun c hc => isBlank_of_isDigit hc) n rest)
  have hsign : Decimal.splitSign (Nat.toDigits 10 n ++ rest) =
      (false, Nat.toDigits 10 n ++ rest) := by
    cases h : Nat.toDigits 10 n with
    | nil => exact absurd h Nat.toDigits_ne_nil
    | cons c cs => exact splitSign_of_isDigit (hdigits c (by simp [h])) _
  have hempty : (Nat.toDigits 10 n).isEmpty = false := by simp [Nat.toDigits_ne_nil]
  rw [plain_readInt, hblank, hsign]
  simp only [takeWhile_append_of_stops hdigits hrest, dropWhile_append_of_stops hdigits hrest,
    natOfDigits_toDigits, hempty, Bool.false_eq_true, if_false, Bool.false_or, Int.natAbs_natCast]
  -- An integer that does not fit is refused before the bound is looked at, so it is refused too.
  constructor
  · intro hle
    have hfits : Fits32 n := by
      have : n ≤ 1000 := hle
      constructor <;> omega
    simp [hfits, Nat.not_lt.2 hle]
  · intro hlt
    by_cases hfits : Fits32 n
    · simp [hfits, hlt]
    · simp [hfits]

/-- An integer is read as an exponent with the denominator one. No bracket stands in front of it. -/
theorem fraction_digits (n : Nat) {rest : List Char} (hrest : Follows rest) :
    (n ≤ maxUnitExponent → fraction (Nat.toDigits 10 n ++ rest) = .ok ((n : Int), 1, rest)) ∧
    (maxUnitExponent < n → ∃ e, fraction (Nat.toDigits 10 n ++ rest) = .error e) := by
  -- A digit is no bracket, so this is the form without brackets.
  have hopen : after? '(' (Nat.toDigits 10 n ++ rest) = none := by
    refine afterSkip?_eq_none (stops_toDigits (fun c hc => isBlank_of_isDigit hc) n rest) ?_
    intro hhead
    have hdigit (c : Char) (hc : c.isDigit) : (c == '(') = false :=
      eq_of_isDigit (p := (· == '(')) hc (by decide)
    have hne := stops_toDigits hdigit n rest '(' hhead
    simp at hne
  obtain ⟨hok, herror⟩ := plain_readInt_digits n hrest.stops_isDigit
  rw [fraction_eq, hopen]
  constructor
  · intro hle
    simp [hok hle]
  · intro hlt
    obtain ⟨e, he⟩ := herror hlt
    exact ⟨e, by simp [he]⟩

/-- Two integers with a slash in brackets are read as a fraction, if both are within the bound. -/
theorem fraction_brackets (n d : Nat) (rest : List Char) :
    (n ≤ maxUnitExponent → d ≤ maxUnitExponent →
      fraction ('(' :: (Nat.toDigits 10 n ++ '/' :: (Nat.toDigits 10 d ++ ')' :: rest))) =
        .ok ((n : Int), (d : Int), rest)) ∧
    (maxUnitExponent < n ∨ maxUnitExponent < d →
      ∃ e, fraction ('(' :: (Nat.toDigits 10 n ++ '/' :: (Nat.toDigits 10 d ++ ')' :: rest))) =
        .error e) := by
  have hclosed : Stops Char.isDigit (')' :: rest) := stops_cons.2 (by decide)
  have hslash : Stops Char.isDigit ('/' :: (Nat.toDigits 10 d ++ ')' :: rest)) :=
    stops_cons.2 (by decide)
  have hd := plain_readInt_digits d hclosed
  have hn := plain_readInt_digits n hslash
  have hslash (cs : List Char) :
      Except.plain (readDenominator ('/' :: cs)) = Except.plain (readInt cs) := by
    rw [plain_readDenominator, after?, afterSkip?_cons_self (by decide)]
  rw [fraction_eq, after?, afterSkip?_cons_self (by decide)]
  dsimp only
  -- The numerator is read first, so the denominator matters only if the numerator is accepted.
  rcases Nat.lt_or_ge maxUnitExponent n with hlt | hle
  · obtain ⟨e, he⟩ := hn.2 hlt
    refine ⟨fun h => absurd h (by omega), fun _ => ⟨e, by simp [he]⟩⟩
  rw [hn.1 hle, Except.ok_bind, hslash]
  rcases Nat.lt_or_ge maxUnitExponent d with hlt' | hle'
  · obtain ⟨e, he⟩ := hd.2 hlt'
    refine ⟨fun _ h => absurd h (by omega), fun _ => ⟨e, by simp [he]⟩⟩
  refine ⟨fun _ _ => ?_, fun h => absurd h (by omega)⟩
  rw [hd.1 hle', Except.ok_bind, after?, afterSkip?_cons_self (by decide)]

/-- A written exponent that is a fraction, or an integer other than one, is read back without its
sign. -/
theorem plain_readExponent_of_fraction {e : Exponent} {cs rest : List Char} (he : e.Writable)
    (h : fraction cs = .ok ((e.num.natAbs : Int), (e.den : Int), rest)) :
    Except.plain (readExponent cs) = .ok (e.magnitude, rest) := by
  have hden : e.den ≠ 0 := Nat.ne_of_gt e.den_pos
  have hq := Exponent.ofQuotient?_num_den e.magnitude
  rw [Exponent.num_magnitude he, Exponent.den_magnitude] at hq
  rw [plain_readExponent, h]
  simp only [Except.ok_bind, Int.natCast_eq_zero, hden, if_false, hq]

/-- An exponent is refused if its fraction is. -/
theorem plain_readExponent_eq_error {e : UnitCause} {cs : List Char} (h : fraction cs = .error e) :
    Except.plain (readExponent cs) = .error e := by
  rw [plain_readExponent, h]
  rfl

/-! ### Terms -/

/-- The factor of a base unit's symbol has its base quantity alone, and the scale one. The kilogram
is the base unit of a mass. -/
theorem nameFactor_symbol (b : Base) : nameFactor b.symbol = .ok ⟨single b 1, 1⟩ := by
  cases b <;> decide

/-- A symbol is a name: it starts as one, and goes on as one. -/
theorem symbol_eq_cons (b : Base) :
    ∃ c cs, b.symbol.toList = c :: cs ∧ isBlank c = false ∧ c ≠ '(' ∧ isNumberChar c = false ∧
      startsName c = true ∧ cs.all continuesName = true := by
  cases b <;> exact ⟨_, _, rfl, by decide⟩

/-- The symbol of a base unit is read as that unit, if no name goes on after it. -/
theorem plain_readFactor_symbol (b : Base) {rest : List Char} (hrest : Stops continuesName rest) :
    Except.plain (readFactor (b.symbol.toList ++ rest)) = .ok (⟨single b 1, 1⟩, rest) := by
  obtain ⟨c, cs, hsymbol, hblank, hopen, hnumber, hname, hall⟩ := symbol_eq_cons b
  have hcs := List.all_eq_true.1 hall
  have hskip : skipBlanks (c :: cs ++ rest) = c :: (cs ++ rest) :=
    skipBlanks_of_stops (stops_cons.2 hblank)
  have hfactor : nameFactor (String.ofList (c :: cs)) = .ok ⟨single b 1, 1⟩ := by
    rw [← hsymbol, String.ofList_toList]
    exact nameFactor_symbol b
  rw [hsymbol, plain_readFactor, hskip]
  simp only [hopen, if_false, hnumber, Bool.false_eq_true, hname, if_true,
    takeWhile_append_of_stops hcs hrest, dropWhile_append_of_stops hcs hrest, hfactor,
    Except.ok_bind]

end UnitExpression

/-! ### Scales -/

namespace Factor

/-- Squares and products of one are one. -/
theorem squareAndMultiply_one (digits : Nat) : squareAndMultiply 1 1 digits = 1 := by
  induction digits using Nat.strongRecOn with
  | ind digits ih =>
    have hmul : (1 : Float) * 1 = 1 := by decide
    rw [squareAndMultiply]
    split
    · rfl
    next hne =>
      simp only [hmul, ite_self]
      exact ih _ (Nat.div_lt_self (Nat.pos_of_ne_zero hne) (by decide))

/-- A scale of one stays one in every power: by repeated squaring, by a division, and by the power
function. -/
theorem powScale_one (p : Exponent) : powScale 1 p = 1 := by
  have hnat (n : Nat) : powNat 1 n = 1 := by
    rw [powNat, ite_self]
    exact squareAndMultiply_one _
  have hdiv : (1 : Float) / 1 = 1 := by decide
  have hreal (y : Float) : realPower 1 y = 1 := by
    have : ((1 : Float) == 1) = true := by decide
    simp [realPower, this]
  unfold powScale powInt
  split
  · split
    · rw [hnat, hdiv]
    · exact hnat _
  · exact hreal _

/-- The power of a base unit has the scale one. -/
theorem pow?_single (b : Base) (p : Exponent) :
    pow? ⟨.single b 1, 1⟩ p = some ⟨.single b p, 1⟩ := by
  rw [pow?, Dimension.pow?_single, powScale_one]
  rfl

end Factor

namespace UnitExpression

open Dimension

/-- A symbol with a sign of a power and an exponent is read as the power. -/
theorem plain_readTerm_stars (b : Base) (cs : List Char) :
    Except.plain (readTerm (b.symbol.toList ++ '*' :: '*' :: cs)) =
      Except.plain (readExponent cs) >>= fun q => .ok (⟨single b q.1, 1⟩, q.2) := by
  obtain ⟨h, hsign⟩ := powerSign?_stars cs
  rw [plain_readTerm, plain_readFactor_symbol b (stops_cons.2 (continuesName_of_ascii (by decide))),
    Except.ok_bind]
  simp only [hsign, Factor.pow?_single]

/-- An exponent whose magnitude is one is within the bound, and it is not written. -/
theorem plain_readTerm_unwritten {b : Base} {e : Exponent} {rest : List Char} (hrest : Follows rest)
    (hnum : e.num.natAbs = 1) (hden : e.den = 1) :
    e.Writable ∧
      Except.plain (readTerm (b.symbol.toList ++ (powerText e.num.natAbs e.den ++ rest))) =
        .ok (⟨single b e.magnitude, 1⟩, rest) := by
  have hwritable : e.Writable := by
    constructor
    · rw [hnum]
      decide
    · rw [hden]
      decide
  have hone : e.magnitude = 1 :=
    Exponent.eq_of_num_den (by rw [Exponent.num_magnitude hwritable, hnum]; rfl)
      (by rw [Exponent.den_magnitude, hden]; rfl)
  have htext : powerText e.num.natAbs e.den = [] := by simp [powerText, hden, hnum]
  refine ⟨hwritable, ?_⟩
  rw [htext, List.nil_append, plain_readTerm,
    plain_readFactor_symbol b hrest.stops_continuesName, Except.ok_bind]
  simp only [hrest.powerSign?_eq_none, hone]

/-- Any other exponent is written behind two stars. What is read is then decided by how its fraction
is read: within the bound as itself, and beyond the bound not at all. -/
theorem plain_readTerm_of_fraction {b : Base} {e : Exponent} {rest digits : List Char}
    (htext : powerText e.num.natAbs e.den ++ rest = '*' :: '*' :: digits)
    (hok : e.Writable → fraction digits = .ok ((e.num.natAbs : Int), (e.den : Int), rest))
    (herror : ¬ e.Writable → ∃ cause, fraction digits = .error cause) :
    (e.Writable →
      Except.plain (readTerm (b.symbol.toList ++ (powerText e.num.natAbs e.den ++ rest))) =
        .ok (⟨single b e.magnitude, 1⟩, rest)) ∧
    (¬ e.Writable →
      ∃ cause, Except.plain (readTerm (b.symbol.toList ++ (powerText e.num.natAbs e.den ++ rest))) =
        .error cause) := by
  rw [htext, plain_readTerm_stars]
  constructor
  · intro he
    rw [plain_readExponent_of_fraction he (hok he)]
    rfl
  · intro he
    obtain ⟨cause, hcause⟩ := herror he
    exact ⟨cause, by rw [plain_readExponent_eq_error hcause]; rfl⟩

/-- A written power is read back without its sign, if it is within the bound, and refused otherwise.
What follows it is left. -/
theorem plain_readTerm_written (b : Base) (e : Exponent) {rest : List Char} (hrest : Follows rest) :
    (e.Writable →
      Except.plain (readTerm (b.symbol.toList ++ (powerText e.num.natAbs e.den ++ rest))) =
        .ok (⟨single b e.magnitude, 1⟩, rest)) ∧
    (¬ e.Writable →
      ∃ cause, Except.plain (readTerm (b.symbol.toList ++ (powerText e.num.natAbs e.den ++ rest))) =
        .error cause) := by
  -- An exponent is written as nothing, as an integer, or as a fraction in brackets.
  by_cases hden : e.den = 1
  · by_cases hnum : e.num.natAbs = 1
    · obtain ⟨hwritable, hread⟩ := plain_readTerm_unwritten (b := b) hrest hnum hden
      exact ⟨fun _ => hread, fun h => absurd hwritable h⟩
    · obtain ⟨hok, herror⟩ := fraction_digits e.num.natAbs hrest
      have htext : powerText e.num.natAbs e.den ++ rest =
          '*' :: '*' :: (Nat.toDigits 10 e.num.natAbs ++ rest) := by
        simp [powerText, hden, hnum]
      refine plain_readTerm_of_fraction htext ?_ ?_
      · intro he
        rw [hok he.1, hden]
        rfl
      · intro he
        refine herror (Nat.not_le.1 fun hle => he ⟨hle, ?_⟩)
        rw [hden]
        decide
  · obtain ⟨hok, herror⟩ := fraction_brackets e.num.natAbs e.den rest
    refine plain_readTerm_of_fraction (by simp [powerText, hden]) (fun he => hok he.1 he.2) ?_
    intro he
    refine herror ?_
    unfold Exponent.Writable at he
    omega

end UnitExpression

end UnitPlane
