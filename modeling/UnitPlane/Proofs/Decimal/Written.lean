import Mathlib.Algebra.Group.Nat.Defs
import Mathlib.Data.List.TakeDrop
import UnitPlane.Decimal.Spelling
import UnitPlane.Formula.Lexer
import UnitPlane.Proofs.Text

/-!
# `UnitPlane.Proofs.Decimal.Written`: numerals with all their digits in place

A decimal number written without an exponent is a row of digits, perhaps with a point and more
digits after it. `Scientific.numeral` is the numeral that `writePositional` writes:

* `read?_chars`: reading it as a whole gives the numeral's value.
* `split_chars`: in front of other text it is split off whole.
* `Scientific.digits_numeral`: its digits and scale are those of the decimal number.
-/

set_option autoImplicit false

namespace UnitPlane.Decimal

open Text

namespace Numeral

/-- A numeral without an exponent. There is a digit before the point at least, and what stands
before and after the point are digits. -/
structure Positional (n : Numeral) : Prop where
  whole : ∀ c ∈ n.whole, c.isDigit
  whole_ne_nil : n.whole ≠ []
  fraction : ∀ c ∈ n.fraction, c.isDigit
  exponent : n.exponent = 0

/-- How a numeral without an exponent is written. Without a fraction there is no point either. -/
def chars (n : Numeral) : List Char :=
  n.whole ++ if n.fraction = [] then [] else '.' :: n.fraction

variable {n : Numeral}

/-- A positional numeral starts with a digit, so it is not mistaken for a sign, a word or a
point. -/
theorem Positional.chars_eq_cons (h : n.Positional) : ∃ c cs, n.chars = c :: cs ∧ c.isDigit := by
  unfold chars
  cases hw : n.whole with
  | nil => exact absurd hw h.whole_ne_nil
  | cons c cs => exact ⟨c, _, rfl, h.whole c (by simp [hw])⟩

/-- A row of digits in front of something else is split off whole, if what follows does not go on
with a digit. -/
theorem span_digits {row rest : List Char} (hrow : ∀ c ∈ row, c.isDigit)
    (hrest : Stops Char.isDigit rest) : (row ++ rest).span Char.isDigit = (row, rest) := by
  rw [List.span_eq_takeWhile_dropWhile, takeWhile_append_of_stops hrow hrest,
    dropWhile_append_of_stops hrow hrest]

/-- Reading the characters of a numeral gives the numeral, with its digits before and after the
point. -/
theorem ofChars?_chars (h : n.Positional) : ofChars? n.chars = some n := by
  obtain ⟨whole, fraction, exponent⟩ := n
  obtain ⟨hwhole, hne, hfraction, rfl : exponent = 0⟩ := h
  unfold ofChars? chars
  -- The point is written only with a fraction, so the reader goes different ways.
  cases fraction with
  | nil =>
    simp only [if_true]
    rw [span_digits hwhole (stops_nil _)]
    simp [splitFraction, readExponent?, show whole ≠ [] from hne]
  | cons c cs =>
    have hspan : (c :: cs).span Char.isDigit = (c :: cs, []) := by
      have := span_digits hfraction (stops_nil _)
      rwa [List.append_nil] at this
    simp only [if_neg (List.cons_ne_nil c cs)]
    rw [span_digits hwhole (stops_cons.2 (by decide))]
    simp only [splitFraction, hspan]
    simp [readExponent?]

/-- No word starts with a digit. -/
theorem readWord?_of_isDigit {c : Char} (h : c.isDigit) (cs : List Char) :
    readWord? (c :: cs) = none := by
  have hi : (c.toLower == 'i') = false :=
    eq_of_isDigit (p := fun c => c.toLower == 'i') h (by decide)
  have hn : (c.toLower == 'n') = false :=
    eq_of_isDigit (p := fun c => c.toLower == 'n') h (by decide)
  unfold readWord?
  rw [if_neg, if_neg]
  -- Both words start with a letter, so the first characters differ.
  · intro hword
    have hhead := congrArg List.head? hword
    simp only [List.map_cons, List.head?_cons] at hhead
    exact absurd (Option.some.inj hhead) (ne_of_beq_false hn)
  · intro hword
    have hhead : some c.toLower = some 'i' := by
      rcases hword with hword | hword <;> exact congrArg List.head? hword
    exact absurd (Option.some.inj hhead) (ne_of_beq_false hi)

/-- What starts with a digit or a point is no sign and no word, so it is read as a numeral or not at
all. The words are those of infinity and of what is not a number. -/
theorem read?_eq_ofChars? {c : Char} (hc : c.isDigit = true ∨ (c == '.') = true) {cs : List Char} :
    read? (c :: cs) = (ofChars? (c :: cs)).map value := by
  obtain ⟨hsign, hword⟩ : splitSign (c :: cs) = (false, c :: cs) ∧ readWord? (c :: cs) = none := by
    rcases hc with hdigit | hpoint
    · exact ⟨splitSign_of_isDigit hdigit cs, readWord?_of_isDigit hdigit cs⟩
    · obtain rfl := eq_of_beq hpoint
      exact ⟨rfl, rfl⟩
  unfold read?
  rw [hsign]
  dsimp only
  rw [hword, Option.none_or]
  exact Option.map_id'

/-- Reading a numeral as a whole gives its value. That is how the numbers of a command line and of a
document are read. -/
theorem read?_chars (h : n.Positional) : read? n.chars = some n.value := by
  obtain ⟨c, cs, hchars, hc⟩ := h.chars_eq_cons
  rw [hchars, read?_eq_ofChars? (.inl hc), ← hchars, ofChars?_chars h]
  rfl

/-- What goes on a numeral: more digits, a point or an exponent. In front of anything else a numeral
ends. -/
def goesOn (c : Char) : Bool := c.isDigit || c == '.' || c == 'e' || c == 'E'

/-- Where nothing goes on a numeral, no exponent is split off. -/
theorem splitExponent_of_stops {rest : List Char} (h : Stops goesOn rest) :
    UnitPlane.Numeral.splitExponent rest = ([], rest) := by
  cases rest with
  | nil => rfl
  | cons c cs =>
    have hc := stops_cons.1 h
    have he : ¬ (c = 'e' ∨ c = 'E') := by
      rintro (rfl | rfl) <;> exact nomatch hc
    unfold UnitPlane.Numeral.splitExponent
    exact if_neg fun hexponent => he hexponent.1

/-- A numeral in front of something that cannot go on with it is split off whole. That is how the
numerals in a formula are read. -/
theorem split_chars (h : n.Positional) {rest : List Char} (hrest : Stops goesOn rest) :
    UnitPlane.Numeral.split (n.chars ++ rest) = (n.chars, rest) := by
  have hdigit : Stops Char.isDigit rest := by
    intro c hc
    have := hrest c hc
    simp only [goesOn, Bool.or_eq_false_iff] at this
    exact this.1.1.1
  obtain ⟨whole, fraction, exponent⟩ := n
  obtain ⟨hwhole, hne, hfraction, -⟩ := h
  simp only at hwhole hfraction
  unfold UnitPlane.Numeral.split chars
  simp only [List.append_assoc]
  -- Without a fraction no point is written, and the text after must not supply one.
  cases fraction with
  | nil =>
    have hpoint : UnitPlane.Numeral.splitPoint rest = ([], rest) := by
      cases rest with
      | nil => rfl
      | cons c cs =>
        have hc := stops_cons.1 hrest
        unfold UnitPlane.Numeral.splitPoint
        split
        next heq =>
          cases heq
          exact nomatch hc
        next => rfl
    rw [if_pos rfl, List.nil_append, takeWhile_append_of_stops hwhole hdigit,
      dropWhile_append_of_stops hwhole hdigit, hpoint, splitExponent_of_stops hrest]
    simp
  | cons c cs =>
    have hpoint : Stops Char.isDigit ('.' :: (c :: cs ++ rest)) := stops_cons.2 (by decide)
    rw [if_neg (List.cons_ne_nil c cs), List.cons_append, takeWhile_append_of_stops hwhole hpoint,
      dropWhile_append_of_stops hwhole hpoint]
    simp only [UnitPlane.Numeral.splitPoint]
    rw [takeWhile_append_of_stops hfraction hdigit, dropWhile_append_of_stops hfraction hdigit,
      splitExponent_of_stops hrest]
    simp

end Numeral

/-! ### Written decimals -/

/-- The numeral with all the digits of a decimal number in place. Zeros stand for the places that
the digits do not reach, on either side of the point. -/
def Scientific.numeral (d : Scientific) : Numeral :=
  let digits := digitsOf d.digits
  if 0 ≤ d.exponent then ⟨digits ++ List.replicate d.exponent.toNat '0', [], 0⟩
  else
    let places := (-d.exponent).toNat
    if places < digits.length then
      ⟨digits.take (digits.length - places), digits.drop (digits.length - places), 0⟩
    else ⟨['0'], List.replicate (places - digits.length) '0' ++ digits, 0⟩

/-- There is a digit at least, since zero is written as one. -/
theorem digitsOf_ne_nil (n : Nat) : digitsOf n ≠ [] := Nat.toDigits_ne_nil

/-- The digits of a number are digits. -/
theorem isDigit_of_mem_digitsOf {n : Nat} {c : Char} (h : c ∈ digitsOf n) : c.isDigit :=
  isDigit_of_mem_toDigits h

/-- The zeros that fill up places are digits. -/
theorem isDigit_of_mem_zeros {k : Nat} {c : Char} (h : c ∈ List.replicate k '0') : c.isDigit := by
  rw [List.eq_of_mem_replicate h]
  decide

/-- The numeral of a decimal number is one without an exponent. Wherever the point comes to stand, a
digit is before it. -/
theorem Scientific.positional_numeral (d : Scientific) : d.numeral.Positional := by
  unfold numeral
  dsimp only
  -- The point is behind all digits, among them, or in front of them.
  split
  · refine ⟨?_, ?_, ?_, rfl⟩
    · intro c hc
      rcases List.mem_append.1 hc with hc | hc
      · exact isDigit_of_mem_digitsOf hc
      · exact isDigit_of_mem_zeros hc
    · exact List.append_ne_nil_of_left_ne_nil (digitsOf_ne_nil _) _
    · intro c hc
      cases hc
  split
  next hplaces =>
    refine ⟨?_, ?_, ?_, rfl⟩
    · intro c hc
      exact isDigit_of_mem_digitsOf (List.mem_of_mem_take hc)
    · intro hnil
      have := congrArg List.length hnil
      rw [List.length_take, List.length_nil] at this
      omega
    · intro c hc
      exact isDigit_of_mem_digitsOf (List.mem_of_mem_drop hc)
  · refine ⟨?_, List.cons_ne_nil _ _, ?_, rfl⟩
    · intro c hc
      rw [List.mem_singleton.1 hc]
      decide
    · intro c hc
      rcases List.mem_append.1 hc with hc | hc
      · exact isDigit_of_mem_zeros hc
      · exact isDigit_of_mem_digitsOf hc

/-- Writing a decimal number with all its places writes its numeral. -/
theorem writePositional_eq (d : Scientific) : writePositional false d = d.numeral.chars := by
  unfold writePositional Scientific.numeral Numeral.chars
  dsimp only
  split
  · simp
  next hexponent =>
    split
    next hplaces =>
      -- Some digits are left for the fraction, so the point is written.
      dsimp only
      rw [if_neg]
      intro hnil
      have := congrArg List.length hnil
      rw [List.length_drop, List.length_nil] at this
      omega
    · dsimp only
      rw [if_neg (List.append_ne_nil_of_right_ne_nil _ (digitsOf_ne_nil _))]
      rfl

/-- The digits of two rows are read one after the other, the second from what the first gives. -/
theorem natOfDigits_append (start : Nat) (ds es : List Char) :
    natOfDigits start (ds ++ es) = natOfDigits (natOfDigits start ds) es := List.foldl_append

/-- Each zero after the digits multiplies the number by ten. -/
theorem natOfDigits_zeros (start k : Nat) :
    natOfDigits start (List.replicate k '0') = start * 10 ^ k := by
  induction k generalizing start with
  | zero => simp [natOfDigits]
  | succ k ih =>
    show natOfDigits (10 * start + 0) (List.replicate k '0') = _
    rw [ih, Nat.pow_succ, Nat.add_zero, Nat.mul_comm 10 start, Nat.mul_assoc,
      Nat.mul_comm 10 (10 ^ k)]

/-- The zeros that fill up the places are among the digits, and only places after the point count.
So the numeral has the value of the decimal number. -/
theorem Scientific.digits_numeral (d : Scientific) :
    d.numeral.digits = d.digits * 10 ^ d.exponent.toNat ∧ d.numeral.scale = min d.exponent 0 := by
  have hdigits : natOfDigits 0 (digitsOf d.digits) = d.digits := natOfDigits_toDigits _
  -- The cases are those of `numeral`: zeros after the digits, a point among them, zeros before
  -- them.
  unfold Numeral.digits Numeral.scale numeral
  dsimp only
  split
  · refine ⟨?_, ?_⟩
    · rw [natOfDigits_append, hdigits, natOfDigits_zeros]
      rfl
    · show (0 : Int) - 0 = min d.exponent 0
      omega
  next hexponent =>
    have hzero : d.exponent.toNat = 0 := by omega
    rw [hzero, Nat.pow_zero, Nat.mul_one]
    split
    · refine ⟨?_, ?_⟩
      · rw [← natOfDigits_append, List.take_append_drop, hdigits]
      · show (0 : Int) - (List.drop _ _).length = _
        rw [List.length_drop]
        omega
    · refine ⟨?_, ?_⟩
      · rw [natOfDigits_append, natOfDigits_zeros]
        show natOfDigits (0 * _) _ = _
        rw [Nat.zero_mul, hdigits]
      · show (0 : Int) - (List.replicate _ '0' ++ digitsOf d.digits).length = _
        rw [List.length_append, List.length_replicate]
        omega

end UnitPlane.Decimal
