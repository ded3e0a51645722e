/-!
# `UnitPlane.Decimal.Numeral`: doubles from text

`read?` gives the double nearest to a decimal number. A numeral is an optional sign and then digits
with an optional point and an optional exponent, with at least one digit before the exponent, or one
of the words for infinity and for a value that is not a number. Nothing else may stand around it.
-/

set_option autoImplicit false

namespace UnitPlane.Decimal

/-- The value of a digit character. -/
def digitValue (c : Char) : Nat := c.toNat - '0'.toNat

/-- The number that a row of digits stands for, after the digits of `start`. -/
def natOfDigits (start : Nat) (digits : List Char) : Nat :=
  digits.foldl (fun n c => 10 * n + digitValue c) start

/-- An unsigned decimal number: the digits before and after the point, and the exponent. -/
structure Numeral where
  whole : List Char
  fraction : List Char
  exponent : Int

/-- The number all digits together stand for, the point left out. -/
def Numeral.digits (n : Numeral) : Nat := natOfDigits (natOfDigits 0 n.whole) n.fraction

/-- The power of ten of the last digit. -/
def Numeral.scale (n : Numeral) : Int := n.exponent - n.fraction.length

/-- The double nearest to a numeral, an infinity if it is out of range. -/
def Numeral.value (n : Numeral) : Float :=
  Float.ofScientific n.digits (decide (n.scale < 0)) n.scale.natAbs

/-- A sign in front of an unsigned part, and that part. -/
def splitSign : List Char → Bool × List Char
  | '-' :: rest => (true, rest)
  | '+' :: rest => (false, rest)
  | cs => (false, cs)

/-- What follows a sign is no longer than the text. -/
theorem length_splitSign_le (cs : List Char) : (splitSign cs).2.length ≤ cs.length := by
  unfold splitSign
  split <;> simp

/-- The integer that a row of digits with an optional sign stands for. -/
def readInt? (cs : List Char) : Option Int :=
  let (negative, digits) := splitSign cs
  if digits.isEmpty || !digits.all Char.isDigit then none
  else
    let n : Int := natOfDigits 0 digits
    some (if negative then -n else n)

/-- The exponent that follows the digits: nothing, or `e` and an integer. -/
def readExponent? : List Char → Option Int
  | [] => some 0
  | c :: rest => if c = 'e' ∨ c = 'E' then readInt? rest else none

/-- The digits after the point, if there is one, and what follows them. -/
def splitFraction : List Char → List Char × List Char
  | '.' :: rest => rest.span Char.isDigit
  | cs => ([], cs)

/-- An unsigned numeral that takes up all the characters. -/
def Numeral.ofChars? (cs : List Char) : Option Numeral :=
  let (whole, rest) := cs.span Char.isDigit
  let (fraction, rest) := splitFraction rest
  if whole.isEmpty && fraction.isEmpty then none
  else (readExponent? rest).map fun exponent => ⟨whole, fraction, exponent⟩

/-- A value spelled as a word, in any mixture of cases. -/
def readWord? (cs : List Char) : Option Float :=
  let word := cs.map Char.toLower
  if word = "inf".toList ∨ word = "infinity".toList then some (1 / 0)
  else if word = "nan".toList then some (0 / 0)
  else none

/-- The double that a text stands for, if it is a numeral. -/
def read? (cs : List Char) : Option Float :=
  let (negative, body) := splitSign cs
  let magnitude := (readWord? body).or ((Numeral.ofChars? body).map Numeral.value)
  magnitude.map fun x => if negative then -x else x

end UnitPlane.Decimal
