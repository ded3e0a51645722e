import UnitPlane.Decimal.Shortest

/-!
# `UnitPlane.Decimal.Spelling`: doubles as text

A `Spelling` record says how a double is spelled: which of two equally near decimals is taken, which
decimal exponents are written out positionally, whether a whole number carries `.0`, and what stands
for the values that are not numbers. `Spelling.write` spells a double accordingly. The formats in
use are the records `plain`, which never has an exponent, and those that other modules define for
their own documents. `fixed` writes a given number of places.
-/

set_option autoImplicit false

namespace UnitPlane.Decimal

open Float.Model.UnpackedFloat (Sign)

/-- How a double is spelled. -/
structure Spelling where
  /-- Which of two shortest decimals at equal distance is taken. -/
  tie : Tie
  /-- Whether a number whose first digit stands for `10 ^ n` is written positionally. -/
  positional : Int → Bool
  /-- Whether whole numbers carry `.0`. -/
  wholePoint : Bool
  /-- The text for a value that is not a number. -/
  notANumber : String
  /-- The text for an infinity of the given sign. -/
  infinity : Sign → String

/-- The decimal digits of a natural number. -/
def digitsOf (n : Nat) : List Char := Nat.toDigits 10 n

/-- The minus sign of a negative number. -/
def minus : Sign → List Char
  | .negative => ['-']
  | .positive => []

/-- A number with all its digits in place. -/
def writePositional (wholePoint : Bool) (d : Scientific) : List Char :=
  let digits := digitsOf d.digits
  if 0 ≤ d.exponent then
    digits ++ List.replicate d.exponent.toNat '0' ++ (if wholePoint then ['.', '0'] else [])
  else
    let places := (-d.exponent).toNat
    if places < digits.length then
      digits.take (digits.length - places) ++ '.' :: digits.drop (digits.length - places)
    else
      '0' :: '.' :: List.replicate (places - digits.length) '0' ++ digits

/-- The exponent of the first digit. -/
def leadingExponent (d : Scientific) : Int :=
  d.exponent + ((digitsOf d.digits).length - 1 : Nat)

/-- A number with one digit before the point and a signed exponent. -/
def writeScientific (d : Scientific) : List Char :=
  let mantissa :=
    match digitsOf d.digits with
    | [] => []
    | [c] => [c]
    | c :: rest => c :: '.' :: rest
  let exponent := leadingExponent d
  mantissa ++ 'e' :: (if exponent < 0 then '-' else '+') :: digitsOf exponent.natAbs

/-- A positive number in the given spelling. -/
def Spelling.writePositive (s : Spelling) (m : Nat) (e : Int) : List Char :=
  let d := shortest s.tie m e
  if s.positional (leadingExponent d) then writePositional s.wholePoint d else writeScientific d

/-- The characters of a double in the given spelling. -/
def Spelling.chars (s : Spelling) (x : Float) : List Char :=
  match x.toModel.unpack with
  | .notANumber => s.notANumber.toList
  | .infinity sign => (s.infinity sign).toList
  | .zero sign => minus sign ++ writePositional s.wholePoint ⟨0, 0⟩
  | .finite sign m e _ => minus sign ++ s.writePositive m e

/-- The text of a double in the given spelling. -/
def Spelling.write (s : Spelling) (x : Float) : String := String.ofList (s.chars x)

/-- Every digit is written out, a whole number has no point, and a tie goes up. -/
def plain : Spelling where
  tie := .up
  positional _ := true
  wholePoint := false
  notANumber := "NaN"
  infinity
    | .positive => "inf"
    | .negative => "-inf"

/-- The text of a double in formulas, messages and summaries. -/
def text (x : Float) : String := plain.write x

/-! ### Fixed places -/

/-- The integer nearest to `num / den`, a half going to the even neighbour. -/
def roundHalfEven (num den : Nat) : Nat :=
  let below := num / den
  match compare (2 * (num % den)) den with
  | .lt => below
  | .gt => below + 1
  | .eq => if below % 2 = 0 then below else below + 1

/-- `count / 10 ^ places` with exactly `places` digits after the point. -/
def writePlaces (places count : Nat) : List Char :=
  digitsOf (count / Nat.pow 10 places) ++
    '.' :: (List.replicate (places - (digitsOf (count % Nat.pow 10 places)).length) '0' ++
      digitsOf (count % Nat.pow 10 places))

/-- The text of a double with `places` digits after the point. The exact binary value is rounded, a
half to the even neighbour, and a negative number keeps its sign when it rounds to zero. -/
def fixed (places : Nat) (x : Float) : String :=
  match x.toModel.unpack with
  | .notANumber => plain.notANumber
  | .infinity sign => plain.infinity sign
  | .zero sign => String.ofList (minus sign ++ writePlaces places 0)
  | .finite sign m e _ =>
    let count := roundHalfEven (m * Nat.pow 2 e.toNat * Nat.pow 10 places) (Nat.pow 2 (-e).toNat)
    String.ofList (minus sign ++ writePlaces places count)

end UnitPlane.Decimal
