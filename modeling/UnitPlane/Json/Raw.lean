/-!
# `UnitPlane.Json.Raw`: JSON texts taken apart

A `Raw` document keeps numbers and strings as they are written: a numeral may be too large for any
number, and a string may name half a character. Only a value that somebody asks for has to mean
something.
-/

set_option autoImplicit false

namespace UnitPlane.Json

/-- A number as it is written. -/
structure Numeral where
  negative : Bool
  /-- The digits before the point. -/
  whole : List Char
  /-- The digits after the point, if there is one. -/
  fraction : Option (List Char)
  /-- Whether the exponent is negative, and its digits, if there is one. -/
  exponent : Option (Bool × List Char)

/-- A part of a string as it is written. -/
inductive StringPart where
  | char (c : Char)
  /-- A number in four hexadecimal digits. -/
  | code (n : Nat)

/-- A document as it is written. -/
inductive Raw where
  | null
  | bool (b : Bool)
  | number (n : Numeral)
  | string (parts : List StringPart)
  | array (items : List Raw)
  | object (members : List (List StringPart × Raw))

/-! ### Strings -/

/-- The first number of a pair that names one character. -/
def isLeading (n : Nat) : Bool := decide (0xd800 ≤ n ∧ n < 0xdc00)

/-- The second number of a pair that names one character. -/
def isTrailing (n : Nat) : Bool := decide (0xdc00 ≤ n ∧ n < 0xe000)

/-- The character that a pair of numbers names. -/
def pairChar (leading trailing : Nat) : Char :=
  Char.ofNat (0x10000 + (leading - 0xd800) * 0x400 + (trailing - 0xdc00))

/-- The characters of a string, if it names no half of one. -/
def decodeParts : List StringPart → Option (List Char)
  | [] => some []
  | .char c :: rest => (decodeParts rest).map (c :: ·)
  | .code n :: .code m :: rest =>
    if isLeading n && isTrailing m then (decodeParts rest).map (pairChar n m :: ·)
    else if isLeading n || isTrailing n then none
    else (decodeParts (.code m :: rest)).map (Char.ofNat n :: ·)
  | .code n :: rest =>
    if isLeading n || isTrailing n then none
    else (decodeParts rest).map (Char.ofNat n :: ·)

/-- The text of a string. -/
def Raw.toString? : Raw → Option String
  | .string parts => (decodeParts parts).map String.ofList
  | _ => none

/-- The truth value that a document is. -/
def Raw.toBool? : Raw → Option Bool
  | .bool b => some b
  | _ => none

end UnitPlane.Json
