import UnitPlane.Decimal.Numeral
import UnitPlane.Json.Raw

/-!
# `UnitPlane.Json.Number`: numbers from numerals

A numeral is read as a significand of 64 bits and a power of ten. Digits before the point that no
longer fit the significand count as powers of ten, and digits after the point that no longer fit are
dropped. The significand is then multiplied or divided by the power in floating point, which rounds
once for each step. A number out of range is refused; one too small becomes zero.
-/

set_option autoImplicit false

namespace UnitPlane.Json

open Decimal (digitValue natOfDigits)

/-- A significand and the power of ten that it is scaled by. -/
structure Scaled where
  significand : Nat
  exponent : Int

/-- The largest significand. -/
def maxSignificand : Nat := 18446744073709551615

/-- The significand with one more digit, if it fits. -/
def pushDigit? (significand : Nat) (c : Char) : Option Nat :=
  let n := significand * 10 + digitValue c
  if n ≤ maxSignificand then some n else none

/-- The significand of the digits before the point. From the first digit that does not fit on, each
digit is a power of ten. -/
def scanWhole (significand : Nat) : List Char → Scaled
  | [] => ⟨significand, 0⟩
  | c :: rest =>
    match pushDigit? significand c with
    | some n => scanWhole n rest
    | none => ⟨significand, (rest.length + 1 : Nat)⟩

/-- The significand with the digits after the point. From the first digit that does not fit on, the
digits are dropped. -/
def scanFraction (s : Scaled) : List Char → Scaled
  | [] => s
  | c :: rest =>
    match pushDigit? s.significand c with
    | some n => scanFraction ⟨n, s.exponent - 1⟩ rest
    | none => s

/-- The significand and the power of ten of the digits of a numeral, its exponent left out. -/
def Numeral.scan (n : Numeral) : Scaled := scanFraction (scanWhole 0 n.whole) (n.fraction.getD [])

/-- The largest exponent of a power of ten that is a double. -/
def maxPower : Nat := 308

/-- The double nearest to a power of ten. -/
def powerOfTen (n : Nat) : Float := Float.ofScientific 1 false n

/-- The double `x` divided by `10 ^ n`, in steps of at most `10 ^ maxPower`. -/
def divideByPower (x : Float) (n : Nat) : Float :=
  if n ≤ maxPower then x / powerOfTen n
  else if x == 0 then x
  else divideByPower (x / powerOfTen maxPower) (n - maxPower)
termination_by n
decreasing_by
  simp only [maxPower] at *
  omega

/-- The double `x` multiplied by `10 ^ n`, if it is in range. -/
def multiplyByPower? (x : Float) (n : Nat) : Option Float :=
  if n ≤ maxPower then
    let product := x * powerOfTen n
    if product.isInf then none else some product
  else if x == 0 then some x
  else none

/-- The double of a significand and a power of ten, if it is in range. -/
def Scaled.toFloat? (s : Scaled) : Option Float :=
  let x := Float.ofNat s.significand
  if 0 ≤ s.exponent then multiplyByPower? x s.exponent.toNat
  else some (divideByPower x (-s.exponent).toNat)

/-- The largest written exponent whose size matters. -/
def maxWrittenExponent : Nat := 2147483647

/-- The unsigned double that a numeral stands for, if it is in range. -/
def Numeral.magnitude? (n : Numeral) : Option Float :=
  let s := n.scan
  match n.exponent with
  | none => s.toFloat?
  | some (negative, digits) =>
    let e := natOfDigits 0 digits
    if maxWrittenExponent < e then
      if negative || s.significand = 0 then some 0 else none
    else
      ({ s with exponent := if negative then s.exponent - e else s.exponent + e } : Scaled).toFloat?

/-- The double that a numeral stands for, if it is in range. -/
def Numeral.toFloat? (n : Numeral) : Option Float :=
  n.magnitude?.map fun x => if n.negative then -x else x

/-- The natural number of 64 bits that a numeral stands for. It has no sign, point or exponent. -/
def Numeral.toNat? (n : Numeral) : Option Nat :=
  let value := natOfDigits 0 n.whole
  if n.negative || n.fraction.isSome || n.exponent.isSome ||
    decide (maxSignificand < value) then none
  else some value

/-- The double that a document is. -/
def Raw.toFloat? : Raw → Option Float
  | .number n => n.toFloat?
  | _ => none

/-- The natural number of 64 bits that a document is. -/
def Raw.toNat? : Raw → Option Nat
  | .number n => n.toNat?
  | _ => none

end UnitPlane.Json
