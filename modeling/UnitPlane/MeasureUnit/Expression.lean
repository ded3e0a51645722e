import UnitPlane.Decimal.Numeral
import UnitPlane.Fault
import UnitPlane.MeasureUnit.Basic
import UnitPlane.MeasureUnit.Table
import UnitPlane.Text.CharClass

/-!
# `UnitPlane.MeasureUnit.Expression`: units from text

A unit expression is a product of powers of named units and numbers:

```text
product  := term (('*' | '/') term)*
term     := factor (('**' | '^') exponent)?
factor   := '(' product ')' | NUMBER | NAME
exponent := INT | '(' INT ('/' INT)? ')'
```

White space may stand between the parts. The expression is evaluated as it is read, from left to
right, so the fault reported is the first one in the text. Each reader returns what it has read and
the rest of the text, which is shorter.
-/

set_option autoImplicit false

namespace UnitPlane

namespace UnitExpression

open Text

/-! ### Signs -/

/-- What follows the character `c`, if it comes next after white space. -/
def after? (c : Char) (cs : List Char) : Option (Rest cs) := afterSkip? isBlank c cs

/-- What follows the sign of a power, if it comes next after white space. -/
def powerSign? (cs : List Char) : Option (Rest cs) :=
  match after? '*' cs with
  | some ⟨'*' :: rest, h⟩ => some ⟨rest, by rw [List.length_cons] at h; omega⟩
  | some _ => none
  | none => after? '^' cs

/-- How the terms of a product are joined. -/
inductive ProductSign where
  | times
  | dividedBy
deriving DecidableEq

/-- The product or quotient of two factors, if its dimension exists. -/
def ProductSign.apply : ProductSign → Factor → Factor → Option Factor
  | times => Factor.mul?
  | dividedBy => Factor.div?

/-- A sign between terms and what follows it, if it comes next after white space. Two stars are no
such sign. -/
def productSign? (cs : List Char) : Option (ProductSign × Rest cs) :=
  match after? '*' cs with
  | some ⟨rest, h⟩ => if rest.head? = some '*' then none else some (.times, ⟨rest, h⟩)
  | none => (after? '/' cs).map fun rest => (.dividedBy, rest)

/-! ### Exponents -/

/-- An integer that fits 32 bits and is at most `maxUnitExponent` in magnitude. -/
def readInt (cs : List Char) : Except UnitCause (Int × UpTo cs) :=
  let signed := Decimal.splitSign (skipBlanks cs)
  let digits := signed.2.takeWhile Char.isDigit
  let magnitude : Int := Decimal.natOfDigits 0 digits
  let n := if signed.1 then -magnitude else magnitude
  if digits.isEmpty || !decide (Fits32 n) then throw .notAnInteger
  else if maxUnitExponent < n.natAbs then throw (.exponentOutOfRange n)
  else
    pure (n, ⟨signed.2.dropWhile Char.isDigit, by
      have h₁ := length_dropWhile_le Char.isDigit signed.2
      have h₂ : signed.2.length ≤ (skipBlanks cs).length := Decimal.length_splitSign_le _
      have h₃ := length_skipBlanks_le cs
      omega⟩)

/-- A slash and an integer, or the denominator one if there is no slash. -/
def readDenominator (cs : List Char) : Except UnitCause (Int × UpTo cs) :=
  match after? '/' cs with
  | some ⟨rest, h⟩ => do
    let (d, ⟨rest, h'⟩) ← readInt rest
    pure (d, ⟨rest, by omega⟩)
  | none => pure (1, UpTo.all cs)

/-- The numerator and the denominator of an exponent: an integer, or a fraction in brackets. -/
def readFraction (cs : List Char) : Except UnitCause (Int × Int × UpTo cs) :=
  match after? '(' cs with
  | some ⟨rest, h⟩ => do
    let (n, ⟨rest, h₁⟩) ← readInt rest
    let (d, ⟨rest, h₂⟩) ← readDenominator rest
    match after? ')' rest with
    | some ⟨rest, h₃⟩ => pure (n, d, ⟨rest, by omega⟩)
    | none => throw .missingExponentBracket
  | none => do
    let (n, rest) ← readInt cs
    pure (n, 1, rest)

/-- The exponent of a power. -/
def readExponent (cs : List Char) : Except UnitCause (Exponent × UpTo cs) := do
  let (n, d, rest) ← readFraction cs
  if d = 0 then throw .zeroDenominator
  match Exponent.ofQuotient? n d with
  | some e => pure (e, rest)
  | none => throw .exponentOverflow

/-! ### Factors -/

/-- The characters of a number in a unit expression. -/
def isNumberChar (c : Char) : Bool := c.isDigit || c == '.'

/-- The factor that a numeral stands for. -/
def numberFactor (numeral : List Char) : Except UnitCause Factor :=
  match Decimal.read? numeral with
  | none => throw (.badNumber (String.ofList numeral))
  | some x => if x.isFinite && decide (0 < x) then pure (.ofNumber x) else throw .factorNotPositive

/-- The factor that a name stands for. -/
def nameFactor (name : String) : Except UnitCause Factor :=
  match UnitTable.lookup name with
  | some f => pure f
  | none => throw (.unknownName name)

mutual

/-- Terms joined by signs. -/
def readProduct (cs : List Char) : Except UnitCause (Factor × Rest cs) := do
  let (first, ⟨rest, h⟩) ← readTerm cs
  let (product, ⟨rest, h'⟩) ← readProductRest first rest
  pure (product, ⟨rest, by omega⟩)
termination_by (cs.length, 2)

/-- The signs and terms that follow the product `left`. -/
def readProductRest (left : Factor) (cs : List Char) : Except UnitCause (Factor × UpTo cs) :=
  match productSign? cs with
  | none => pure (left, UpTo.all cs)
  | some (sign, ⟨rest, h⟩) => do
    let (right, ⟨rest, h₁⟩) ← readTerm rest
    match sign.apply left right with
    | none => throw .exponentOverflow
    | some product =>
      let (product, ⟨rest, h₂⟩) ← readProductRest product rest
      pure (product, ⟨rest, by omega⟩)
termination_by (cs.length, 0)

/-- A factor, and the exponent of its power if there is one. -/
def readTerm (cs : List Char) : Except UnitCause (Factor × Rest cs) := do
  let (factor, ⟨rest, h⟩) ← readFactor cs
  match powerSign? rest with
  | none => pure (factor, ⟨rest, h⟩)
  | some ⟨rest, h₁⟩ =>
    let (exponent, ⟨rest, h₂⟩) ← readExponent rest
    match factor.pow? exponent with
    | none => throw .exponentOverflow
    | some power => pure (power, ⟨rest, by omega⟩)
termination_by (cs.length, 1)

/-- A product in brackets, a number or a name. -/
def readFactor (cs : List Char) : Except UnitCause (Factor × Rest cs) :=
  match h : skipBlanks cs with
  | [] => throw .unexpectedEnd
  | c :: rest =>
    have hr : rest.length < cs.length := by
      have := length_skipBlanks_le cs
      rw [h, List.length_cons] at this
      omega
    if c = '(' then do
      let (product, ⟨rest, h₁⟩) ← readProduct rest
      match after? ')' rest with
      | some ⟨rest, h₂⟩ => pure (product, ⟨rest, Nat.lt_trans h₂ (Nat.lt_trans h₁ hr)⟩)
      | none => throw .missingBracket
    else if isNumberChar c then do
      let (more, ⟨rest, h₁⟩) := takeClass isNumberChar rest
      pure (← numberFactor (c :: more), ⟨rest, Nat.lt_of_le_of_lt h₁ hr⟩)
    else if startsName c then do
      let (more, ⟨rest, h₁⟩) := takeClass continuesName rest
      pure (← nameFactor (String.ofList (c :: more)), ⟨rest, Nat.lt_of_le_of_lt h₁ hr⟩)
    else throw (.unexpectedCharacter c)
termination_by (cs.length, 0)

end

/-- A product that takes up the whole text. -/
def read (cs : List Char) : Except UnitCause Factor := do
  let (product, ⟨rest, _⟩) ← readProduct cs
  match skipBlanks rest with
  | [] => pure product
  | c :: _ => throw (.unexpectedCharacter c)

/-- The longest unit expression, in bytes. -/
def maxLength : Nat := 256

/-- The factor that a text without white space around it stands for. Its scale has to be usable as a
divisor. -/
def evaluate (cs : List Char) : Except UnitCause Factor := do
  if maxLength < byteLength cs then throw .tooLong
  let factor ← read cs
  if factor.scale.isFinite && decide (0 < factor.scale) then pure factor
  else throw .scaleNotPositive

end UnitExpression

namespace MeasureUnit

/-- The unit that an expression stands for. The empty expression is the unit of pure numbers. White
space around the expression is no part of it. -/
def resolve (expr : String) : Except Fault MeasureUnit :=
  let cs := Text.trim expr.toList
  let trimmed := String.ofList cs
  if cs.isEmpty then pure ⟨"", .dimensionless, 1⟩
  else
    match UnitExpression.evaluate cs with
    | .ok factor => pure ⟨trimmed, factor.dimension, factor.scale⟩
    | .error cause => throw (.undefinedUnit trimmed cause)

/-- Whether an expression stands for a unit. -/
def isKnown (expr : String) : Bool :=
  match resolve expr with
  | .ok _ => true
  | .error _ => false

end MeasureUnit

end UnitPlane
