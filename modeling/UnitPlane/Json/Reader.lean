import UnitPlane.Json.Raw
import UnitPlane.Text.Rest

/-!
# `UnitPlane.Json.Reader`: JSON texts

The grammar is that of the JSON standard, with nothing added. Each reader returns what it has read
and the rest of the text, which is shorter.
-/

set_option autoImplicit false

namespace UnitPlane.Json

open Text (Rest UpTo takeClass afterSkip?)

/-- The four characters that may stand between the parts of a document. -/
def isSpace (c : Char) : Bool := c == ' ' || c == '\t' || c == '\n' || c == '\r'

/-- What follows the character `c`, if it comes next after white space. -/
def after? (c : Char) (cs : List Char) : Option (Rest cs) := afterSkip? isSpace c cs

/-- What follows a word, if the text starts with it. -/
def afterWord? : (word cs : List Char) → Option (UpTo cs)
  | [], cs => some (UpTo.all cs)
  | _ :: _, [] => none
  | w :: word, c :: cs =>
    if w = c then
      (afterWord? word cs).map fun ⟨rest, h⟩ => ⟨rest, by rw [List.length_cons]; omega⟩
    else none

/-! ### Numbers -/

/-- Digits that a text starts with, and the rest. -/
def takeDigits (cs : List Char) : List Char × UpTo cs := takeClass Char.isDigit cs

/-- The digits before the point: a zero alone, or digits that start with another one. -/
def readWhole (cs : List Char) : Option (List Char × Rest cs) :=
  match cs with
  | [] => none
  | d :: rest =>
    let (ds, ⟨rest, h⟩) := takeDigits rest
    if !d.isDigit || (d == '0' && !ds.isEmpty) then none
    else some (d :: ds, ⟨rest, by rw [List.length_cons]; omega⟩)

/-- A point with digits after it, if there is one. -/
def readFraction (cs : List Char) : Option (Option (List Char) × UpTo cs) :=
  match cs with
  | '.' :: rest =>
    match takeDigits rest with
    | ([], _) => none
    | (digits, ⟨rest, h⟩) => some (some digits, ⟨rest, by rw [List.length_cons]; omega⟩)
  | cs => some (none, UpTo.all cs)

/-- The sign of an exponent, and the rest. -/
def takeSign (cs : List Char) : Bool × UpTo cs :=
  match cs with
  | '-' :: rest => (true, ⟨rest, by simp⟩)
  | '+' :: rest => (false, ⟨rest, by simp⟩)
  | cs => (false, UpTo.all cs)

/-- An exponent, if there is one. -/
def readExponent (cs : List Char) : Option (Option (Bool × List Char) × UpTo cs) :=
  match cs with
  | [] => some (none, UpTo.all [])
  | c :: rest =>
    if c = 'e' ∨ c = 'E' then
      let (negative, ⟨rest, h⟩) := takeSign rest
      match takeDigits rest with
      | ([], _) => none
      | (digits, ⟨rest, h'⟩) =>
        some (some (negative, digits), ⟨rest, by rw [List.length_cons]; omega⟩)
    else some (none, UpTo.all (c :: rest))

/-- An unsigned number. -/
def readUnsigned (negative : Bool) (cs : List Char) : Option (Raw × Rest cs) := do
  let (whole, ⟨rest, h⟩) ← readWhole cs
  let (fraction, ⟨rest, h₁⟩) ← readFraction rest
  let (exponent, ⟨rest, h₂⟩) ← readExponent rest
  pure (.number ⟨negative, whole, fraction, exponent⟩, ⟨rest, by omega⟩)

/-! ### Strings -/

/-- The value of a hexadecimal digit. -/
def hexValue? (c : Char) : Option Nat :=
  if '0' ≤ c ∧ c ≤ '9' then some (c.toNat - '0'.toNat)
  else if 'a' ≤ c ∧ c ≤ 'f' then some (c.toNat - 'a'.toNat + 10)
  else if 'A' ≤ c ∧ c ≤ 'F' then some (c.toNat - 'A'.toNat + 10)
  else none

/-- The number of four hexadecimal digits. -/
def hexCode? (a b c d : Char) : Option Nat := do
  pure ((← hexValue? a) * 4096 + (← hexValue? b) * 256 + (← hexValue? c) * 16 + (← hexValue? d))

/-- The character that a letter after a backslash stands for. -/
def escaped? : Char → Option Char
  | '"' => some '"'
  | '\\' => some '\\'
  | '/' => some '/'
  | 'b' => some '\x08'
  | 'f' => some '\x0c'
  | 'n' => some '\n'
  | 'r' => some '\r'
  | 't' => some '\t'
  | _ => none

/-- One part of a string, and the rest. -/
def readPart : (cs : List Char) → Option (StringPart × Rest cs)
  | '\\' :: 'u' :: a :: b :: c :: d :: rest =>
    (hexCode? a b c d).map fun n => (.code n, ⟨rest, by simp only [List.length_cons]; omega⟩)
  | '\\' :: c :: rest =>
    (escaped? c).map fun e => (.char e, ⟨rest, by simp only [List.length_cons]; omega⟩)
  | '\\' :: [] => none
  | c :: rest => if c.toNat < 0x20 then none else some (.char c, ⟨rest, by simp⟩)
  | [] => none

/-- The parts of a string up to its closing quote. -/
def readParts (cs : List Char) : Option (List StringPart × Rest cs) :=
  match cs with
  | [] => none
  | c :: rest =>
    if c = '"' then some ([], ⟨rest, by simp⟩)
    else do
      let (part, ⟨rest, h⟩) ← readPart (c :: rest)
      let (parts, ⟨rest, h'⟩) ← readParts rest
      pure (part :: parts, ⟨rest, by omega⟩)
termination_by cs.length
decreasing_by exact h

/-! ### Documents -/

mutual

/-- A document after white space. -/
def readValue (cs : List Char) : Option (Raw × Rest cs) :=
  match takeClass isSpace cs with
  | (_, ⟨[], _⟩) => none
  | (_, ⟨c :: rest, h⟩) =>
    have hr : rest.length < cs.length := by rw [List.length_cons] at h; omega
    match c with
    | 'n' => (afterWord? "ull".toList rest).map fun ⟨rest, h⟩ => (.null, ⟨rest, by omega⟩)
    | 't' => (afterWord? "rue".toList rest).map fun ⟨rest, h⟩ => (.bool true, ⟨rest, by omega⟩)
    | 'f' => (afterWord? "alse".toList rest).map fun ⟨rest, h⟩ => (.bool false, ⟨rest, by omega⟩)
    | '"' => (readParts rest).map fun (parts, ⟨rest, h⟩) => (.string parts, ⟨rest, by omega⟩)
    | '[' =>
      match after? ']' rest with
      | some ⟨rest, h⟩ => some (.array [], ⟨rest, by omega⟩)
      | none => do
        let (items, ⟨rest, h⟩) ← readItems rest
        pure (.array items, ⟨rest, by omega⟩)
    | '\x7b' =>
      match after? '\x7d' rest with
      | some ⟨rest, h⟩ => some (.object [], ⟨rest, by omega⟩)
      | none => do
        let (members, ⟨rest, h⟩) ← readMembers rest
        pure (.object members, ⟨rest, by omega⟩)
    | '-' => (readUnsigned true rest).map fun (n, ⟨rest, h⟩) => (n, ⟨rest, by omega⟩)
    | c =>
      (readUnsigned false (c :: rest)).map fun (n, ⟨rest, h'⟩) => (n, ⟨rest, by omega⟩)
termination_by (cs.length, 0)

/-- The elements of an array, of which there is at least one, and its closing bracket. -/
def readItems (cs : List Char) : Option (List Raw × Rest cs) := do
  let (item, ⟨rest, h⟩) ← readValue cs
  match after? ',' rest with
  | some ⟨rest, h₁⟩ =>
    let (items, ⟨rest, h₂⟩) ← readItems rest
    pure (item :: items, ⟨rest, by omega⟩)
  | none =>
    let ⟨rest, h₁⟩ ← after? ']' rest
    pure ([item], ⟨rest, by omega⟩)
termination_by (cs.length, 1)

/-- The members of an object, of which there is at least one, and its closing bracket. -/
def readMembers (cs : List Char) : Option (List (List StringPart × Raw) × Rest cs) := do
  let ⟨rest, h⟩ ← after? '"' cs
  let (name, ⟨rest, h₁⟩) ← readParts rest
  let ⟨rest, h₂⟩ ← after? ':' rest
  let (value, ⟨rest, h₃⟩) ← readValue rest
  match after? ',' rest with
  | some ⟨rest, h₄⟩ =>
    let (members, ⟨rest, h₅⟩) ← readMembers rest
    pure ((name, value) :: members, ⟨rest, by omega⟩)
  | none =>
    let ⟨rest, h₄⟩ ← after? '\x7d' rest
    pure ([(name, value)], ⟨rest, by omega⟩)
termination_by (cs.length, 1)

end

/-- The document that a text is. -/
def read? (s : String) : Option Raw := do
  let (value, ⟨rest, _⟩) ← readValue s.toList
  if rest.all isSpace then pure value else none

end UnitPlane.Json
