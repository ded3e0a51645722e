import UnitPlane.Decimal.Spelling

/-!
# `UnitPlane.Json.Value`: JSON documents and their text

A document is written on one line, or with each element on a line of its own. `Layout` is the
difference between the two. Text is written as it is, except for quotes, backslashes and control
characters, so a document on one line has no line break in it.
-/

set_option autoImplicit false

namespace UnitPlane.Json

/-- A JSON document. The members of an object are in the order in which they are written. -/
inductive Value where
  | null
  | bool (b : Bool)
  | natural (n : Nat)
  | number (x : Float)
  | string (s : String)
  | array (items : List Value)
  | object (members : List (String × Value))

/-! ### Scalars -/

/-- Numbers have a point or an exponent, ties go to the even digit, and what is no finite number is
null. -/
def spelling : Decimal.Spelling where
  tie := .even
  positional n := decide (-5 ≤ n ∧ n ≤ 15)
  wholePoint := true
  notANumber := "null"
  infinity _ := "null"

/-- The code of a control character in four digits. -/
def controlEscape (c : Char) : List Char :=
  ['\\', 'u', '0', '0', Nat.digitChar (c.toNat / 16), Nat.digitChar (c.toNat % 16)]

/-- How a character is written in a string. -/
def escape (c : Char) : List Char :=
  if c = '"' then ['\\', '"']
  else if c = '\\' then ['\\', '\\']
  else if c = '\n' then ['\\', 'n']
  else if c = '\r' then ['\\', 'r']
  else if c = '\t' then ['\\', 't']
  else if c = '\x08' then ['\\', 'b']
  else if c = '\x0c' then ['\\', 'f']
  else if c.toNat < 0x20 then controlEscape c
  else [c]

/-- A string in quotes. -/
def quote (s : String) : List Char := '"' :: (s.toList.flatMap escape ++ ['"'])

/-! ### Documents -/

/-- How the parts of a document are set apart. -/
structure Layout where
  /-- What stands before an element at a given depth, and before the closing bracket. -/
  lineBreak : (depth : Nat) → List Char
  /-- What stands between the name and the value of a member. -/
  colon : List Char

/-- Everything on one line, without spaces. -/
def compact : Layout where
  lineBreak _ := []
  colon := [':']

/-- Each element on its own line, indented by two spaces for each level. -/
def pretty : Layout where
  lineBreak depth := '\n' :: List.replicate (2 * depth) ' '
  colon := [':', ' ']

/-- The name of a member and what stands between it and the value. -/
def writeName (l : Layout) (name : String) : List Char := quote name ++ l.colon

/-- A list of written elements in brackets. Without elements there is no line break. -/
def enclose (l : Layout) (depth : Nat) (opening closing : Char) (elements : List (List Char)) :
    List Char :=
  match elements with
  | [] => [opening, closing]
  | first :: rest =>
    opening :: (l.lineBreak (depth + 1) ++ first ++
      rest.flatMap (fun e => ',' :: (l.lineBreak (depth + 1) ++ e)) ++
      l.lineBreak depth ++ [closing])

mutual

/-- The text of a document at a given depth. -/
def Value.write (l : Layout) (depth : Nat) : Value → List Char
  | .null => "null".toList
  | .bool b => if b then "true".toList else "false".toList
  | .natural n => Decimal.digitsOf n
  | .number x => spelling.chars x
  | .string s => quote s
  | .array items => enclose l depth '[' ']' (writeItems l (depth + 1) items)
  | .object members => enclose l depth '\x7b' '\x7d' (writeMembers l (depth + 1) members)

/-- The texts of the elements of an array. -/
def writeItems (l : Layout) (depth : Nat) : List Value → List (List Char)
  | [] => []
  | v :: items => v.write l depth :: writeItems l depth items

/-- The texts of the members of an object. -/
def writeMembers (l : Layout) (depth : Nat) : List (String × Value) → List (List Char)
  | [] => []
  | (name, v) :: members => (writeName l name ++ v.write l depth) :: writeMembers l depth members

end

/-- The text of a document. -/
def Value.text (l : Layout) (v : Value) : String := String.ofList (v.write l 0)

/-- The text of a document as one of several in a row: a line break ends it. -/
def Value.line (l : Layout) (v : Value) : String := String.ofList (v.write l 0 ++ ['\n'])

/-- An array of numbers. -/
def numbers (xs : List Float) : Value := .array (xs.map .number)

end UnitPlane.Json
