import UnitPlane.Decimal.Numeral
import UnitPlane.Formula.Token
import UnitPlane.Text.CharClass

/-!
# `UnitPlane.Formula.Lexer`: words from text

White space separates words and is dropped. Every word is as long as it can be: `**` is one word,
and a numeral takes its point and its exponent with it. An `e` after a numeral that no exponent
follows starts a name instead. A `Lexeme` carries the proof that its text and the rest make up the
text it was read from, so nothing can get lost between words.
-/

set_option autoImplicit false

namespace UnitPlane

open Text

/-! ### Numerals -/

namespace Numeral

/-- A point with the digits after it, and what follows. -/
def splitPoint : List Char → List Char × List Char
  | '.' :: rest => ('.' :: rest.takeWhile Char.isDigit, rest.dropWhile Char.isDigit)
  | cs => ([], cs)

/-- The two parts make up the text. -/
theorem splitPoint_append (cs : List Char) : (splitPoint cs).1 ++ (splitPoint cs).2 = cs := by
  unfold splitPoint
  split <;> simp

/-- A sign, and what follows. -/
def splitExponentSign : List Char → List Char × List Char
  | '+' :: rest => (['+'], rest)
  | '-' :: rest => (['-'], rest)
  | cs => ([], cs)

/-- The two parts make up the text. -/
theorem splitExponentSign_append (cs : List Char) :
    (splitExponentSign cs).1 ++ (splitExponentSign cs).2 = cs := by
  unfold splitExponentSign
  split <;> simp

/-- An exponent with at least one digit, and what follows. -/
def splitExponent : List Char → List Char × List Char
  | [] => ([], [])
  | c :: cs =>
    let (sign, unsigned) := splitExponentSign cs
    let digits := unsigned.takeWhile Char.isDigit
    if (c = 'e' ∨ c = 'E') ∧ digits ≠ [] then
      (c :: (sign ++ digits), unsigned.dropWhile Char.isDigit)
    else ([], c :: cs)

/-- The two parts make up the text. -/
theorem splitExponent_append (cs : List Char) :
    (splitExponent cs).1 ++ (splitExponent cs).2 = cs := by
  cases cs with
  | nil => rfl
  | cons c cs =>
    simp only [splitExponent]
    split
    · simp [splitExponentSign_append]
    · simp

/-- The longest numeral that a text starts with, and what follows. -/
def split (cs : List Char) : List Char × List Char :=
  let (fraction, afterFraction) := splitPoint (cs.dropWhile Char.isDigit)
  let (exponent, rest) := splitExponent afterFraction
  (cs.takeWhile Char.isDigit ++ fraction ++ exponent, rest)

/-- A numeral and what follows it make up the text, as each of its parts does. -/
theorem split_append (cs : List Char) : (split cs).1 ++ (split cs).2 = cs := by
  simp only [split, List.append_assoc, splitExponent_append, splitPoint_append,
    List.takeWhile_append_dropWhile]

end Numeral

/-! ### Lexemes -/

/-- A word that a text starts with, and the rest of the text. -/
structure Lexeme (cs : List Char) where
  symbol : Symbol
  text : List Char
  rest : List Char
  text_append_rest : text ++ rest = cs
  text_ne_nil : text ≠ []

/-- A word is not empty, so what is left after it is shorter. This is why the lexer comes to an
end. -/
theorem Lexeme.length_rest_lt {cs : List Char} (l : Lexeme cs) : l.rest.length < cs.length := by
  have h := congrArg List.length l.text_append_rest
  have := List.length_pos_iff.2 l.text_ne_nil
  rw [List.length_append] at h
  omega

/-- The operators of other languages that take one character. -/
def foreignOperators : List Char := ['^', '%', ',', '=', '<', '>', '&', '|', '!', '~', '@']

/-- The operator or bracket that starts with `c`, and whether it takes the character after `c`
too. -/
def operatorSymbol? (c : Char) (following : Option Char) : Option (Symbol × Bool) :=
  match c with
  | '+' => some (.plus, false)
  | '-' => some (.minus, false)
  | '*' => some (if following = some '*' then (.doubleStar, true) else (.star, false))
  | '/' => some (if following = some '/' then (.unsupported "//", true) else (.slash, false))
  | '(' => some (.openBracket, false)
  | ')' => some (.closeBracket, false)
  | c => if c ∈ foreignOperators then some (.unsupported c.toString, false) else none

/-- The operator or bracket that `c :: cs` starts with. -/
def operatorLexeme? (c : Char) (cs : List Char) : Option (Lexeme (c :: cs)) :=
  (operatorSymbol? c cs.head?).map fun (symbol, two) =>
    let extra := if two then 1 else 0
    ⟨symbol, c :: cs.take extra, cs.drop extra, by simp, by simp⟩

/-- The number that a numeral stands for. -/
def numberSymbol (numeral : List Char) : Except SyntaxCause Symbol :=
  match Decimal.read? numeral with
  | none => throw (.badNumber (String.ofList numeral))
  | some value =>
    if value.isFinite then pure (.number value)
    else throw (.numberOutOfRange (String.ofList numeral))

/-- The numeral that `c :: cs` starts with, where `c` is a digit or a point. -/
def numberLexeme (c : Char) (cs : List Char) : Except SyntaxCause (Lexeme (c :: cs)) :=
  match h : Numeral.split (c :: cs) with
  | ([], _) => throw (.badNumber "")
  | (d :: numeral, rest) => do
    let symbol ← numberSymbol (d :: numeral)
    pure ⟨symbol, d :: numeral, rest, by rw [← Numeral.split_append (c :: cs), h], by simp⟩

/-- The name that `c :: cs` starts with, where `c` may start a name. -/
def nameLexeme (c : Char) (cs : List Char) : Lexeme (c :: cs) where
  symbol := .name (String.ofList (c :: cs.takeWhile continuesName))
  text := c :: cs.takeWhile continuesName
  rest := cs.dropWhile continuesName
  text_append_rest := by simp
  text_ne_nil := by simp

/-- The word that `c :: cs` starts with, where `c` is no white space. -/
def lexeme (c : Char) (cs : List Char) : Except SyntaxCause (Lexeme (c :: cs)) :=
  if c.isDigit || c == '.' then numberLexeme c cs
  else if startsName c then pure (nameLexeme c cs)
  else
    match operatorLexeme? c cs with
    | some l => pure l
    | none => throw (.unexpectedCharacter c)

/-! ### Texts -/

/-- The words of the rest of a text, whose first byte has the given position. -/
def scan (position : Nat) : List Char → Except Fault (List Token)
  | [] => pure []
  | c :: cs =>
    if isBlank c then scan (position + c.utf8Size) cs
    else
      match lexeme c cs with
      | .error cause => throw (.badSyntax position cause)
      | .ok l => do
        let stop := position + byteLength l.text
        let tokens ← scan stop l.rest
        pure (⟨l.symbol, position, stop⟩ :: tokens)
termination_by cs => cs.length
decreasing_by
  · simp
  · exact l.length_rest_lt

/-- The words of a text. -/
def tokenize (source : String) : Except Fault Tokens := do
  let words ← scan 0 source.toList
  pure ⟨words, source.utf8ByteSize⟩

end UnitPlane
