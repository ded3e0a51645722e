import UnitPlane.Decimal.Spelling
import UnitPlane.Fault

/-!
# `UnitPlane.Formula.Token`: the words of a formula
-/

set_option autoImplicit false

namespace UnitPlane

/-- What a word of a formula is. -/
inductive Symbol where
  | number (value : Float)
  | name (s : String)
  | plus
  | minus
  | star
  | doubleStar
  | slash
  | openBracket
  | closeBracket
  /-- An operator of other languages, which no formula has. -/
  | unsupported (s : String)
  /-- The end of the text. -/
  | stop
deriving DecidableEq

/-- How a symbol is written. -/
def Symbol.spelling : Symbol → String
  | number value => Decimal.text value
  | name s => s
  | plus => "+"
  | minus => "-"
  | star => "*"
  | doubleStar => "**"
  | slash => "/"
  | openBracket => "("
  | closeBracket => ")"
  | unsupported s => s
  | stop => ""

/-- How a message names a symbol. -/
def Symbol.describe : Symbol → String
  | number value => s!"number `{Decimal.text value}`"
  | name s => s!"identifier `{s}`"
  | stop => "end of formula"
  | s => s!"`{s.spelling}`"

/-- A symbol and the bytes of the text it takes up, from `start` to before `stop`. -/
structure Token where
  symbol : Symbol
  start : Nat
  stop : Nat
deriving DecidableEq

/-- The words of a text, and the length of the text in bytes. -/
structure Tokens where
  words : List Token
  length : Nat
deriving DecidableEq

/-- The words and, after them, the end of the text. -/
def Tokens.toList (ts : Tokens) : List Token := ts.words ++ [⟨.stop, ts.length, ts.length⟩]

/-- The fault of finding something other than what was expected. An operator of another language is
named as such wherever it stands. -/
def Token.unexpected (expected : Expectation) (t : Token) : Fault :=
  match t.symbol with
  | .unsupported s => .unsupportedOperator (.symbol s)
  | s => .badSyntax t.start (.unexpectedToken expected s.describe)

end UnitPlane
