import UnitPlane.Text.Letters
import UnitPlane.Text.Numbers
import UnitPlane.Text.Rest

/-!
# `UnitPlane.Text.CharClass`: the classes of characters that the readers tell apart

White space is the Unicode property `White_Space`. A name starts with a letter or an underscore and
goes on with letters, numbers and underscores. Digits are the ten ASCII digits alone.
-/

set_option autoImplicit false

namespace UnitPlane.Text

/-- The characters with the Unicode property `White_Space`. -/
def blanks : Ranges :=
  [(0x09, 0x0d), (0x20, 0x20), (0x85, 0x85), (0xa0, 0xa0), (0x1680, 0x1680), (0x2000, 0x200a),
   (0x2028, 0x2029), (0x202f, 0x202f), (0x205f, 0x205f), (0x3000, 0x3000)]

/-- White space between the parts of a text. -/
def isBlank (c : Char) : Bool := blanks.contains c

/-- The characters a name may start with. -/
def startsName (c : Char) : Bool := letters.contains c || c == '_'

/-- The characters a name may go on with. -/
def continuesName (c : Char) : Bool := letters.contains c || numbers.contains c || c == '_'

/-- The rest of a text after white space. -/
def skipBlanks (cs : List Char) : List Char := cs.dropWhile isBlank

/-- What is left without the white space in front is no longer than the text. -/
theorem length_skipBlanks_le (cs : List Char) : (skipBlanks cs).length ≤ cs.length :=
  length_dropWhile_le isBlank cs

/-- A text without the white space around it. -/
def trim (cs : List Char) : List Char := (skipBlanks (skipBlanks cs).reverse).reverse

/-- The length of a text in bytes. -/
def byteLength (cs : List Char) : Nat := (String.ofList cs).utf8ByteSize

end UnitPlane.Text
