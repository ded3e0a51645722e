/-!
# `UnitPlane.Text.Rest`: what is left of a text

A reader returns what it has read together with the rest of the text. The type of the rest says that
it is shorter than the text, or no longer, so that readers which call each other come to an end.
-/

set_option autoImplicit false

namespace UnitPlane.Text

/-- A text shorter than `cs`. -/
abbrev Rest (cs : List Char) := { rest : List Char // rest.length < cs.length }

/-- A text no longer than `cs`. -/
abbrev UpTo (cs : List Char) := { rest : List Char // rest.length ≤ cs.length }

/-- All of a text. -/
def UpTo.all (cs : List Char) : UpTo cs := ⟨cs, Nat.le_refl _⟩

/-- What is left without a row in front is no longer than the text. -/
theorem length_dropWhile_le (p : Char → Bool) (cs : List Char) :
    (cs.dropWhile p).length ≤ cs.length :=
  (List.dropWhile_sublist p).length_le

/-- The longest start of a text that has only characters of a class, and the rest. -/
def takeClass (p : Char → Bool) (cs : List Char) : List Char × UpTo cs :=
  (cs.takeWhile p, ⟨cs.dropWhile p, length_dropWhile_le p cs⟩)

/-- What follows the character `c`, if it comes next after characters of the class `p`. -/
def afterSkip? (p : Char → Bool) (c : Char) (cs : List Char) : Option (Rest cs) :=
  match h : cs.dropWhile p with
  | [] => none
  | d :: rest =>
    if d = c then
      some ⟨rest, by have := length_dropWhile_le p cs; rw [h, List.length_cons] at this; omega⟩
    else none

end UnitPlane.Text
