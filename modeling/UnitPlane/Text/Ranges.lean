/-!
# `UnitPlane.Text.Ranges`: sets of characters as ranges of code points
-/

set_option autoImplicit false

namespace UnitPlane.Text

/-- A set of code points, as ranges with both ends included. -/
abbrev Ranges := List (Nat × Nat)

/-- Whether a character lies in one of the ranges. -/
def Ranges.contains (r : Ranges) (c : Char) : Bool :=
  r.any fun (low, high) => decide (low ≤ c.toNat) && decide (c.toNat ≤ high)

end UnitPlane.Text
