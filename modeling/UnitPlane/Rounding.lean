/-!
# `UnitPlane.Rounding`: integers near a double

A finite double is `± m · 2 ^ e`, so the integers near it are quotients by a power of two. They are
computed exactly, whatever the size of the double.
-/

set_option autoImplicit false

namespace UnitPlane.Rounding

open Float.Model.UnpackedFloat (Sign)

/-- The integer nearest to `m · 2 ^ e`, the larger one of two. -/
def halfUp (m : Nat) (e : Int) : Nat :=
  if 0 ≤ e then m * Nat.pow 2 e.toNat
  else (2 * m + Nat.pow 2 (-e).toNat) / Nat.pow 2 ((-e).toNat + 1)

/-- The largest integer up to `m · 2 ^ e`. -/
def floor (m : Nat) (e : Int) : Nat :=
  if 0 ≤ e then m * Nat.pow 2 e.toNat else m / Nat.pow 2 (-e).toNat

/-- The smallest integer from `m · 2 ^ e` on. -/
def ceiling (m : Nat) (e : Int) : Nat :=
  if 0 ≤ e then m * Nat.pow 2 e.toNat else (m + (Nat.pow 2 (-e).toNat - 1)) / Nat.pow 2 (-e).toNat

/-- The integer nearest to a double, the one farther from zero of two. -/
def nearest? (x : Float) : Option Int :=
  match x.toModel.unpack with
  | .zero _ => some 0
  | .finite .positive m e _ => some (halfUp m e)
  | .finite .negative m e _ => some (-halfUp m e)
  | _ => none

/-- The smallest integer that is not below a double. -/
def ceiling? (x : Float) : Option Int :=
  match x.toModel.unpack with
  | .zero _ => some 0
  | .finite .positive m e _ => some (ceiling m e)
  | .finite .negative m e _ => some (-floor m e)
  | _ => none

/-- The integer that a double is, if it is one. -/
def toInt? (x : Float) : Option Int :=
  match ceiling? x, ceiling? (-x) with
  | some above, some below => if above = -below then some above else none
  | _, _ => none

end UnitPlane.Rounding
