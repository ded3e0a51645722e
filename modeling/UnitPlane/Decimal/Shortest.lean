/-!
# `UnitPlane.Decimal.Shortest`: the shortest decimal of a double

A positive double is `m · 2 ^ e`. The reals that round to it form an interval around it, half a gap
wide on each side. `shortest` looks through the decimal grids `10 ^ k`, coarsest first, for one that
has a point in that interval, and takes the point nearest to the double. A coarser grid means fewer
digits, so the digits found are the fewest that read back to the same double, and among those the
nearest. Where the double lies exactly between two such points, the caller says which one is meant.

All comparisons are between natural numbers, after clearing denominators, so nothing here rounds.
-/

set_option autoImplicit false

namespace UnitPlane.Decimal

/-- The positive decimal number `digits · 10 ^ exponent`. -/
structure Scientific where
  digits : Nat
  exponent : Int
deriving DecidableEq

/-- What becomes of a number halfway between two neighbours. -/
inductive Tie where
  /-- The larger neighbour. -/
  | up
  /-- The neighbour whose last digit is even. -/
  | even
deriving DecidableEq

/-- The mantissa of a power of two. The gap below a power of two is half the gap above it. -/
def binadeStart : Nat := 4503599627370496

/-- The exponent of the smallest positive double. -/
def minExponent : Int := -1074

/-- The ends of the interval of reals that round to `m · 2 ^ e`, in units of `2 ^ (e - 2)`. The
double itself is `4 * m` of these. -/
def roundingInterval (m : Nat) (e : Int) : Nat × Nat :=
  (4 * m - (if m = binadeStart ∧ minExponent < e then 1 else 2), 4 * m + 2)

/-- The step of the grid `10 ^ k` as a multiple of the common unit of `10 ^ k` and `2 ^ e`. -/
def gridStep (k e : Int) : Nat := Nat.pow 10 k.toNat * Nat.pow 2 (-e).toNat

/-- The step of the grid `2 ^ e` as a multiple of the common unit of `10 ^ k` and `2 ^ e`. -/
def binaryStep (k e : Int) : Nat := Nat.pow 2 e.toNat * Nat.pow 10 (-k).toNat

/-- Whether `c · 10 ^ k` rounds to `m · 2 ^ e`. The ends of the interval do so just when `m` is
even, because a tie between two doubles goes to the even mantissa. -/
def roundsTo (m : Nat) (e : Int) (c : Nat) (k : Int) : Bool :=
  let point := c * gridStep k (e - 2)
  let low := (roundingInterval m e).1 * binaryStep k (e - 2)
  let high := (roundingInterval m e).2 * binaryStep k (e - 2)
  if m % 2 = 0 then decide (low ≤ point ∧ point ≤ high) else decide (low < point ∧ point < high)

/-- The point of the grid `10 ^ k` nearest to `m · 2 ^ e`, if one of its two neighbours on that grid
rounds to it. -/
def gridPoint? (tie : Tie) (m : Nat) (e k : Int) : Option Nat :=
  let value := 4 * m * binaryStep k (e - 2)
  let step := gridStep k (e - 2)
  let below := value / step
  match roundsTo m e below k, roundsTo m e (below + 1) k with
  | false, false => none
  | true, false => some below
  | false, true => some (below + 1)
  | true, true =>
    -- twice the distance to the point below, against a whole step
    match compare (2 * (value % step)) step with
    | .lt => some below
    | .gt => some (below + 1)
    | .eq =>
      match tie with
      | .up => some (below + 1)
      | .even => some (if below % 2 = 0 then below else below + 1)

/-- All the digits of `m · 2 ^ e`. -/
def exact (m : Nat) (e : Int) : Scientific :=
  if 0 ≤ e then ⟨m * Nat.pow 2 e.toNat, 0⟩ else ⟨m * Nat.pow 5 (-e).toNat, e⟩

/-- The first point found on the grids `10 ^ k`, `10 ^ (k - 1)`, …, the double itself if none of
`grids` many grids has one. -/
def scan (tie : Tie) (m : Nat) (e k : Int) : (grids : Nat) → Scientific
  | 0 => exact m e
  | grids + 1 =>
    match gridPoint? tie m e k with
    | some c => ⟨c, k⟩
    | none => scan tie m e (k - 1) grids

/-- A power of ten above `m · 2 ^ e`: `0.30103` is just above the logarithm of two. -/
def topExponent (m : Nat) (e : Int) : Int :=
  Int.fdiv ((m.log2 + e + 1) * 30103) 100000 + 1

/-- The shortest decimal that reads back to `m · 2 ^ e`. Seventeen digits always suffice, and
`topExponent` is at most three grids above the first digit. -/
def shortest (tie : Tie) (m : Nat) (e : Int) : Scientific :=
  scan tie m e (topExponent m e) 24

end UnitPlane.Decimal
