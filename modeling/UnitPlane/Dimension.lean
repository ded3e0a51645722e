import UnitPlane.Exponent

/-!
# `UnitPlane.Dimension`: what a quantity measures

A `Dimension` gives each of the eight base quantities an exponent. Products, quotients and rational
powers of quantities add, subtract and scale the exponents; they are absent where an exponent does
not fit. Two texts describe a dimension: `Dimension.text` names the base quantities, and
`Dimension.baseUnit` is the unit expression of its base unit.
-/

set_option autoImplicit false

namespace UnitPlane

/-- The quantities that all others are products of powers of. -/
inductive Base where
  | length | mass | time | current | temperature | amount | luminosity | angle
deriving DecidableEq

namespace Base

/-- The base quantities in the order in which dimensions name them. -/
def all : List Base := [length, mass, time, current, temperature, amount, luminosity, angle]

/-- The base quantities in the order of a unit expression, which starts with the mass:
`kg*m/s**2`. -/
def unitOrder : List Base := [mass, length, time, current, temperature, amount, luminosity, angle]

/-- The symbol of the base unit. -/
def symbol : Base → String
  | length => "m"
  | mass => "kg"
  | time => "s"
  | current => "A"
  | temperature => "K"
  | amount => "mol"
  | luminosity => "cd"
  | angle => "rad"

/-- The name of the quantity. -/
def name : Base → String
  | length => "length"
  | mass => "mass"
  | time => "time"
  | current => "current"
  | temperature => "temperature"
  | amount => "amount"
  | luminosity => "luminosity"
  | angle => "angle"

/-- The quantity of a given name. -/
def ofName? (s : String) : Option Base := all.find? fun b => b.name = s

end Base

/-- An exponent for each base quantity. The dimension of a pure number has all exponents zero. -/
structure Dimension where
  length : Exponent := 0
  mass : Exponent := 0
  time : Exponent := 0
  current : Exponent := 0
  temperature : Exponent := 0
  amount : Exponent := 0
  luminosity : Exponent := 0
  angle : Exponent := 0
deriving DecidableEq

namespace Dimension

/-- The exponent of a base quantity. -/
def exponent (d : Dimension) : Base → Exponent
  | .length => d.length
  | .mass => d.mass
  | .time => d.time
  | .current => d.current
  | .temperature => d.temperature
  | .amount => d.amount
  | .luminosity => d.luminosity
  | .angle => d.angle

/-- The dimension with the given exponents. -/
def ofFn (f : Base → Exponent) : Dimension where
  length := f .length
  mass := f .mass
  time := f .time
  current := f .current
  temperature := f .temperature
  amount := f .amount
  luminosity := f .luminosity
  angle := f .angle

/-- A dimension that is made from exponents has them. -/
@[simp] theorem exponent_ofFn (f : Base → Exponent) (b : Base) : (ofFn f).exponent b = f b := by
  cases b <;> rfl

/-- A dimension is determined by its exponents. -/
@[ext] theorem ext_exponent {d e : Dimension} (h : ∀ b, d.exponent b = e.exponent b) : d = e := by
  cases d; cases e
  have h₁ := h .length; have h₂ := h .mass; have h₃ := h .time; have h₄ := h .current
  have h₅ := h .temperature; have h₆ := h .amount; have h₇ := h .luminosity; have h₈ := h .angle
  simp_all [exponent]

/-- The dimension with the given exponents, if all of them are there. -/
def ofFn? (f : Base → Option Exponent) : Option Dimension := do
  let length ← f .length
  let mass ← f .mass
  let time ← f .time
  let current ← f .current
  let temperature ← f .temperature
  let amount ← f .amount
  let luminosity ← f .luminosity
  let angle ← f .angle
  pure { length, mass, time, current, temperature, amount, luminosity, angle }

/-- The dimension of a pure number. -/
def dimensionless : Dimension := {}

instance : Inhabited Dimension := ⟨dimensionless⟩

/-- Whether all exponents are zero. -/
def isDimensionless (d : Dimension) : Bool := d = dimensionless

/-- One base quantity to an integer power. -/
def power? (b : Base) (n : Int) : Option Dimension :=
  ofFn? fun c => if c = b then Exponent.ofFraction? n 1 else some 0

/-- The dimension of a product. -/
def mul? (d e : Dimension) : Option Dimension :=
  ofFn? fun b => (d.exponent b).add? (e.exponent b)

/-- The dimension of a quotient. -/
def div? (d e : Dimension) : Option Dimension :=
  ofFn? fun b => (d.exponent b).sub? (e.exponent b)

/-- The dimension of a rational power. -/
def pow? (d : Dimension) (p : Exponent) : Option Dimension :=
  ofFn? fun b => (d.exponent b).mul? p

/-- The product of integer powers of base quantities, which may repeat. -/
def ofPowers? (powers : List (Base × Int)) : Option Dimension :=
  powers.foldlM (fun d (b, n) => do d.mul? (← power? b n)) dimensionless

/-! ### Texts -/

/-- The base quantities with an exponent other than zero, in a given order. -/
def factors (d : Dimension) (order : List Base) : List Base :=
  order.filter fun b => d.exponent b ≠ 0

/-- The names of the base quantities with their exponents, joined by stars. -/
def text (d : Dimension) : String :=
  if d.isDimensionless then "dimensionless"
  else
    "*".intercalate <| (d.factors Base.all).map fun b =>
      if d.exponent b = 1 then s!"[{b.name}]" else s!"[{b.name}]^{(d.exponent b).text}"

/-- A base unit raised to the magnitude of an exponent. -/
def unitFactor (symbol : String) (e : Exponent) : String :=
  if e.den = 1 then
    if e.num.natAbs = 1 then symbol else s!"{symbol}**{e.num.natAbs}"
  else s!"{symbol}**({e.num.natAbs}/{e.den})"

/-- The unit expression of the base unit: the positive powers, then the negative ones below a slash,
in brackets if there are several. The base unit of a pure number is the empty text. -/
def baseUnit (d : Dimension) : String :=
  let present := d.factors Base.unitOrder
  let (above, below) := present.partition fun b => 0 < (d.exponent b).num
  let write := fun b => unitFactor b.symbol (d.exponent b)
  if d.isDimensionless then ""
  else
    let top := if above.isEmpty then "1" else "*".intercalate (above.map write)
    match below with
    | [] => top
    | [b] => s!"{top}/{write b}"
    | _ => top ++ "/(" ++ "*".intercalate (below.map write) ++ ")"

end Dimension

end UnitPlane
