import UnitPlane.MeasureUnit.Factor

/-!
# `UnitPlane.MeasureUnit.Table`: the units that have a name

Each row of the table gives the names of one unit and what it amounts to in base units. Only units
that are a multiple of the base unit are in it, so no temperature scale with a zero of its own.
-/

set_option autoImplicit false

namespace UnitPlane.UnitTable

/-! ### Dimensions of the units -/

/-- Distance. -/
def length : Dimension := { length := .ofInt32 1 }
/-- Distance squared. -/
def area : Dimension := { length := .ofInt32 2 }
/-- Distance cubed. -/
def volume : Dimension := { length := .ofInt32 3 }
/-- Mass. -/
def mass : Dimension := { mass := .ofInt32 1 }
/-- Duration. -/
def time : Dimension := { time := .ofInt32 1 }
/-- Events per duration. -/
def frequency : Dimension := { time := .ofInt32 (-1) }
/-- Distance per duration. -/
def speed : Dimension := { length := .ofInt32 1, time := .ofInt32 (-1) }
/-- Electric current. -/
def current : Dimension := { current := .ofInt32 1 }
/-- Absolute temperature. -/
def temperature : Dimension := { temperature := .ofInt32 1 }
/-- Amount of substance. -/
def amount : Dimension := { amount := .ofInt32 1 }
/-- Luminous intensity. -/
def luminosity : Dimension := { luminosity := .ofInt32 1 }
/-- Plane angle. -/
def angle : Dimension := { angle := .ofInt32 1 }
/-- Mass times acceleration. -/
def force : Dimension := { mass := .ofInt32 1, length := .ofInt32 1, time := .ofInt32 (-2) }
/-- Force times distance. -/
def energy : Dimension := { mass := .ofInt32 1, length := .ofInt32 2, time := .ofInt32 (-2) }
/-- Energy per duration. -/
def power : Dimension := { mass := .ofInt32 1, length := .ofInt32 2, time := .ofInt32 (-3) }
/-- Force per area. -/
def pressure : Dimension := { mass := .ofInt32 1, length := .ofInt32 (-1), time := .ofInt32 (-2) }
/-- Current times duration. -/
def charge : Dimension := { current := .ofInt32 1, time := .ofInt32 1 }
/-- Power per current. -/
def voltage : Dimension :=
  { mass := .ofInt32 1, length := .ofInt32 2, time := .ofInt32 (-3), current := .ofInt32 (-1) }
/-- Voltage per current. -/
def resistance : Dimension :=
  { mass := .ofInt32 1, length := .ofInt32 2, time := .ofInt32 (-3), current := .ofInt32 (-2) }

/-- The double nearest to the ratio of a circle's circumference to its diameter. -/
def pi : Float := 3.141592653589793

/-- The named units: their names and what they amount to. -/
def rows : List (List String × Factor) :=
  [
    (["dimensionless"], ⟨.dimensionless, 1⟩),
    (["percent"], ⟨.dimensionless, 0.01⟩),
    (["m", "meter", "metre"], ⟨length, 1⟩),
    (["mm", "millimeter", "millimetre"], ⟨length, 1e-3⟩),
    (["cm", "centimeter", "centimetre"], ⟨length, 1e-2⟩),
    (["km", "kilometer", "kilometre"], ⟨length, 1e3⟩),
    (["um", "micrometer", "micron"], ⟨length, 1e-6⟩),
    (["nm", "nanometer"], ⟨length, 1e-9⟩),
    (["in", "inch", "inches"], ⟨length, 0.0254⟩),
    (["ft", "foot", "feet"], ⟨length, 0.3048⟩),
    (["yd", "yard"], ⟨length, 0.9144⟩),
    (["mi", "mile"], ⟨length, 1609.344⟩),
    (["nmi", "nautical_mile"], ⟨length, 1852⟩),
    (["ha", "hectare"], ⟨area, 1e4⟩),
    (["L", "l", "liter", "litre"], ⟨volume, 1e-3⟩),
    (["mL", "ml", "milliliter", "millilitre"], ⟨volume, 1e-6⟩),
    (["kg", "kilogram"], ⟨mass, 1⟩),
    (["g", "gram"], ⟨mass, 1e-3⟩),
    (["mg", "milligram"], ⟨mass, 1e-6⟩),
    (["t", "tonne", "metric_ton"], ⟨mass, 1e3⟩),
    (["lb", "pound"], ⟨mass, 0.45359237⟩),
    (["oz", "ounce"], ⟨mass, 0.028349523125⟩),
    (["s", "sec", "second"], ⟨time, 1⟩),
    (["ms", "millisecond"], ⟨time, 1e-3⟩),
    (["us", "microsecond"], ⟨time, 1e-6⟩),
    (["ns", "nanosecond"], ⟨time, 1e-9⟩),
    (["min", "minute"], ⟨time, 60⟩),
    (["h", "hr", "hour"], ⟨time, 3600⟩),
    (["d", "day"], ⟨time, 86400⟩),
    (["week"], ⟨time, 604800⟩),
    (["year"], ⟨time, 31557600⟩),
    (["Hz", "hertz"], ⟨frequency, 1⟩),
    (["kHz", "kilohertz"], ⟨frequency, 1e3⟩),
    (["MHz", "megahertz"], ⟨frequency, 1e6⟩),
    (["kph", "kmh"], ⟨speed, 1 / 3.6⟩),
    (["mph"], ⟨speed, 0.44704⟩),
    (["knot", "kn"], ⟨speed, 1852 / 3600⟩),
    (["A", "ampere", "amp"], ⟨current, 1⟩),
    (["mA", "milliampere"], ⟨current, 1e-3⟩),
    (["K", "kelvin"], ⟨temperature, 1⟩),
    (["mol", "mole"], ⟨amount, 1⟩),
    (["mmol", "millimole"], ⟨amount, 1e-3⟩),
    (["cd", "candela"], ⟨luminosity, 1⟩),
    (["rad", "radian"], ⟨angle, 1⟩),
    (["deg", "degree"], ⟨angle, pi / 180⟩),
    (["N", "newton"], ⟨force, 1⟩),
    (["kN", "kilonewton"], ⟨force, 1e3⟩),
    (["J", "joule"], ⟨energy, 1⟩),
    (["kJ", "kilojoule"], ⟨energy, 1e3⟩),
    (["Wh", "watt_hour"], ⟨energy, 3600⟩),
    (["kWh", "kilowatt_hour"], ⟨energy, 3.6e6⟩),
    (["cal", "calorie"], ⟨energy, 4.184⟩),
    (["W", "watt"], ⟨power, 1⟩),
    (["mW", "milliwatt"], ⟨power, 1e-3⟩),
    (["kW", "kilowatt"], ⟨power, 1e3⟩),
    (["Pa", "pascal"], ⟨pressure, 1⟩),
    (["kPa", "kilopascal"], ⟨pressure, 1e3⟩),
    (["bar"], ⟨pressure, 1e5⟩),
    (["atm", "atmosphere"], ⟨pressure, 101325⟩),
    (["psi"], ⟨pressure, 6894.757293168361⟩),
    (["C", "coulomb"], ⟨charge, 1⟩),
    (["V", "volt"], ⟨voltage, 1⟩),
    (["mV", "millivolt"], ⟨voltage, 1e-3⟩),
    (["kV", "kilovolt"], ⟨voltage, 1e3⟩),
    (["ohm"], ⟨resistance, 1⟩)]

/-- The unit of exactly this name. -/
def find? (name : String) : Option Factor :=
  (rows.find? fun row => row.1.contains name).map Prod.snd

/-- The shortest name, in bytes, that has a plural. -/
def minPluralStem : Nat := 3

/-- The name of which a text is the plural, if it ends in `s` and what is left is long enough. -/
def singular? (name : String) : Option String :=
  match name.toList.reverse with
  | 's' :: stem =>
    let stem := String.ofList stem.reverse
    if stem.utf8ByteSize < minPluralStem then none else some stem
  | _ => none

/-- The unit of a name, or of the name it is the plural of. -/
def lookup (name : String) : Option Factor :=
  (find? name).or ((singular? name).bind find?)

end UnitPlane.UnitTable
