import ReturnFlow.Double

/-!
Doubles in decimal, never with an exponent.

`Double.fixed` writes a given number of places, rounded from the exact value. `Double.shortest?`
finds the decimal with the fewest digits that reads back as the same double, and of those the
nearest. `Double.print` writes a whole number with one place and any other number with its shortest
digits.
-/

namespace ReturnFlow.Double

/-- The number `n / 10 ^ places`, written with that many digits after the point. -/
def withPlaces (n places : Nat) : String :=
  let fraction := (n % pow10 places).repr
  (n / pow10 places).repr ++ "." ++ "".pushn '0' (places - fraction.length) ++ fraction

/-- A minus sign for a set sign bit, also before zero. -/
def sign (x : Double) : String :=
  if x.isNegative then "-" else ""

/-- The number with exactly `places` digits after the point, rounded from its exact value with a
tie going to the even digit. -/
def fixed (places : Nat) (x : Double) : String :=
  if x.isNaN then "NaN"
  else if !x.isFinite then x.sign ++ "inf"
  else x.sign ++ withPlaces (roundDiv (x.units * pow10 places) unitsPerOne) places

/-- Does a finite double have no fractional part? -/
def isWhole (x : Double) : Bool :=
  x.units % unitsPerOne = 0

/-! ## Shortest digits

A magnitude of `u` units is the middle of an interval of reals that round to it. The bounds are in
quarters of a unit: half a gap above, and half a gap below or, at the foot of a binade, where the
numbers below are twice as dense, a quarter of it. -/

/-- The lower end of the rounding interval, in quarters of a unit. -/
def lowerQuarters (x : Double) : Nat :=
  4 * x.units - if x.fraction = 0 && 1 < x.exponent then x.gap else 2 * x.gap

/-- The upper end of the rounding interval, in quarters of a unit. -/
def upperQuarters (x : Double) : Nat :=
  4 * x.units + 2 * x.gap

/-- The multiple of `10 ^ k` that rounds to `x`, as its factor. Of two neighbours that both do, the
nearer one is taken, and the upper one on a tie. The ends of the interval belong to it when the
fraction is even, as rounding sends ties there. -/
def onGrid? (x : Double) (k : Int) : Option Nat :=
  let grid := pow10 k.toNat * (4 * unitsPerOne)
  let scale := pow10 (-k).toNat
  let value := 4 * x.units * scale
  let rounds (c : Nat) : Bool :=
    let point := c * grid
    if x.fraction % 2 = 0 then
      x.lowerQuarters * scale ≤ point && point ≤ x.upperQuarters * scale
    else
      x.lowerQuarters * scale < point && point < x.upperQuarters * scale
  let below := value / grid
  match rounds below, rounds (below + 1) with
  | true, true => some (if 2 * value < (2 * below + 1) * grid then below else below + 1)
  | true, false => some below
  | false, true => some (below + 1)
  | false, false => none

/-- An exponent of ten that is too coarse a grid for the magnitude: the number of its bits, divided
by the number of bits in a decimal digit and rounded up. -/
def coarsest (x : Double) : Int :=
  ((x.units.log2 : Int) - 1074) * 30103 / 100000 + 2

/-- The shortest decimal `c * 10 ^ k` that rounds to the magnitude of a finite double other than
zero: the first hit from coarse grids to fine ones. Seventeen digits always suffice. -/
def shortest? (x : Double) : Option (Nat × Int) :=
  (List.range 22).findSome? fun (i : Nat) =>
    let k := x.coarsest - i
    (x.onGrid? k).map fun c => (c, k)

/-- The decimal `c * 10 ^ k`. -/
def positional (c : Nat) (k : Int) : String :=
  if k < 0 then withPlaces c (-k).toNat else (c * pow10 k.toNat).repr

/-- The number in decimal: a whole number exactly and with one place, any other number with the
fewest digits that read back as it. -/
def print (x : Double) : String :=
  if !x.isFinite || x.isWhole then x.fixed 1
  else x.sign ++ (x.shortest?.map fun d => positional d.1 d.2).getD ""

end ReturnFlow.Double
