/-!
Double-precision numbers, held as their 64 bits.

Two doubles are equal when all their bits agree, so the two zeros differ and a NaN equals itself;
`Double.rank` places every bit pattern on one line, which is the order of the type. Arithmetic is
exact: a finite double is a whole number of units of `2 ^ (-1074)`, and `Double.ofUnits` rounds
any quotient of such units to the nearest double, a tie going to the even neighbour.
-/

namespace ReturnFlow

/-- A number in the binary format of 64 bits: a sign, eleven exponent bits and 52 fraction bits. -/
structure Double where
  bits : UInt64
  deriving DecidableEq

namespace Double

/-- A power of two. -/
def pow2 (k : Nat) : Nat := Nat.pow 2 k

/-- A power of ten. -/
def pow10 (k : Nat) : Nat := Nat.pow 10 k

/-- The value of the sign bit. -/
def signPlace : Nat := pow2 63

/-- The magnitude bits of infinity; all larger ones belong to NaN. -/
def infinityCode : Nat := 2047 * pow2 52

/-- Is the sign bit set? -/
def isNegative (x : Double) : Bool :=
  signPlace ≤ x.bits.toNat

/-- All bits but the sign. -/
def code (x : Double) : Nat :=
  x.bits.toNat % signPlace

def isFinite (x : Double) : Bool :=
  x.code < infinityCode

def isNaN (x : Double) : Bool :=
  infinityCode < x.code

/-- The double with the given sign and magnitude bits. -/
def ofCode (negative : Bool) (code : Nat) : Double :=
  ⟨UInt64.ofNat (code + if negative then signPlace else 0)⟩

def infinity (negative : Bool) : Double := ofCode negative infinityCode

/-- The quiet NaN without payload. -/
def nan (negative : Bool) : Double := ofCode negative (infinityCode + pow2 51)

/-! ## Order -/

/-- The place of a bit pattern in the order of all doubles: negative NaNs, minus infinity, the
negative numbers, minus zero, zero, the positive numbers, infinity, positive NaNs. -/
def rank (x : Double) : Int :=
  if x.isNegative then -(x.code : Int) - 1 else x.code

instance : Ord Double where
  compare x y := compare x.rank y.rank

/-! ## Exact values and rounding -/

/-- The exponent bits. -/
def exponent (x : Double) : Nat := x.code / pow2 52

/-- The fraction bits. -/
def fraction (x : Double) : Nat := x.code % pow2 52

/-- The distance to the next larger magnitude, in units of `2 ^ (-1074)`. -/
def gap (x : Double) : Nat := pow2 (x.exponent - 1)

/-- The magnitude of a finite double, in units of `2 ^ (-1074)`. -/
def units (x : Double) : Nat :=
  if x.exponent = 0 then x.fraction else (pow2 52 + x.fraction) * x.gap

/-- The units in one. -/
def unitsPerOne : Nat := pow2 1074

/-- The value of a finite double, in units of `2 ^ (-1074)`. -/
def signedUnits (x : Double) : Int :=
  if x.isNegative then -(x.units : Int) else x.units

/-- The whole number nearest to `num / den`; a tie goes to the even one. -/
def roundDiv (num den : Nat) : Nat :=
  let q := num / den
  let r := num % den
  if 2 * r < den then q else if den < 2 * r then q + 1 else q + q % 2

/-- The double nearest to `num / den` units of `2 ^ (-1074)`; beyond the largest double it is
infinity. Within one binade the magnitude bits count the gaps, so the rounded quotient by the gap
is added to the bits of the binade, and a carry into the next binade comes out right. -/
def ofUnits (negative : Bool) (num den : Nat) : Double :=
  let shift := (num / den).log2 - 52
  ofCode negative (min (shift * pow2 52 + roundDiv num (den * pow2 shift)) infinityCode)

/-- The double nearest to an integer. -/
def ofInt (v : Int) : Double :=
  ofUnits (v < 0) (v.natAbs * unitsPerOne) 1

/-- The double nearest to a number of units with a sign. -/
def ofSignedUnits (v : Int) : Double :=
  ofUnits (v < 0) v.natAbs 1

/-! ## Arithmetic -/

/-- A NaN with its quiet bit set. -/
def quiet (x : Double) : Double :=
  if x.fraction < pow2 51 then ⟨x.bits + UInt64.ofNat (pow2 51)⟩ else x

def neg (x : Double) : Double :=
  ofCode (!x.isNegative) x.code

/-- The sum, rounded once. A NaN is passed on; opposite infinities have no sum; a sum that is
zero is positive unless both terms are negative. -/
def add (x y : Double) : Double :=
  if x.isNaN then x.quiet
  else if y.isNaN then y.quiet
  else if !x.isFinite then
    if !y.isFinite && x.isNegative != y.isNegative then nan true else x
  else if !y.isFinite then y
  else
    let sum := x.signedUnits + y.signedUnits
    if sum = 0 then ofCode (x.isNegative && y.isNegative) 0 else ofSignedUnits sum

/-- The difference, rounded once; a NaN is passed on with its sign. -/
def sub (x y : Double) : Double :=
  if y.isNaN then x.add y else x.add y.neg

/-- The quotient by a positive count, rounded once. -/
def divCount (x : Double) (n : Nat) : Double :=
  if x.isNaN then x.quiet
  else if !x.isFinite then x
  else ofUnits x.isNegative x.units n

/-- The rank with the two zeros made one. -/
def numericRank (x : Double) : Int :=
  if x.isNegative then -(x.code : Int) else x.code

/-- Is `x` less than `y` as a number? A NaN is less than nothing and nothing is less than it. -/
def lt (x y : Double) : Bool :=
  !x.isNaN && !y.isNaN && x.numericRank < y.numericRank

end Double

end ReturnFlow
