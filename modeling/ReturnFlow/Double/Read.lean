import ReturnFlow.Double
import ReturnFlow.Text.Integer

/-!
Reading a double from decimal text.

A number is an optional sign, digits with an optional point among or around them, and an optional
exponent; at least one digit stands before the exponent. The words for infinity and NaN are read in
any case. The result is the double nearest to the exact decimal.
-/

namespace ReturnFlow.Double

open ReturnFlow.Text

/-- The value `digits * 10 ^ exponent`, rounded to the nearest double. Decimals far beyond the
range of doubles are settled by the place of their leading digit. -/
def ofDecimal (negative : Bool) (digits : Nat) (exponent : Int) : Double :=
  let place := (digits.repr.length : Int) + exponent
  if digits = 0 then ofCode negative 0
  else if 310 < place then infinity negative
  else if place < -330 then ofCode negative 0
  else ofUnits negative (digits * pow10 exponent.toNat * unitsPerOne) (pow10 (-exponent).toNat)

/-- The exponent part after the digits: nothing, or a mark and a whole number. -/
def readExponent? : List Char → Option Int
  | [] => some 0
  | c :: cs => if c = 'e' || c = 'E' then readInt? cs else none

/-- The digits after a point, and what follows them; without a point there are none. -/
def splitFraction : List Char → List Char × List Char
  | '.' :: cs => (cs.takeWhile isDigit, cs.dropWhile isDigit)
  | cs => ([], cs)

/-- A number without its sign. -/
def readMagnitude? (negative : Bool) (cs : List Char) : Option Double :=
  let whole := cs.takeWhile isDigit
  let (fraction, rest) := splitFraction (cs.dropWhile isDigit)
  if whole = [] ∧ fraction = [] then none
  else (readExponent? rest).map fun e =>
    ofDecimal negative (digitsValue (whole ++ fraction)) (e - fraction.length)

/-- Reads a double; the whole text has to be one number. -/
def read? (cs : List Char) : Option Double :=
  let (negative, body) := splitSign cs
  let word := String.ofList (body.map Char.toLower)
  if word = "inf" || word = "infinity" then some (infinity negative)
  else if word = "nan" then some (nan negative)
  else readMagnitude? negative body

end ReturnFlow.Double
