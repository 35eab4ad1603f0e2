import ReturnFlow.Double.Read
import ReturnFlow.Rule.Basic
import ReturnFlow.Text.Blank

/-!
Boxing, unboxing, parsing and printing on the box classes and on strings.

Each of these calls converts the literals of one operand to a type (`Literal.convert?`). A literal
that cannot be converted is dropped.
-/

namespace ReturnFlow

/-- The kinds of types that literals are converted to. -/
inductive Conversion where
  | text
  /-- Whole numbers with the least and the greatest one that a text may denote. -/
  | integral (least greatest : Int)
  | boolean
  | character
  | floating
  deriving DecidableEq

namespace Conversion

/-- The conversion to a type: a string, a primitive type, or the box of one. -/
def of? (type : String) : Option Conversion :=
  if type = Descriptor.string then some .text
  else
    match (Descriptor.unboxed? type).getD type with
    | "I" => some (.integral (-2147483648) 2147483647)
    | "J" => some (.integral (-9223372036854775808) 9223372036854775807)
    | "S" => some (.integral (-32768) 32767)
    | "B" => some (.integral (-128) 127)
    | "Z" => some .boolean
    | "C" => some .character
    | "D" => some .floating
    | "F" => some .floating
    | _ => none

end Conversion

namespace Literal

/-- Reads a whole number between two bounds. -/
def readIntegral? (least greatest : Int) (s : String) : Option Literal :=
  match Text.readInt? s.toList with
  | some v => if least ≤ v ∧ v ≤ greatest then some (.int (Int64.ofInt v)) else none
  | none => none

/-- Is a text the word for truth, in any case of its letters? -/
def isTrueWord (s : String) : Bool :=
  s.toList.map Char.toLower = "true".toList

/-- The character with a code point. -/
def ofCodePoint? (v : Int64) : Option Literal :=
  let n := v.toInt.toNat
  if 0 ≤ v.toInt ∧ n.isValidChar then some (.char (Char.ofNat n)) else none

/-- A literal converted by one of the conversions. -/
def convertBy? : Conversion → Literal → Option Literal
  | .text, .null => none
  | .text, l => some (.string l.text)
  | .integral .., .int v => some (.int v)
  | .integral .., .char c => some (.int (Int64.ofNat c.toNat))
  | .integral least greatest, .string s => readIntegral? least greatest s
  | .boolean, .bool b => some (.bool b)
  -- Code pushes truth values as zero and one.
  | .boolean, .int v => some (.bool (v != 0))
  | .boolean, .string s => some (.bool (isTrueWord s))
  | .character, .char c => some (.char c)
  | .character, .int v => ofCodePoint? v
  | .floating, .double d => some (.double d)
  | .floating, .int v => some (.double (Double.ofInt v.toInt))
  | .floating, .string s => (Double.read? (Text.trim s.toList)).map .double
  | _, _ => none

/-- A literal converted to a type. -/
def convert? (type : String) (l : Literal) : Option Literal :=
  (Conversion.of? type).bind fun c => convertBy? c l

end Literal

/-- The literals of an element converted to a type. -/
def Element.converted (e : Element) (type : String) : Element :=
  Element.ofValues type ((e.literals.filterMap (Literal.convert? type)).map .literal)

namespace Rule.Boxing

/-- The methods that read the value out of a box. -/
def isAccessor (name : String) : Bool :=
  name ∈ ["toString", "intValue", "longValue", "shortValue", "byteValue", "booleanValue",
    "charValue", "doubleValue", "floatValue"]

/-- The static conversions of one parameter; those with a radix are not modelled. -/
def isConversion (m : Method) : Bool :=
  m.arity = 1 && (m.name = "valueOf" || m.name = "toString" ||
    "parse".toList.isPrefixOf m.name.toList)

/-- Is a class a box class or the class of strings? -/
def isValueClass (name : String) : Bool :=
  (Descriptor.unboxed? (Descriptor.ofClass name)).isSome || name = "java/lang/String"

/-- Calls on box classes and strings. -/
def call? (c : Call) : Option Known :=
  if !isValueClass c.method.owner then none
  else if c.method.isStatic then
    if isConversion c.method then
      c.args.head?.map fun arg => .value (arg.converted c.method.returnType)
    else none
  else if c.method.isConstructor then
    match c.args with
    | [arg] => some (.update (arg.converted (Descriptor.ofClass c.method.owner)))
    | _ => none
  else if isAccessor c.method.name then
    c.receiver.map fun receiver => .value (receiver.converted c.method.returnType)
  else none

end Rule.Boxing

end ReturnFlow
