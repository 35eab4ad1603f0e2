import ReturnFlow.Value

/-!
Elements: how they are made, merged and looked at.

Merging takes the alternatives of both sides, so it does not matter in which order elements are
merged or how often.
-/

namespace ReturnFlow

namespace Value

def literal? : Value → Option Literal
  | .literal l => some l
  | _ => none

def json? : Value → Option Json
  | .json j => some j
  | _ => none

def response? : Value → Option Response
  | .response r => some r
  | _ => none

def handle? : Value → Option Handle
  | .handle h => some h
  | _ => none

end Value

namespace Element

/-- No type and no value: nothing is handed out. -/
def empty : Element := ⟨[], []⟩

/-- Any value of a type. -/
def unknown (type : String) : Element := ⟨[type], []⟩

def object : Element := unknown Descriptor.object

/-- Exactly one value of a type. -/
def ofValue (type : String) (value : Value) : Element := ⟨[type], [value]⟩

/-- One of several values of a type. -/
def ofValues (type : String) (values : List Value) : Element :=
  ⟨[type], Sorted.ofList values⟩

def literal (type : String) (l : Literal) : Element := ofValue type (.literal l)

def string (s : String) : Element := literal Descriptor.string (.string s)

def int (v : Int64) : Element := literal Descriptor.int (.int v)

def isEmpty (e : Element) : Bool := e.types.isEmpty && e.values.isEmpty

def hasType (e : Element) (type : String) : Bool := e.types.contains type

/-- The alternatives of all the elements of a list. -/
def join (es : List Element) : Element where
  types := Sorted.ofList (es.flatMap Element.types)
  values := Sorted.ofList (es.flatMap Element.values)

/-- The alternatives of both elements. -/
def merge (a b : Element) : Element where
  types := Sorted.union a.types b.types
  values := Sorted.union a.values b.values

/-- The same values under one other type. -/
def retyped (e : Element) (type : String) : Element := ⟨[type], e.values⟩

def addValue (e : Element) (value : Value) : Element :=
  ⟨e.types, Sorted.insert value e.values⟩

/-! ## Views -/

def literals (e : Element) : List Literal := e.values.filterMap Value.literal?

def ints (e : Element) : List Int64 := e.literals.filterMap Literal.int?

def strings (e : Element) : List String := e.literals.filterMap Literal.string?

def jsonValues (e : Element) : List Json := e.values.filterMap Value.json?

def responses (e : Element) : List Response := e.values.filterMap Value.response?

def handles (e : Element) : List Handle := e.values.filterMap Value.handle?

/-- The values that are not responses. -/
def entityValues (e : Element) : List Value := e.values.filter fun v => v.response?.isNone

/-- The element as shown in messages: its types in braces and the number of its values. -/
def display (e : Element) : String :=
  String.singleton '{' ++ String.intercalate ", " e.types ++ String.singleton '}' ++
    if e.values.isEmpty then "" else " = " ++ e.values.length.repr ++ " value(s)"

end Element

end ReturnFlow
