import ReturnFlow.Double.Print
import ReturnFlow.Text.Integer

/-!
Constants that code can push, their order and their text.
-/

namespace ReturnFlow

/-- A constant of the constant pool. -/
inductive Literal where
  | null
  | bool (value : Bool)
  | int (value : Int64)
  | char (value : Char)
  | double (value : Double)
  | string (value : String)
  | cls (type : String)
  deriving DecidableEq

namespace Literal

/-- The place of a kind of literal among the kinds. -/
def kind : Literal → Nat
  | .null => 0
  | .bool _ => 1
  | .int _ => 2
  | .char _ => 3
  | .double _ => 4
  | .string _ => 5
  | .cls _ => 6

/-- By kind, then by value. -/
def cmp : Literal → Literal → Ordering
  | .bool a, .bool b => compare a b
  | .int a, .int b => compare a b
  | .char a, .char b => compare a b
  | .double a, .double b => compare a b
  | .string a, .string b => compare a b
  | .cls a, .cls b => compare a b
  | a, b => compare a.kind b.kind

instance : Ord Literal := ⟨cmp⟩

def int? : Literal → Option Int64
  | .int v => some v
  | _ => none

def string? : Literal → Option String
  | .string s => some s
  | _ => none

/-- The text that the running program would show for the value. -/
def text : Literal → String
  | .null => "null"
  | .bool b => if b then "true" else "false"
  | .int v => Text.writeInt v.toInt
  | .char c => String.singleton c
  | .double d => d.print
  | .string s => s
  | .cls type => "class " ++ type

/-- The literal as shown in messages: strings and characters in quotes, without escapes. -/
def display : Literal → String
  | .string s => "\"" ++ s ++ "\""
  | .char c => "'" ++ String.singleton c ++ "'"
  | l => l.text

end Literal

end ReturnFlow
