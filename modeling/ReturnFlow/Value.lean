import ReturnFlow.Literal
import ReturnFlow.Method
import ReturnFlow.Sorted

/-!
Symbolic values: what is known about a datum without running the program.

An element holds the types that the datum may have and those of its possible values that are known.
A value is a constant, a JSON structure, an HTTP response or a method handle; JSON structures,
responses and handles hold elements again. Sets are strictly increasing lists (`Sorted`) and maps
are key-increasing lists (`Keyed`); the order that this needs compares two pieces of data field by
field, lists item by item, and kinds in the order of their constructors.
-/

namespace ReturnFlow

mutual

/-- The possible types of a datum and its known possible values, both sets. -/
structure Element where
  types : List String
  values : List Value

/-- One possible value. -/
inductive Value where
  | literal (l : Literal)
  | json (j : Json)
  | response (r : Response)
  | handle (h : Handle)

/-- A JSON structure put together by builders. -/
inductive Json where
  /-- Members by name: a map. -/
  | object (members : List (String × Element))
  | array (elements : List Element)

/-- What is known about an HTTP response: five sets of alternatives or facts. -/
structure Response where
  statuses : List Nat
  headers : List String
  contentTypes : List String
  entityTypes : List String
  /-- JSON bodies that are known in full. -/
  inline : List Json

/-- A method bound to the arguments that were captured for it. -/
structure Handle where
  target : Method
  captured : List Element

end

/-! ## Order -/

mutual

def Element.cmp : Element → Element → Ordering
  | ⟨types, values⟩, ⟨types', values'⟩ =>
    (compare types types').then (Value.cmpList values values')
termination_by structural e => e

def Value.cmp : Value → Value → Ordering
  | .literal a, .literal b => compare a b
  | .literal _, .json _ => .lt
  | .literal _, .response _ => .lt
  | .literal _, .handle _ => .lt
  | .json _, .literal _ => .gt
  | .json a, .json b => a.cmp b
  | .json _, .response _ => .lt
  | .json _, .handle _ => .lt
  | .response _, .literal _ => .gt
  | .response _, .json _ => .gt
  | .response a, .response b => a.cmp b
  | .response _, .handle _ => .lt
  | .handle _, .literal _ => .gt
  | .handle _, .json _ => .gt
  | .handle _, .response _ => .gt
  | .handle a, .handle b => a.cmp b
termination_by structural v => v

def Json.cmp : Json → Json → Ordering
  | .object a, .object b => Json.cmpMembers a b
  | .object _, .array _ => .lt
  | .array _, .object _ => .gt
  | .array a, .array b => Element.cmpList a b
termination_by structural j => j

def Response.cmp : Response → Response → Ordering
  | ⟨statuses, headers, contentTypes, entityTypes, inline⟩,
    ⟨statuses', headers', contentTypes', entityTypes', inline'⟩ =>
    (compare statuses statuses').then <|
    (compare headers headers').then <|
    (compare contentTypes contentTypes').then <|
    (compare entityTypes entityTypes').then <|
    Json.cmpList inline inline'
termination_by structural r => r

def Handle.cmp : Handle → Handle → Ordering
  | ⟨target, captured⟩, ⟨target', captured'⟩ =>
    (compare target target').then (Element.cmpList captured captured')
termination_by structural h => h

def Element.cmpList : List Element → List Element → Ordering
  | [], [] => .eq
  | [], _ :: _ => .lt
  | _ :: _, [] => .gt
  | x :: xs, y :: ys => (x.cmp y).then (Element.cmpList xs ys)
termination_by structural xs => xs

def Value.cmpList : List Value → List Value → Ordering
  | [], [] => .eq
  | [], _ :: _ => .lt
  | _ :: _, [] => .gt
  | x :: xs, y :: ys => (x.cmp y).then (Value.cmpList xs ys)
termination_by structural xs => xs

def Json.cmpList : List Json → List Json → Ordering
  | [], [] => .eq
  | [], _ :: _ => .lt
  | _ :: _, [] => .gt
  | x :: xs, y :: ys => (x.cmp y).then (Json.cmpList xs ys)
termination_by structural xs => xs

def Json.cmpMembers : List (String × Element) → List (String × Element) → Ordering
  | [], [] => .eq
  | [], _ :: _ => .lt
  | _ :: _, [] => .gt
  | (k, x) :: xs, (k', y) :: ys =>
    ((compare k k').then (x.cmp y)).then (Json.cmpMembers xs ys)
termination_by structural xs => xs

end

instance : Ord Element := ⟨Element.cmp⟩
instance : Ord Value := ⟨Value.cmp⟩
instance : Ord Json := ⟨Json.cmp⟩
instance : Ord Response := ⟨Response.cmp⟩
instance : Ord Handle := ⟨Handle.cmp⟩

end ReturnFlow
