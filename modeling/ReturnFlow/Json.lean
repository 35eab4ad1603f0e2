import ReturnFlow.Element
import ReturnFlow.Keyed

/-!
JSON structures as builders see them: setting and removing members, appending, merging.
-/

namespace ReturnFlow.Json

def emptyObject : Json := .object []

def emptyArray : Json := .array []

def isObject : Json → Bool
  | .object _ => true
  | .array _ => false

def isArray : Json → Bool
  | .object _ => false
  | .array _ => true

/-- Sets a member of an object, in place of an earlier one of the same name; an array stays. -/
def withMember (key : String) (value : Element) : Json → Json
  | .object members => .object (Keyed.set key value members)
  | .array elements => .array elements

/-- Removes a member of an object; an array stays. -/
def withoutMember (key : String) : Json → Json
  | .object members => .object (Keyed.erase key members)
  | .array elements => .array elements

/-- Appends to an array; an object stays. -/
def withElement (value : Element) : Json → Json
  | .object members => .object members
  | .array elements => .array (elements ++ [value])

/-- Two objects with the members of the second on top, or two arrays one after the other; the two
kinds do not mix. -/
def merge? : Json → Json → Option Json
  | .object ours, .object theirs => some (.object (Keyed.override ours theirs))
  | .array ours, .array theirs => some (.array (ours ++ theirs))
  | _, _ => none

/-- The member of an object. -/
def get? (key : String) : Json → Option Element
  | .object members => Keyed.get? key members
  | .array _ => none

def size : Json → Nat
  | .object members => members.length
  | .array elements => elements.length

end ReturnFlow.Json
