import ReturnFlow.Rule.Boxing
import ReturnFlow.Rule.JsonBuilder
import ReturnFlow.Rule.Rest

/-!
The built-in rules as a whole: which family of rules a call or a static field belongs to.

The two API namespaces are treated alike, since the rules see class names without them.
-/

namespace ReturnFlow.Rule

/-- Does a class name begin with a package? -/
def isIn (package name : String) : Bool :=
  package.toList.isPrefixOf name.toList

/-- What a built-in rule answers to a call. -/
def call? (c : Call) : Option Known :=
  match Descriptor.apiName? c.method.owner with
  | some name =>
    if isIn "ws/rs/" name then Rest.call? name c
    else if isIn "json/" name then JsonBuilder.call? name c
    else none
  | none => Boxing.call? c

/-- Calls one after the other, each on the result of the last one that a rule settled. -/
def chain (receiver : Option Element) : List (Method × List Element) → List (Option Known)
  | [] => []
  | (m, args) :: rest =>
    let known := call? ⟨m, receiver, args⟩
    known :: chain (known.elim receiver fun k => some k.result) rest

/-- The value of a static field that stands for a known constant. -/
def field? (owner name type : String) : Option Element :=
  (Descriptor.apiName? (Descriptor.ownerName owner)).bind fun className =>
    Rest.field? className name type

end ReturnFlow.Rule
