import ReturnFlow.Json
import ReturnFlow.Rule.Basic

/-!
The JSON builders: their factories, the object builder and the array builder.

A builder that may hold several structures is followed along all of them. A builder of which
nothing is known starts out empty.
-/

namespace ReturnFlow.Rule.JsonBuilder

/-- The JSON structures of one kind that an element may be, or an empty one. -/
def initial (isKind : Json → Bool) (blank : Json) (source : Option Element) : List Json :=
  match (source.elim [] Element.jsonValues).filter isKind with
  | [] => [blank]
  | found => found

def objects (source : Option Element) : List Json :=
  initial Json.isObject Json.emptyObject source

def arrays (source : Option Element) : List Json :=
  initial Json.isArray Json.emptyArray source

/-- The constant `null`. -/
def nullElement : Element := .literal Descriptor.object .null

def ofJson (type : String) (structures : List Json) : Element :=
  Element.ofValues type (structures.map .json)

/-- Calls that make builders and values. -/
def factory? (c : Call) : Option Known :=
  match c.method.name with
  | "createObjectBuilder" => some (.value (ofJson c.method.returnType (objects c.args.head?)))
  | "createArrayBuilder" => some (.value (ofJson c.method.returnType (arrays c.args.head?)))
  | "createValue" =>
    c.args.head?.map fun arg =>
      .value (Element.ofValues c.method.returnType (arg.literals.map .literal))
  | _ => none

/-- Every object with the member set under every possible key; an unknown key adds nothing. -/
def withMembers (objects : List Json) (key value : Element) : List Json :=
  match key.strings with
  | [] => objects
  | keys => objects.flatMap fun object => keys.map fun k => object.withMember k value

/-- Every structure merged with every possible one of its kind. -/
def mergedWith (structures : List Json) (other : Element) : List Json :=
  structures.flatMap fun s => other.jsonValues.filterMap s.merge?

/-- Every object without any of the possible keys. -/
def withoutMembers (objects : List Json) (key : Element) : List Json :=
  objects.map fun object => key.strings.foldl (fun o k => o.withoutMember k) object

/-- The answer of a builder call that may have produced the given structures. With none of them
the builder stays what it was. -/
def finish (c : Call) (receiver : Element) (updated : List Json) : Known :=
  let result :=
    if updated.isEmpty then receiver.retyped c.method.returnType
    else ofJson c.method.returnType updated
  if c.method.name = "build" then .value result else .update result

/-- What an object builder may hold after a call. -/
def objectStep? (name : String) (objects : List Json) (args : List Element) :
    Option (List Json) :=
  match name, args with
  | "add", key :: value :: _ => some (withMembers objects key value)
  | "addNull", key :: _ => some (withMembers objects key nullElement)
  | "addAll", other :: _ => some (mergedWith objects other)
  | "remove", key :: _ => some (withoutMembers objects key)
  | "build", _ => some objects
  | _, _ => none

/-- What an array builder may hold after a call. The value to add is the last argument, after an
optional index. -/
def arrayStep? (name : String) (arrays : List Json) (args : List Element) :
    Option (List Json) :=
  match name with
  | "add" => args.getLast?.map fun value => arrays.map (Json.withElement value)
  | "addNull" => some (arrays.map (Json.withElement nullElement))
  | "addAll" => args.head?.map (mergedWith arrays)
  | "set" => some arrays
  | "remove" => some arrays
  | "build" => some arrays
  | _ => none

/-- Calls on the JSON classes, given without their namespace. -/
def call? (className : String) (c : Call) : Option Known :=
  match className with
  | "json/Json" => factory? c
  | "json/JsonBuilderFactory" => factory? c
  | "json/JsonObjectBuilder" =>
    c.receiver.bind fun receiver =>
      (objectStep? c.method.name (objects receiver) c.args).map (finish c receiver)
  | "json/JsonArrayBuilder" =>
    c.receiver.bind fun receiver =>
      (arrayStep? c.method.name (arrays receiver) c.args).map (finish c receiver)
  | _ => none

end ReturnFlow.Rule.JsonBuilder
