import ReturnFlow.Response
import ReturnFlow.Rule.Basic

/-!
The response classes of REST services: response factories, the response builder, status constants
and entities wrapped with their generic type.

A builder call adds facts to every response that the builder may stand for; which facts depends
only on the method and its arguments (`builderDelta?`).
-/

namespace ReturnFlow.Rule.Rest

def ofResponses (type : String) (responses : List Response) : Element :=
  Element.ofValues type (responses.map .response)

def ofCodes (type : String) (codes : List Nat) : Element :=
  Element.ofValues type (codes.map fun code => .literal (.int (Int64.ofNat code)))

/-- The responses that an element may stand for; with none known, one without facts. -/
def responsesOrBlank (e : Element) : List Response :=
  match e.responses with
  | [] => [Response.empty]
  | found => found

/-- A response with its body, if there is one. -/
def withEntity (r : Response) (entity : Option Element) : Response :=
  entity.elim r r.addEntity

def withContentType (r : Response) (mediaType : Option Element) : Response :=
  mediaType.elim r r.addContentTypes

/-- The response that a static factory starts a builder with. -/
def fresh? (name : String) (args : List Element) : Option Response :=
  match name with
  | "status" => args.head?.map Response.empty.addStatuses
  | "ok" => some (withContentType (withEntity (.ofStatus 200) args.head?) args[1]?)
  | "created" => some ((Response.ofStatus 201).addHeader "Location")
  | "accepted" => some (withEntity (.ofStatus 202) args.head?)
  | "noContent" => some (.ofStatus 204)
  | "seeOther" => some ((Response.ofStatus 303).addHeader "Location")
  | "notModified" =>
    some (if args.isEmpty then .ofStatus 304 else (Response.ofStatus 304).addHeader "ETag")
  | "temporaryRedirect" => some ((Response.ofStatus 307).addHeader "Location")
  | "notAcceptable" => some ((Response.ofStatus 406).addHeader "Vary")
  | "serverError" => some (.ofStatus 500)
  | _ => none

/-- Static calls that start a builder, from nothing or from a response. -/
def factory? (c : Call) : Option Known :=
  if c.method.name = "fromResponse" then
    c.args.head?.map fun source =>
      .value (ofResponses c.method.returnType (responsesOrBlank source))
  else
    (fresh? c.method.name c.args).map fun r =>
      .value (.ofValue c.method.returnType (.response r))

/-- Calls on a finished response. -/
def response? (c : Call) (receiver : Element) : Option Known :=
  if c.method.name = "getStatus" then
    some (.value (ofCodes c.method.returnType (receiver.responses.flatMap Response.statuses)))
  else none

/-- The header that a builder method sets. -/
def headerOf? : String → Option String
  | "allow" => some "Allow"
  | "cacheControl" => some "Cache-Control"
  | "contentLocation" => some "Content-Location"
  | "cookie" => some "Set-Cookie"
  | "encoding" => some "Content-Encoding"
  | "expires" => some "Expires"
  | "language" => some "Content-Language"
  | "lastModified" => some "Last-Modified"
  | "link" => some "Link"
  | "links" => some "Link"
  | "location" => some "Location"
  | "tag" => some "ETag"
  | "variants" => some "Vary"
  | _ => none

/-- The facts that a builder call adds. -/
def builderDelta? (name : String) (args : List Element) : Option Response :=
  match name with
  | "status" => args.head?.map Response.empty.addStatuses
  | "entity" => args.head?.map Response.empty.addEntity
  | "type" => args.head?.map Response.empty.addContentTypes
  | "header" => args.head?.map Response.empty.addHeaders
  | "build" => some .empty
  | "clone" => some .empty
  | "variant" => some .empty
  | "replaceAll" => some .empty
  | name => (headerOf? name).map Response.empty.addHeader

/-- Calls on a response builder. All but the ones that hand out a new object change it. -/
def builder? (c : Call) (receiver : Element) : Option Known :=
  (builderDelta? c.method.name c.args).map fun delta =>
    let result := ofResponses c.method.returnType
      ((responsesOrBlank receiver).map fun r => r.merge delta)
    if c.method.name = "build" || c.method.name = "clone" then .value result else .update result

/-- Calls on status constants, which are held as their codes. -/
def status? (c : Call) : Option Known :=
  match c.method.name with
  | "getStatusCode" => c.receiver.map fun receiver => .value (receiver.retyped c.method.returnType)
  | "fromStatusCode" => c.args.head?.map fun code => .value (code.retyped c.method.returnType)
  | "valueOf" =>
    c.args.head?.map fun name =>
      .value (ofCodes c.method.returnType (name.strings.filterMap Response.statusCode?))
  | _ => none

/-- Calls on a wrapped entity, which stands for the entity itself. -/
def wrapped? (c : Call) (receiver : Element) : Option Known :=
  if c.method.isConstructor then c.args.head?.map .update
  else if c.method.name = "getEntity" then some (.value receiver)
  else none

/-- Calls on the response classes, given without their namespace. -/
def call? (className : String) (c : Call) : Option Known :=
  match className with
  | "ws/rs/core/Response" =>
    if c.method.isStatic then factory? c else c.receiver.bind (response? c)
  | "ws/rs/core/Response$ResponseBuilder" => c.receiver.bind (builder? c)
  | "ws/rs/core/Response$Status" => status? c
  | "ws/rs/core/GenericEntity" => c.receiver.bind (wrapped? c)
  | _ => none

/-- The constants of the response classes, given without their namespace. -/
def field? (className name type : String) : Option Element :=
  match className with
  | "ws/rs/core/Response$Status" =>
    (Response.statusCode? name).map fun code => .literal type (.int (Int64.ofNat code))
  | "ws/rs/core/MediaType" =>
    (Response.mediaType? name).map fun mediaType => .literal type (.string mediaType)
  | _ => none

end ReturnFlow.Rule.Rest
