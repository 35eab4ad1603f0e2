import ReturnFlow.Element

/-!
HTTP responses: the facts that builder calls add, and the constants that stand for status codes and
media types.
-/

namespace ReturnFlow.Response

/-- A response of which nothing is known. -/
def empty : Response := ⟨[], [], [], [], []⟩

def ofStatus (status : Nat) : Response := { empty with statuses := [status] }

/-- The facts of both responses. -/
def merge (a b : Response) : Response where
  statuses := Sorted.union a.statuses b.statuses
  headers := Sorted.union a.headers b.headers
  contentTypes := Sorted.union a.contentTypes b.contentTypes
  entityTypes := Sorted.union a.entityTypes b.entityTypes
  inline := Sorted.union a.inline b.inline

/-- An integer as a status code, if it is in the range of status codes. -/
def status? (code : Int64) : Option Nat :=
  if 100 ≤ code.toInt ∧ code.toInt < 600 then some code.toInt.toNat else none

/-- Adds the integers among the values of an element that are status codes. -/
def addStatuses (r : Response) (codes : Element) : Response :=
  { r with statuses := Sorted.union r.statuses (codes.ints.filterMap status?) }

def addHeader (r : Response) (name : String) : Response :=
  { r with headers := Sorted.insert name r.headers }

/-- Adds the strings among the values of an element as header names. -/
def addHeaders (r : Response) (names : Element) : Response :=
  { r with headers := Sorted.union r.headers names.strings }

/-- Adds the strings among the values of an element as content types. -/
def addContentTypes (r : Response) (mediaTypes : Element) : Response :=
  { r with contentTypes := Sorted.union r.contentTypes mediaTypes.strings }

/-- Adds the types of a body, and its JSON structures. -/
def addEntity (r : Response) (entity : Element) : Response :=
  { r with
    entityTypes := Sorted.union r.entityTypes entity.types
    inline := Sorted.union r.inline entity.jsonValues }

/-! ## Constants -/

/-- The status code that a constant of the status enumeration stands for. -/
def statusCode? : String → Option Nat
  | "OK" => some 200
  | "CREATED" => some 201
  | "ACCEPTED" => some 202
  | "NO_CONTENT" => some 204
  | "RESET_CONTENT" => some 205
  | "PARTIAL_CONTENT" => some 206
  | "MOVED_PERMANENTLY" => some 301
  | "FOUND" => some 302
  | "SEE_OTHER" => some 303
  | "NOT_MODIFIED" => some 304
  | "USE_PROXY" => some 305
  | "TEMPORARY_REDIRECT" => some 307
  | "PERMANENT_REDIRECT" => some 308
  | "BAD_REQUEST" => some 400
  | "UNAUTHORIZED" => some 401
  | "PAYMENT_REQUIRED" => some 402
  | "FORBIDDEN" => some 403
  | "NOT_FOUND" => some 404
  | "METHOD_NOT_ALLOWED" => some 405
  | "NOT_ACCEPTABLE" => some 406
  | "PROXY_AUTHENTICATION_REQUIRED" => some 407
  | "REQUEST_TIMEOUT" => some 408
  | "CONFLICT" => some 409
  | "GONE" => some 410
  | "LENGTH_REQUIRED" => some 411
  | "PRECONDITION_FAILED" => some 412
  | "REQUEST_ENTITY_TOO_LARGE" => some 413
  | "REQUEST_URI_TOO_LONG" => some 414
  | "UNSUPPORTED_MEDIA_TYPE" => some 415
  | "REQUESTED_RANGE_NOT_SATISFIABLE" => some 416
  | "EXPECTATION_FAILED" => some 417
  | "PRECONDITION_REQUIRED" => some 428
  | "TOO_MANY_REQUESTS" => some 429
  | "REQUEST_HEADER_FIELDS_TOO_LARGE" => some 431
  | "UNAVAILABLE_FOR_LEGAL_REASONS" => some 451
  | "INTERNAL_SERVER_ERROR" => some 500
  | "NOT_IMPLEMENTED" => some 501
  | "BAD_GATEWAY" => some 502
  | "SERVICE_UNAVAILABLE" => some 503
  | "GATEWAY_TIMEOUT" => some 504
  | "HTTP_VERSION_NOT_SUPPORTED" => some 505
  | "NETWORK_AUTHENTICATION_REQUIRED" => some 511
  | _ => none

/-- The name of a media type constant without the mark of its parsed form. -/
def mediaTypeName (constant : String) : String :=
  let cs := constant.toList
  let mark := "_TYPE".toList
  if mark.isSuffixOf cs then String.ofList (cs.take (cs.length - mark.length)) else constant

/-- The media type that a constant stands for, in its textual or its parsed form. -/
def mediaType? (constant : String) : Option String :=
  match mediaTypeName constant with
  | "WILDCARD" => some "*/*"
  | "APPLICATION_XML" => some "application/xml"
  | "APPLICATION_ATOM_XML" => some "application/atom+xml"
  | "APPLICATION_XHTML_XML" => some "application/xhtml+xml"
  | "APPLICATION_SVG_XML" => some "application/svg+xml"
  | "APPLICATION_JSON" => some "application/json"
  | "APPLICATION_JSON_PATCH_JSON" => some "application/json-patch+json"
  | "APPLICATION_FORM_URLENCODED" => some "application/x-www-form-urlencoded"
  | "MULTIPART_FORM_DATA" => some "multipart/form-data"
  | "APPLICATION_OCTET_STREAM" => some "application/octet-stream"
  | "TEXT_PLAIN" => some "text/plain"
  | "TEXT_XML" => some "text/xml"
  | "TEXT_HTML" => some "text/html"
  | "SERVER_SENT_EVENTS" => some "text/event-stream"
  | _ => none

end ReturnFlow.Response
