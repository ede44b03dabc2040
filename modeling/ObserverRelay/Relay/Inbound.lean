import ObserverRelay.Json.Printer
import ObserverRelay.Relay.Error
import ObserverRelay.Text.Bytes
import ObserverRelay.Text.Quoted
/-!
# Requests to the relay and its responses

What a caller sends, and what it gets back. Every response carries a fresh request id besides
what is listed here.
-/
namespace ObserverRelay.Relay

/-- A request that reaches the relay. -/
structure Inbound where
  method : String
  /-- The target of the request: a path with a query, or a whole URL. -/
  target : String
  contentType : Option String
  body : Bytes
  deriving DecidableEq, Repr

/-- What a caller gets back. -/
structure Response where
  status : Nat
  contentType : Option String
  allow : Option String
  body : Bytes
  deriving DecidableEq, Repr

namespace Response

/-- The media type of JSON. -/
def jsonType : String := "application/json"

/-- The media type of messages in plain words. -/
def plainType : String := "text/plain; charset=utf-8"

/-- A body that is JSON already. -/
def json (status : Nat) (body : Bytes) : Response := ⟨status, some jsonType, none, body⟩

/-- A value written as the body. -/
def ofValue (status : Nat) (v : Json.Value) : Response := json status (Bytes.ofText v.render)

/-- A message in plain words. -/
def plain (status : Nat) (message : String) : Response :=
  ⟨status, some plainType, none, Bytes.ofText message⟩

/-- No such path. -/
def notFound : Response := ⟨404, none, none, []⟩

/-- The path is there, but not for this method. -/
def notAllowed (allow : String) : Response := ⟨405, none, some allow, []⟩

/-- A failure to relay, as an object with the single member `error`. -/
def ofError (e : RelayError) : Response :=
  ofValue e.status (.object [("error", .string e.message)])

/-- The response without its body. -/
def headOnly (r : Response) : Response := { r with body := [] }

end Response

/-- Why a request is refused before the proxy is asked. -/
inductive Rejection
  /-- A part of the path is not UTF-8 once its escapes are resolved. -/
  | pathNotText (parameter : String)
  /-- A part of the path is no number of the given type. -/
  | pathNotNumber (text type : String)
  | notJsonType
  | bodyTooLong
  | bodyNotJson (reason : String)
  deriving DecidableEq, Repr

namespace Rejection

/-- The status of a rejection. -/
def status : Rejection → Nat
  | pathNotText _ => 400
  | pathNotNumber _ _ => 400
  | notJsonType => 415
  | bodyTooLong => 413
  | bodyNotJson _ => 400

/-- The wording of a rejection. -/
def message : Rejection → String
  | pathNotText p => "Invalid URL: Invalid UTF-8 in `" ++ p ++ "`"
  | pathNotNumber text type =>
    "Invalid URL: Cannot parse `" ++ Text.quoted text ++ "` to a `" ++ type ++ "`"
  | notJsonType => "Expected request with `Content-Type: application/json`"
  | bodyTooLong => "Failed to buffer the request body: length limit exceeded"
  | bodyNotJson reason => "Failed to parse the request body as JSON: " ++ reason

/-- The response to a rejected request. -/
def response (r : Rejection) : Response := .plain r.status r.message

end Rejection

end ObserverRelay.Relay
