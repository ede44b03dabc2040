import ObserverRelay.Relay.Inbound
import ObserverRelay.Text.Numeral
import ObserverRelay.Url.Form
/-!
# Routes of an observer node

The paths under which a node answers. A path is cut at its slashes before any escape is
resolved, so an escaped slash never changes the route. What is behind the last slash must not be
empty, but a parameter in the middle may be.
-/
namespace ObserverRelay.Relay

/-- A route with the raw parts that stand for its parameters. -/
inductive Route
  | status
  | epochStart (epoch : String)
  | blockByNonce (nonce : String)
  | accountToken (address token : String)
  | account (address : String)
  | send
  | health
  deriving DecidableEq, Repr

namespace Route

/-- The route of a path that is cut at its slashes. -/
def ofParts? : List String → Option Route
  | ["", "node", "status"] => some status
  | ["", "node", "epoch-start", e] => if e = "" then none else some (epochStart e)
  | ["", "block", "by-nonce", n] => if n = "" then none else some (blockByNonce n)
  | ["", "address", a, "esdt", t] => if t = "" then none else some (accountToken a t)
  | ["", "address", a] => if a = "" then none else some (account a)
  | ["", "transaction", "send"] => some send
  | ["", "health"] => some health
  | _ => none

/-- The route of a path. -/
def ofPath? (path : List Char) : Option Route :=
  ofParts? ((Text.splitOnMember '/' path).map String.ofList)

/-- The methods that a route allows. -/
def methods : Route → List String
  | send => ["POST"]
  | _ => ["GET", "HEAD"]

/-- The methods as the header names them. -/
def allow (r : Route) : String := Text.joinWith "," r.methods

end Route

/-- The path and the query of a request's target. A fragment is dropped, and so are scheme
and host of a whole URL. -/
def splitTarget (target : String) : List Char × Option (List Char) :=
  let cs := target.toList.takeWhile (· ≠ '#')
  let isSchemeChar (c : Char) : Bool := c.isAlphanum || c == '+' || c == '-' || c == '.'
  let isPathStart (c : Char) : Bool := c == '/' || c == '?'
  let inside := match cs.dropWhile isSchemeChar with
    | ':' :: '/' :: '/' :: rest => rest.dropWhile fun c => !isPathStart c
    | _ => cs
  let path := inside.takeWhile (· ≠ '?')
  match inside.dropWhile (· ≠ '?') with
  | _ :: query => (path, some query)
  | [] => (path, none)

/-- The text of a part of a path with its escapes resolved. -/
def readParameter (name raw : String) : Except Rejection String :=
  match Bytes.text? (Url.percentDecode (Bytes.ofText raw)) with
  | some text => .ok text
  | none => .error (.pathNotText name)

/-- The number that a part of a path names; the type gives its bound. -/
def readNumber (name type : String) (bound : Nat) (raw : String) : Except Rejection Nat :=
  match readParameter name raw with
  | .error e => .error e
  | .ok text =>
    match Numeral.read bound text with
    | .ok n => .ok n
    | .error _ => .error (.pathNotNumber text type)

/-- The pairs of a request's query. -/
def readQuery (query : Option (List Char)) : List (String × String) :=
  Url.Form.decode (Bytes.ofText (String.ofList (query.getD [])))

end ObserverRelay.Relay
