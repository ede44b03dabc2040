import ObserverRelay.Json.Printer
import ObserverRelay.Net.Exchange
import ObserverRelay.Relay.Resource
import ObserverRelay.Relay.Settings
import ObserverRelay.Relay.Status
/-!
# The proxy, as the relay asks it

A call reads or writes one resource. `Client` turns a call into an exchange over HTTP and
judges how it ended: a body is passed on only if it came whole and is JSON, and a reading only
if its status says success.
-/
namespace ObserverRelay.Relay

open Json Net

/-- A call to the proxy. -/
inductive Call
  | read (resource : Resource) (query : List (String × String))
  | write (resource : Resource) (body : Value)
  deriving DecidableEq

/-- What the proxy answers to a call. -/
structure Answer where
  status : Nat
  body : Bytes
  deriving DecidableEq, Repr

/-- Anything that answers calls: it names the URL of a resource, and its state changes with
every call. -/
structure Proxy (σ : Type) where
  describe : Resource → String
  ask : σ → Call → Except RelayError Answer × σ

/-- A client for the proxy of checked settings, possibly with a limit on each exchange. -/
structure Client where
  base : Url
  timeout : Option Duration
  deriving DecidableEq, Repr

namespace Client

/-- The client for the URL of some settings; the refusal names that URL. -/
def new [Url.DomainNames] (s : Settings) : Except String Client :=
  match Url.parse s.proxyUrl with
  | .ok base => .ok ⟨base, s.timeout⟩
  | .error fault => .error (s.proxyUrl ++ ": " ++ fault.message)

/-- The URL of a resource: the base with the resource's segments put to its path. -/
def urlFor (c : Client) (r : Resource) : Except RelayError Url :=
  match c.base.extend? r.segments with
  | some u => .ok u
  | none => .error (.badUrl c.base.text)

/-- The URL of a resource as text, even where none can be built. -/
def describe (c : Client) (r : Resource) : String :=
  match c.urlFor r with
  | .ok u => u.text
  | .error _ => c.base.text ++ "/" ++ r.display

/-- The body that arrived, if it is JSON. -/
def judgeBody (url : String) : Arrival → Except RelayError Bytes
  | .broken reason => .error (.transport url reason)
  | .late _ => .error (.timeout url)
  | .whole body =>
    match checkDocument body with
    | .ok () => .ok body
    | .error fault => .error (.malformed url (fault.message body))

/-- The answer that an exchange brought, unless it is waited for without end. The status is judged
before the body, and only where success is wanted. -/
def judge (url : String) (wantSuccess : Bool) : Ending → Option (Except RelayError Answer)
  | .failed reason => some (.error (.transport url reason))
  | .late _ => some (.error (.timeout url))
  | .silent => none
  | .answered status body =>
    if wantSuccess && !isSuccess status then some (.error (.badStatus url status))
    else
      match body with
      | none => none
      | some arrival =>
        match judgeBody url arrival with
        | .error e => some (.error e)
        | .ok bytes => some (.ok ⟨status, bytes⟩)

/-- The request of a call to a URL. -/
def request (u : Url) : Call → Request
  | .read _ query => .to .get (withPairs u query) none []
  | .write _ body => .to .post u (some "application/json") (Bytes.ofText body.render)

/-- The resource of a call. -/
def resource : Call → Resource
  | .read r _ => r
  | .write r _ => r

/-- Whether a call is fulfilled by success alone. -/
def wantsSuccess : Call → Bool
  | .read .. => true
  | .write .. => false

/-- Sends a request under the client's limit. -/
def send {σ : Type} [Transport σ] (c : Client) (n : σ) (request : Request) : Exchange σ :=
  Transport.send n c.timeout request

/-- Makes a call. There is no answer if what is missing never comes and there is no limit. The last
part holds the requests that were received. -/
def ask {σ : Type} [Transport σ] (c : Client) (n : σ) (call : Call) :
    Option (Except RelayError Answer) × σ × List Request :=
  match c.urlFor (resource call) with
  | .error e => (some (.error e), n, [])
  | .ok u =>
    let x := c.send n (request u call)
    (judge u.text (wantsSuccess call) x.ending, x.network, x.seen)

end Client

end ObserverRelay.Relay
