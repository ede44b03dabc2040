import ObserverRelay.Net.MediaType
import ObserverRelay.Relay.Proxy
import ObserverRelay.Relay.Route
/-!
# The router

A request becomes a plan: either the response is known at once, or one call to the proxy is
to be made, after a wait if it reads, and its answer turned into the response. `Router.handle`
carries a plan out with any proxy; nothing is kept from one request to the next.
-/
namespace ObserverRelay.Relay

open Json Net

/-- What is to be done for a request. -/
inductive Plan
  | respond (r : Response)
  | ask (wait : Duration) (call : Call) (finish : Except RelayError Answer → Response)

/-- What was done for a request. -/
structure Handled where
  response : Response
  waited : Duration
  calls : List Call
  deriving DecidableEq

namespace Plan

/-- Carries a plan out with a proxy. -/
def run {σ : Type} (proxy : Proxy σ) (s : σ) : Plan → Handled × σ
  | respond r => (⟨r, .zero, []⟩, s)
  | ask wait call finish =>
    let (answer, s) := proxy.ask s call
    (⟨finish answer, wait, [call]⟩, s)

/-- The plan with its response changed. -/
def mapResponse (f : Response → Response) : Plan → Plan
  | respond r => respond (f r)
  | ask wait call finish => ask wait call (f ∘ finish)

/-- The plan for a request that may be rejected. -/
def orReject : Except Rejection Plan → Plan
  | .ok p => p
  | .error r => respond r.response

end Plan

namespace Router

/-- A status that can be sent, or 502. -/
def sendableStatus (status : Nat) : Nat := if 100 ≤ status ∧ status ≤ 999 then status else 502

/-- The body of an answer passed on as it is. -/
def passBody : Except RelayError Answer → Response
  | .ok a => .json 200 a.body
  | .error e => .ofError e

/-- The body and status of an answer passed on as they are. -/
def passAnswer : Except RelayError Answer → Response
  | .ok a => .json (sendableStatus a.status) a.body
  | .error e => .ofError e

/-- The report of a node in place of the proxy's. -/
def passStatus (url : String) : Except RelayError Answer → Response
  | .ok a =>
    match StatusReport.read url a.body with
    | .ok report => .ofValue 200 report.forNode.toNodeValue
    | .error e => .ofError e
  | .error e => .ofError e

/-- The plan to read a resource and pass it on. -/
def passRead (s : Settings) (r : Resource) (query : List (String × String)) : Plan :=
  .ask s.delay (.read r query) passBody

/-- The value that a request's body holds. What follows it is not looked at. -/
def readBody (s : Settings) (request : Inbound) : Except Rejection Value :=
  if ¬MediaType.namesJson request.contentType then .error .notJsonType
  else if s.maxBody < request.body.length then .error .bodyTooLong
  else
    match Value.parseFront request.body with
    | .ok v => .ok v
    | .error fault =>
      let place := pathText fault.path
      let reason := fault.message request.body
      .error (.bodyNotJson (if place = "" then reason else place ++ ": " ++ reason))

/-- The state of the relay itself. -/
def health (s : Settings) : Response :=
  .ofValue 200 (.object
    [("status", .string "ok"), ("proxy", .string s.proxyUrl), ("shard", .ofNat s.shard)])

/-- The plan for a request to a route, its method aside. -/
def planRoute (s : Settings) (describe : Resource → String) (request : Inbound)
    (query : List (String × String)) : Route → Except Rejection Plan
  | .status =>
    let r := Resource.networkStatus s.shard
    .ok (.ask s.delay (.read r []) (passStatus (describe r)))
  | .epochStart raw => do
    let epoch ← readNumber "epoch" "u32" Numeral.bound32 raw
    return passRead s (.epochStart s.shard epoch) []
  | .blockByNonce raw => do
    let nonce ← readNumber "nonce" "u64" Numeral.bound64 raw
    return passRead s (.blockByNonce s.shard nonce) query
  | .accountToken rawAddress rawToken => do
    let address ← readParameter "address" rawAddress
    let token ← readParameter "token" rawToken
    return passRead s (.accountToken address token) query
  | .account raw => do
    let address ← readParameter "address" raw
    return passRead s (.account address) query
  | .send => do
    let body ← readBody s request
    return .ask .zero (.write .sendTransaction body) passAnswer
  | .health => .ok (.respond (health s))

/-- The plan for a request. -/
def plan (s : Settings) (describe : Resource → String) (request : Inbound) : Plan :=
  let (path, query) := splitTarget request.target
  let whole := match Route.ofPath? path with
    | none => .respond .notFound
    | some route =>
      if route.methods.contains request.method then
        .orReject (planRoute s describe request (readQuery query) route)
      else .respond (.notAllowed route.allow)
  if request.method = "HEAD" then whole.mapResponse Response.headOnly else whole

/-- Handles a request with a proxy. -/
def handle {σ : Type} (s : Settings) (proxy : Proxy σ) (state : σ) (request : Inbound) :
    Handled × σ :=
  (plan s proxy.describe request).run proxy state

/-- Handles requests one after the other. -/
def handleAll {σ : Type} (s : Settings) (proxy : Proxy σ) (state : σ) :
    List Inbound → List Handled × σ
  | [] => ([], state)
  | request :: rest =>
    let (h, state) := handle s proxy state request
    let (hs, state) := handleAll s proxy state rest
    (h :: hs, state)

end Router

end ObserverRelay.Relay
