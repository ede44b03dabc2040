import ObserverRelay.Relay.Duration
import ObserverRelay.Text.Base64
import ObserverRelay.Url.Form
import ObserverRelay.Url.Parser
/-!
# Exchanges over HTTP

A request is sent, and what counts is the final reply to it, the one that is left when redirects
have been followed. How requests travel, which redirects are followed, and how failures are worded
is not the business of this library: it is a parameter, `Transport`. Such a transport says how an
exchange goes if nobody gives it up, and when. Whether it is given up is decided here, by the limit
that is set on it.
-/
namespace ObserverRelay.Net

open Relay (Duration)

/-- What a request asks for. -/
inductive Verb
  | get
  | post
  deriving DecidableEq, Repr

/-- The name of a verb. -/
def Verb.name : Verb → String
  | .get => "GET"
  | .post => "POST"

/-- A request as it goes out: the URL has neither user name nor password. -/
structure Request where
  verb : Verb
  url : Url
  authorization : Option String
  contentType : Option String
  body : Bytes
  deriving DecidableEq, Repr

/-- The text of a user name or a password with its escapes resolved. -/
def decoded? (s : String) : Option String := Bytes.text? (Url.percentDecode (Bytes.ofText s))

/-- User name and password that a URL brings along. A user name that is no text hides both. -/
def credentials? (u : Url) : Option (String × Option String) :=
  match u.authority with
  | none => none
  | some a =>
    match decoded? a.username with
    | none => none
    | some name =>
      let password := a.password.bind decoded?
      if name = "" ∧ password = none then none else some (name, password)

/-- The header that carries user name and password. -/
def basicAuthorization (c : String × Option String) : String :=
  let plain := Bytes.ofText (c.1 ++ ":" ++ c.2.getD "")
  "Basic " ++ Bytes.lossyText (Base64.encode plain)

/-- The request to a URL: user name and password go from the URL into a header. -/
def Request.to (verb : Verb) (u : Url) (contentType : Option String) (body : Bytes) : Request :=
  match credentials? u with
  | some c => ⟨verb, u.withoutUser, some (basicAuthorization c), contentType, body⟩
  | none => ⟨verb, u, none, contentType, body⟩

/-- The URL with pairs put to its query. A query that stays empty is left out. -/
def withPairs (u : Url) (pairs : List (String × String)) : Url :=
  let old := u.query.getD ""
  let new := Url.Form.encode pairs
  let query := if old = "" then new else if new = "" then old else old ++ "&" ++ new
  { u with query := if query = "" then none else some query }

/-- Whether a status says that the request was fulfilled. -/
def isSuccess (status : Nat) : Bool := 200 ≤ status && status ≤ 299

/-! ## The course of an exchange -/

/-- A status as it can be written in a reply. -/
def ThreeDigits (status : Nat) : Prop := 100 ≤ status ∧ status ≤ 999

instance (status : Nat) : Decidable (ThreeDigits status) :=
  inferInstanceAs (Decidable (_ ∧ _))

/-- The status of a reply. -/
structure Status where
  code : Nat
  threeDigits : ThreeDigits code := by decide
  deriving DecidableEq, Repr

/-- What becomes of a body that somebody waits for. The time counts from the head of the reply. -/
inductive Delivery
  | whole (took : Duration) (body : Bytes)
  /-- The body breaks off before its end. -/
  | broken (took : Duration) (reason : String)
  /-- The end of the body never comes. -/
  | stalls
  deriving DecidableEq, Repr

/-- How an exchange goes that nobody gives up. The time counts from its beginning, redirects
included. -/
inductive Course
  /-- There is no reply, and it is known that there will be none. -/
  | fails (took : Duration) (reason : String)
  /-- The head of the final reply comes. -/
  | replies (took : Duration) (status : Status) (delivery : Delivery)
  /-- Nothing ever comes. -/
  | stalls
  deriving DecidableEq, Repr

/-- How a body arrives. -/
inductive Arrival
  | whole (body : Bytes)
  | broken (reason : String)
  | late (reason : String)
  deriving DecidableEq, Repr

/-- What comes of an exchange in the end. -/
inductive Ending
  /-- There is no reply. -/
  | failed (reason : String)
  /-- There was none in time. -/
  | late (reason : String)
  /-- The head of the final reply has come, and the body too unless it is waited for without end. -/
  | answered (status : Nat) (body : Option Arrival)
  /-- The reply is waited for without end. -/
  | silent
  deriving DecidableEq, Repr

/-- Whether a limit, if there is one, has run out after some time. -/
def runsOut (limit : Option Duration) (took : Duration) : Bool :=
  limit.any fun l => l.millis ≤ took.millis

/-- How a body arrives under a limit, the reply to which it belongs having `begun` some time ago.
Without a limit it may never do. -/
def Delivery.under (limit : Option Duration) (begun : Duration) (lateBody : String) :
    Delivery → Option Arrival
  | whole took body =>
    some (if runsOut limit (begun + took) then .late lateBody else .whole body)
  | broken took reason =>
    some (if runsOut limit (begun + took) then .late lateBody else .broken reason)
  | stalls => limit.map fun _ => .late lateBody

/-- What comes of an exchange under a limit. -/
def Course.under (limit : Option Duration) (lateReply lateBody : String) : Course → Ending
  | fails took reason => if runsOut limit took then .late lateReply else .failed reason
  | replies took status delivery =>
    if runsOut limit took then .late lateReply
    else .answered status.code (delivery.under limit took lateBody)
  | stalls => if limit.isSome then .late lateReply else .silent

/-! ## Transports -/

/-- What carries requests to servers. Its state is all that it depends on. -/
class Transport (σ : Type) where
  /-- How an exchange goes that nobody gives up. -/
  course : σ → Request → Course
  /-- What is said of an exchange whose limit runs out before the reply. -/
  lateReply : σ → Request → String
  /-- What is said of an exchange whose limit runs out within the body of the reply. -/
  lateBody : σ → Request → String
  /-- The state after an exchange under a limit, and the requests that servers have received. -/
  settle : σ → Option Duration → Request → σ × List Request
  /-- Redirects come after the request. -/
  eq_of_mem_head? {n : σ} {limit : Option Duration} {request r : Request} :
    r ∈ (settle n limit request).2.head? → r = request
  /-- A redirect drops the body or keeps it as it is. -/
  body_of_post {n : σ} {limit : Option Duration} {request r : Request} :
    r ∈ (settle n limit request).2 → r.verb = .post → r.body = request.body

/-- What came of one request: how the exchange ended, the transport's state afterwards and the
requests that servers have received. -/
structure Exchange (σ : Type) where
  ending : Ending
  network : σ
  seen : List Request

/-- Sends a request and waits as long as the limit allows. -/
def Transport.send {σ : Type} [Transport σ] (n : σ) (limit : Option Duration) (request : Request) :
    Exchange σ where
  ending := (course n request).under limit (lateReply n request) (lateBody n request)
  network := (settle n limit request).1
  seen := (settle n limit request).2

end ObserverRelay.Net
