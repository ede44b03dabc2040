import ObserverRelay.Json.Decoder
import ObserverRelay.Net.Exchange
/-!
# Nonces from the proxy

A source of nonces that asks the proxy for an account and takes the nonce out of its answer.
-/
namespace ObserverRelay.Chain

open Json Net Url
open Relay (Duration)

/-- Why the proxy brought no nonce. -/
inductive SourceError
  /-- The proxy could not be reached, did not answer in time, or broke off. -/
  | transport (url reason : String)
  /-- The proxy answered with a status outside 200 to 299. -/
  | badStatus (url : String) (status : Nat)
  /-- The answer holds no nonce. -/
  | unexpected (url reason : String)
  /-- No URL can be built for accounts. -/
  | badArgument (reason : String)
  deriving DecidableEq, Repr

/-- The wording of a failure. -/
def SourceError.message : SourceError → String
  | transport url reason => "proxy request to " ++ url ++ " failed: " ++ reason
  | badStatus url status => "proxy " ++ url ++ " returned HTTP " ++ toString status
  | unexpected url reason => "unexpected proxy response from " ++ url ++ ": " ++ reason
  | badArgument reason => "invalid argument: " ++ reason

/-- A source that asks the proxy under a URL, possibly with a limit on each exchange. -/
structure AccountSource where
  base : Url
  timeout : Option Duration
  deriving DecidableEq, Repr

namespace AccountSource

/-- The source for the URL of a proxy, slashes behind it aside. -/
def new [DomainNames] (proxyUrl : String) (timeout : Option Duration) :
    Except SourceError AccountSource :=
  match Url.parse (Text.trimTrailing '/' proxyUrl) with
  | .error fault => .error (.badArgument ("proxy url " ++ proxyUrl ++ ": " ++ fault.message))
  | .ok base =>
    if base.isOpaque then
      .error (.badArgument ("proxy url " ++ proxyUrl ++ " cannot carry a path"))
    else .ok ⟨base, timeout⟩

/-- The URL of an account. -/
def urlFor (source : AccountSource) (address : String) : Except SourceError Url :=
  match source.base.extend? ["address", address] with
  | some u => .ok u
  | none => .error (.badArgument source.base.text)

/-- A record of a single member, all others passed over. -/
def single {α : Type} (title name : String) (d : Decoder α) : Decoder α :=
  .record ⟨title, [.of name true id (fun a _ => some a) d], none, Decoder.need name⟩

/-- The nonce in the proxy's answer: `data.account.nonce`. -/
def nonceDecoder : Decoder UInt64 :=
  single "struct AccountEnvelope" "data" <|
    single "struct AccountData" "account" <|
      single "struct AccountRecord" "nonce" (Decoder.natural64.map Nat.toUInt64)

/-- The nonce that an exchange brought, unless it is waited for without end. -/
def judge (url : String) : Ending → Option (Except SourceError UInt64)
  | .failed reason | .late reason => some (.error (.transport url reason))
  | .silent => none
  | .answered status body =>
    if ¬isSuccess status then some (.error (.badStatus url status))
    else
      match body with
      | none => none
      | some (.broken reason) | some (.late reason) => some (.error (.transport url reason))
      | some (.whole bytes) =>
        match nonceDecoder.parse bytes with
        | .error fault => some (.error (.unexpected url (fault.message bytes)))
        | .ok n => some (.ok n)

/-- Sends a request under the source's limit. -/
def send {σ : Type} [Transport σ] (source : AccountSource) (n : σ) (request : Request) :
    Exchange σ :=
  Transport.send n source.timeout request

/-- Asks for the nonce of an account. There is no answer if what is missing never comes and there is
no limit. The last part holds the requests that were received. -/
def ask {σ : Type} [Transport σ] (source : AccountSource) (n : σ) (address : String) :
    Option (Except SourceError UInt64) × σ × List Request :=
  match source.urlFor address with
  | .error e => (some (.error e), n, [])
  | .ok u =>
    let x := source.send n (.to .get u none [])
    (judge u.text x.ending, x.network, x.seen)

end AccountSource

end ObserverRelay.Chain
