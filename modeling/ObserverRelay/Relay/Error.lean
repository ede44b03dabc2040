/-!
# What goes wrong with a relayed request

The failures of an exchange with the proxy, their wording, and the HTTP status the caller
sees: every failure is the relay's own, 504 when the proxy took too long and else 500.
-/
namespace ObserverRelay.Relay

/-- A failure to relay a request. -/
inductive RelayError
  /-- The proxy could not be reached, or the exchange broke off. -/
  | transport (url reason : String)
  /-- The proxy did not answer in time. -/
  | timeout (url : String)
  /-- The proxy answered a request to read with a status outside 200 to 299. -/
  | badStatus (url : String) (status : Nat)
  /-- The proxy's answer is not JSON. -/
  | malformed (url reason : String)
  /-- The proxy's answer is JSON but not of the needed form. -/
  | unexpectedShape (text : String)
  /-- No URL can be built for the resource. -/
  | badUrl (text : String)
  deriving DecidableEq, Repr

namespace RelayError

/-- The wording of a failure. -/
def message : RelayError → String
  | transport url reason => "upstream request to " ++ url ++ " failed: " ++ reason
  | timeout url => "upstream request to " ++ url ++ " timed out"
  | badStatus url status => "upstream " ++ url ++ " returned HTTP " ++ toString status
  | malformed url reason => "upstream " ++ url ++ " returned malformed JSON: " ++ reason
  | unexpectedShape text => "unexpected upstream response shape: " ++ text
  | badUrl text => "invalid upstream URL: " ++ text

/-- The status the caller sees. -/
def status : RelayError → Nat
  | timeout _ => 504
  | _ => 500

@[simp] theorem status_eq_504_iff (e : RelayError) : e.status = 504 ↔ ∃ url, e = timeout url := by
  cases e <;> simp [status]

end RelayError

end ObserverRelay.Relay
