import ObserverRelay.Net.Exchange
/-!
# Networks

Transports for a machine whose network is known beforehand: either there is none, or it plays a
list of courses, one for each request that goes out.
-/
namespace ObserverRelay.Net

open Relay (Duration)

/-- A network: unreachable, or one with the courses it has left. When none is left it is silent. -/
inductive Network
  | unreachable
  | scripted (courses : List Course)
  deriving DecidableEq, Repr

/-- A character that a host on the wire may not hold although a URL may. -/
def isUnsendable (c : Char) : Bool := ['"', '\x60', '\x7b', '\x7d'].contains c

/-- The longest URL that can be sent, in octets. -/
def maxUrlLength : Nat := 65534

/-- Whether a request to the URL can be written down at all. -/
def canSend (u : Url) : Bool :=
  (u.scheme == "http" || u.scheme == "https") &&
    (Bytes.ofText u.text).length ≤ maxUrlLength &&
    match u.authority with
    | some a => !a.hostChars.any isUnsendable
    | none => false

/-- The reason of a failure at a URL. -/
def reasonAt (what : String) (u : Url) : String := what ++ " for url (" ++ u.text ++ ")"

/-- What is said when no reply comes. -/
def noReply : String := "error sending request"

/-- What is said when a body does not come whole. -/
def brokenBody : String := "error decoding response body"

namespace Network

/-- How an exchange goes. -/
def course (n : Network) (request : Request) : Course :=
  if ¬canSend request.url then .fails .zero (reasonAt "builder error" request.url)
  else
    match n with
    | unreachable => .fails .zero (reasonAt noReply request.url)
    | scripted [] => .stalls
    | scripted (c :: _) => c

/-- What is left of a network after a request, and whether it was received. -/
def settle (n : Network) (request : Request) : Network × List Request :=
  if ¬canSend request.url then (n, [])
  else
    match n with
    | unreachable => (unreachable, [])
    | scripted courses => (scripted courses.tail, [request])

theorem eq_of_mem_settle {n : Network} {request r : Request} (seen : r ∈ (n.settle request).2) :
    r = request := by
  unfold settle at seen
  split at seen
  next => cases seen
  next =>
    split at seen
    next => cases seen
    next => exact List.mem_singleton.mp seen

instance : Transport Network where
  course := course
  lateReply _ request := reasonAt noReply request.url
  lateBody _ _ := brokenBody
  settle n _ request := n.settle request
  eq_of_mem_head? first := eq_of_mem_settle (List.mem_of_mem_head? first)
  body_of_post seen _ := by rw [eq_of_mem_settle seen]

end Network

end ObserverRelay.Net
