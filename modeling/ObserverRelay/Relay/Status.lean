import ObserverRelay.Json.Decoder
import ObserverRelay.Json.Printer
import ObserverRelay.Relay.Error
/-!
# The status of the network, as a node reports it

The proxy reports the metrics of a shard under `data.status`; a node reports its own under
`data.metrics` and has two more of them, for which the relay gives fixed values. All other
members of both objects are passed on in their order, except a `metrics` that stands beside
`status`: it makes place for the new one.
-/
namespace ObserverRelay.Relay

open Json

/-- The version of the software that the relay reports. -/
def reportedVersion : String := "v1.2.3"

/-- The key for signing blocks that the relay reports. -/
def reportedKey : String := "abba"

/-- The metric with the version. -/
def versionMetric : String := "erd_app_version"

/-- The metric with the key. -/
def keyMetric : String := "erd_public_key_block_sign"

/-- A status report: its metrics, the members beside them, and the members beside `data`. -/
structure StatusReport where
  metrics : Members
  beside : Members
  rest : Members

namespace StatusReport

/-- A decoder of reports whose metrics stand under `key`; the titles name both objects. -/
def decoder (outer inner key : String) : Decoder StatusReport :=
  (Decoder.withRest outer "data" (Decoder.withRest inner key Decoder.members)).map
    fun r => ⟨r.1.1, r.1.2, r.2⟩

/-- Reports as the proxy writes them. -/
def proxyDecoder : Decoder StatusReport :=
  decoder "struct ProxyStatusEnvelope" "struct ProxyStatusData" "status"

/-- Reports as a node writes them. -/
def nodeDecoder : Decoder StatusReport :=
  decoder "struct NodeStatusEnvelope" "struct NodeStatusData" "metrics"

/-- A report with its metrics under `key`. -/
def toValue (key : String) (r : StatusReport) : Value :=
  .object (("data", .object ((key, .object r.metrics) :: r.beside)) :: r.rest)

/-- A report as the proxy writes it. -/
def toProxyValue (r : StatusReport) : Value := r.toValue "status"

/-- A report as a node writes it. -/
def toNodeValue (r : StatusReport) : Value := r.toValue "metrics"

/-- The proxy's report that a body holds. A body that is no JSON is told apart from one of
another form. -/
def read (url : String) (body : Bytes) : Except RelayError StatusReport :=
  match Value.parse body with
  | .error fault => .error (.malformed url (fault.message body))
  | .ok value =>
    match proxyDecoder.fromValue value with
    | .error cause => .error (.unexpectedShape (url ++ ": " ++ cause.message))
    | .ok report => .ok report

/-- The proxy's report turned into a node's: the two fixed metrics are put in, and a `metrics`
beside them is taken out. -/
def forNode (r : StatusReport) : StatusReport where
  metrics := Members.assign keyMetric (.string reportedKey)
    (Members.assign versionMetric (.string reportedVersion) r.metrics)
  beside := Members.remove "metrics" r.beside
  rest := r.rest

end StatusReport

end ObserverRelay.Relay
