import ObserverRelay.Proofs.Json.Flattened
import ObserverRelay.Relay.Router
/-!
# The status that a node is made to report

From the proxy's status report every member is passed on, in its place and with its value, but
for three: the metrics change their name, two of them are set, and a `metrics` that stood beside
the old name is taken out. A body of any other form is an error of the relay.

## Main statements

* `fromValue_decoder_iff`: which values are reports.
* `reshaped_forNode`: what becomes of a report.
* `status_reshaped`: what the caller gets, for every body the proxy answers with.
-/
namespace ObserverRelay

open Json

namespace Relay

/-- The body is an object whose `data` is an object whose `status` is an object. -/
def Envelope (body : Bytes) (whole data status : Members) : Prop :=
  Value.parse body = .ok (.object whole) ∧ Members.get? "data" whole = some (.object data) ∧
    Members.get? "status" data = some (.object status)

/-- The metrics that are set whatever the proxy reports. -/
def placeholders : Members :=
  [("erd_app_version", .string "v1.2.3"), ("erd_public_key_block_sign", .string "abba")]

/-- The parts of a node's report that is made of a report of the proxy. -/
structure Reshaped (whole data status metrics beside rest : Members) : Prop where
  /-- Each metric in its place, the set ones with their values or at the end. -/
  metrics_eq : metrics = (status.map fun m => (m.1, (Members.get? m.1 placeholders).getD m.2)) ++
    placeholders.filter fun m => m.1 ∉ Members.names status
  beside_removed : Members.Removed "metrics" (data.filter fun m => m.1 ≠ "status") beside
  status_not_mem : "status" ∉ Members.names beside
  rest_eq : rest = whole.filter fun m => m.1 ≠ "data"
  distinct : (Value.object
    (("data", .object (("metrics", .object metrics) :: beside)) :: rest)).Distinct

namespace StatusReport

theorem fromValue_decoder_iff {outer inner key : String} {v : Value} {r : StatusReport} :
    (decoder outer inner key).fromValue v = .ok r ↔
      ∃ whole data metrics, v = .object whole ∧ Members.get? "data" whole = some (.object data) ∧
        Members.get? key data = some (.object metrics) ∧
        r = ⟨metrics, data.filter fun m => m.1 ≠ key, whole.filter fun m => m.1 ≠ "data"⟩ := by
  simp only [decoder, Decoder.map, Decoder.map_eq_ok_iff, Decoder.fromValue_withRest_iff]
  constructor
  · rintro ⟨_, ⟨whole, w, _, rfl, atData, ⟨data, u, metrics, rfl, atKey, found, rfl⟩, rfl⟩, rfl⟩
    obtain rfl := Decoder.fromValue_members_iff.mp found
    exact ⟨whole, data, metrics, rfl, atData, atKey, rfl⟩
  · rintro ⟨whole, data, metrics, rfl, atData, atKey, rfl⟩
    exact ⟨_, ⟨whole, _, _, rfl, atData,
      ⟨data, _, metrics, rfl, atKey, Decoder.fromValue_members_iff.mpr rfl, rfl⟩, rfl⟩, rfl⟩

theorem fromValue_proxyDecoder_iff {v : Value} {r : StatusReport} :
    proxyDecoder.fromValue v = .ok r ↔
      ∃ whole data status, v = .object whole ∧ Members.get? "data" whole = some (.object data) ∧
        Members.get? "status" data = some (.object status) ∧
        r = ⟨status, data.filter fun m => m.1 ≠ "status", whole.filter fun m => m.1 ≠ "data"⟩ :=
  fromValue_decoder_iff

/-- A report that is read is the one that the body's envelope holds. -/
theorem read_eq_ok_iff {url : String} {body : Bytes} {r : StatusReport} :
    read url body = .ok r ↔ ∃ whole data status, Envelope body whole data status ∧
      r = ⟨status, data.filter fun m => m.1 ≠ "status", whole.filter fun m => m.1 ≠ "data"⟩ := by
  constructor
  · intro h
    rw [read] at h
    split at h
    next => cases h
    next v parsed =>
      split at h
      next => cases h
      next report decoded =>
        cases h
        obtain ⟨whole, data, status, rfl, atData, atStatus, rfl⟩ :=
          fromValue_proxyDecoder_iff.mp decoded
        exact ⟨whole, data, status, ⟨parsed, atData, atStatus⟩, rfl⟩
  · rintro ⟨whole, data, status, ⟨parsed, atData, atStatus⟩, rfl⟩
    have decoded := fromValue_proxyDecoder_iff.mpr ⟨whole, data, status, rfl, atData, atStatus, rfl⟩
    simp only [read, parsed, decoded]

/-- A body that holds no report is an error of the relay itself. -/
theorem status_of_read_eq_error {url : String} {body : Bytes} {e : RelayError}
    (h : read url body = .error e) : e.status = 500 := by
  rw [read] at h
  split at h
  next =>
    cases h
    rfl
  next =>
    split at h
    next =>
      cases h
      rfl
    next => cases h

end StatusReport

theorem Envelope.distinct {body : Bytes} {whole data status : Members}
    (envelope : Envelope body whole data status) :
    (Value.object whole).Distinct ∧ (Value.object data).Distinct ∧ (Value.object status).Distinct := by
  obtain ⟨parsed, atData, atStatus⟩ := envelope
  have outer := distinct_of_parse parsed
  have inner := (Value.Distinct.object_iff.mp outer).2 _ (Members.mem_of_get? atData)
  exact ⟨outer, inner, (Value.Distinct.object_iff.mp inner).2 _ (Members.mem_of_get? atStatus)⟩

theorem not_mem_names_filter (name : String) (ms : Members) :
    name ∉ Members.names (ms.filter fun m => m.1 ≠ name) := by
  intro h
  obtain ⟨m, hm, same⟩ := List.mem_map.mp h
  simpa [same] using (List.mem_filter.mp hm).2

/-- What the report of a node is made of, given the proxy's. -/
theorem reshaped_forNode {body : Bytes} {whole data status : Members}
    (envelope : Envelope body whole data status) {r : StatusReport}
    (report : r = ⟨status, data.filter fun m => m.1 ≠ "status",
      whole.filter fun m => m.1 ≠ "data"⟩) :
    Reshaped whole data status r.forNode.metrics r.forNode.beside r.forNode.rest := by
  subst report
  obtain ⟨outer, inner, metrics⟩ := envelope.distinct
  have removed := Members.removed_remove "metrics" (data.filter fun m => m.1 ≠ "status")
  have besides := inner.filter fun m => m.1 ≠ "status"
  have names := List.nodup_cons.mp (removed.nodup (Value.Distinct.object_iff.mp besides).1)
  refine ⟨?_, removed, ?_, rfl, ?_⟩
  · have fixed : (Members.names placeholders).Nodup := by decide
    exact Members.assignAll_eq (Value.Distinct.object_iff.mp metrics).1 fixed
  · intro h
    obtain ⟨m, hm, same⟩ := List.mem_map.mp h
    have there := List.mem_map_of_mem (f := Prod.fst) (removed.mem hm)
    rw [same] at there
    exact not_mem_names_filter "status" data there
  · refine .cons (not_mem_names_filter "data" whole) ?_ (outer.filter _)
    refine .cons names.1 ?_ (removed.distinct besides)
    exact (metrics.assign _ (.string _)).assign _ (.string _)

/-- The status route asks the proxy for the status of the relay's shard. -/
theorem handle_status {σ : Type} {s : Settings} {proxy : Proxy σ} {state : σ} {request : Inbound}
    {answer : Answer} (method : request.method = "GET")
    (path : (splitTarget request.target).1 = "/node/status".toList)
    (answered : (proxy.ask state (.read (.networkStatus s.shard) [])).1 = .ok answer) :
    (Router.handle s proxy state request).1.response =
      Router.passStatus (proxy.describe (.networkStatus s.shard)) (.ok answer) := by
  have route : Route.ofPath? "/node/status".toList = some .status := by decide
  have noHead : ¬"GET" = "HEAD" := by decide
  have allowed : Route.status.methods.contains "GET" = true := by decide
  simp only [Router.handle, Router.plan, path, route, method, noHead, allowed, if_false, if_true,
    Router.planRoute, Plan.orReject, Plan.run, answered]

/-- Whatever body the proxy answers with, the caller of the status route gets 200 with the
reshaped report if the body holds one, and else 500 with an object whose only member is
`error`. -/
theorem status_reshaped {σ : Type} {s : Settings} {proxy : Proxy σ} {state : σ}
    {request : Inbound} {answer : Answer} (method : request.method = "GET")
    (path : (splitTarget request.target).1 = "/node/status".toList)
    (answered : (proxy.ask state (.read (.networkStatus s.shard) [])).1 = .ok answer) :
    ((Router.handle s proxy state request).1.response.status = 200 ↔
      ∃ whole data status, Envelope answer.body whole data status) ∧
    ((Router.handle s proxy state request).1.response.status ≠ 200 → ∃ reason,
      (Router.handle s proxy state request).1.response =
        .ofValue 500 (.object [("error", .string reason)])) ∧
    ∀ whole data status, Envelope answer.body whole data status → ∃ metrics beside rest,
      Reshaped whole data status metrics beside rest ∧
        (Router.handle s proxy state request).1.response = .ofValue 200
          (.object (("data", .object (("metrics", .object metrics) :: beside)) :: rest)) := by
  rw [handle_status method path answered]
  cases read : StatusReport.read (proxy.describe (.networkStatus s.shard)) answer.body with
  | error e =>
    have failed := StatusReport.status_of_read_eq_error read
    have none : ¬∃ whole data status, Envelope answer.body whole data status := by
      rintro ⟨whole, data, status, envelope⟩
      rw [StatusReport.read_eq_ok_iff.mpr ⟨whole, data, status, envelope, rfl⟩] at read
      cases read
    simp only [Router.passStatus, read, Response.ofError, failed]
    refine ⟨⟨fun h => ?_, fun h => absurd h none⟩, fun _ => ⟨e.message, rfl⟩, ?_⟩
    · cases h
    · exact fun whole data status envelope => absurd ⟨whole, data, status, envelope⟩ none
  | ok report =>
    obtain ⟨whole, data, status, envelope, parts⟩ := StatusReport.read_eq_ok_iff.mp read
    simp only [Router.passStatus, read]
    refine ⟨⟨fun _ => ⟨whole, data, status, envelope⟩, fun _ => rfl⟩, fun h => absurd rfl h, ?_⟩
    -- Envelopes of one body are the same, since both say what is read.
    intro whole' data' status' envelope'
    have parts' : report = ⟨status', data'.filter fun m => m.1 ≠ "status",
        whole'.filter fun m => m.1 ≠ "data"⟩ :=
      Except.ok.inj (read.symm.trans
        (StatusReport.read_eq_ok_iff.mpr ⟨whole', data', status', envelope', rfl⟩))
    exact ⟨_, _, _, reshaped_forNode envelope' parts', rfl⟩

/-- A report of the proxy with a repeated member, a `metrics` beside its metrics and one of the
set metrics among them. -/
def crowdedBody : Bytes :=
  Bytes.ofText ("\x7b\"code\":1,\"data\":\x7b\"metrics\":7,\"a\":[],\"status\":" ++
    "\x7b\"erd_public_key_block_sign\":0\x7d,\"b\":8\x7d,\"code\":2\x7d")

/-- A proxy that answers every call with the crowded report. -/
def crowdedProxy : Proxy Unit where
  describe _ := ""
  ask state _ := (.ok ⟨200, crowdedBody⟩, state)

/-- The crowded report reaches the caller with each member once. -/
theorem status_reshaped_crowded :
    ∃ metrics beside rest,
      Reshaped [("code", .ofNat 2), ("data", .object [("metrics", .ofNat 7), ("a", .array []),
          ("status", .object [("erd_public_key_block_sign", .ofNat 0)]), ("b", .ofNat 8)])]
        [("metrics", .ofNat 7), ("a", .array []),
          ("status", .object [("erd_public_key_block_sign", .ofNat 0)]), ("b", .ofNat 8)]
        [("erd_public_key_block_sign", .ofNat 0)] metrics beside rest ∧
      (Router.handle (.new "http://proxy" 0) crowdedProxy ()
        ⟨"GET", "/node/status", none, []⟩).1.response = .ofValue 200
          (.object (("data", .object (("metrics", .object metrics) :: beside)) :: rest)) := by
  have parsed : Value.parse crowdedBody = .ok (.object [("code", .ofNat 2),
      ("data", .object [("metrics", .ofNat 7), ("a", .array []),
        ("status", .object [("erd_public_key_block_sign", .ofNat 0)]), ("b", .ofNat 8)])]) := by
    decide +kernel
  have path : (splitTarget "/node/status").1 = "/node/status".toList := by decide
  exact (status_reshaped rfl path rfl).2.2 _ _ _ ⟨parsed, rfl, rfl⟩

end Relay

end ObserverRelay
