import ObserverRelay.Proofs.Json.Completeness
import ObserverRelay.Proofs.Json.Productions
import ObserverRelay.Proofs.Relay.Passing
import ObserverRelay.Relay.Status
/-!
# The gate for the bodies that the proxy sends

A body that came whole is passed on if it is a JSON text, without being read. A status report is
read after that, by a reader that asks for more: strings that are text, numbers that are not too
large, nesting that is not too deep. What passes the gate is therefore the language of the
grammar, and the reader stays inside it.

## Main statements

* `isJson_of_parse`: what is read as a value is a JSON text.
* `gate_exact`: which bodies pass, and that a body passes unless the reader says it is no JSON.
-/
namespace ObserverRelay.Relay

open Json Net

/-- What is read as a value is a JSON text. -/
theorem isJson_of_parse {b : Bytes} {v : Value} (parsed : Value.parse b = .ok v) : IsJson b := by
  obtain ⟨d, spelled, -, -⟩ := parse_eq_ok_iff.mp parsed
  exact spelled.isJson

namespace Client

variable (url : String) (b : Bytes)

theorem judgeBody_whole_eq_ok_iff : judgeBody url (.whole b) = .ok b ↔ IsJson b := by
  rw [← checkDocument_eq_ok_iff, judgeBody]
  cases checkDocument b with
  | ok => exact iff_of_true rfl rfl
  | error fault => exact iff_of_false (by rintro ⟨⟩) (by rintro ⟨⟩)

/-- A whole body that does not pass is malformed. -/
theorem judgeBody_whole_eq_error_iff :
    (∃ reason, judgeBody url (.whole b) = .error (.malformed url reason)) ↔ ¬IsJson b := by
  rw [← checkDocument_eq_ok_iff, judgeBody]
  cases checkDocument b with
  | ok => exact iff_of_false (by rintro ⟨_, ⟨⟩⟩) (not_not.mpr rfl)
  | error fault => exact iff_of_true ⟨_, rfl⟩ (by rintro ⟨⟩)

end Client

/-- A body of which the reader of reports does not say that it is no JSON is a JSON text. -/
theorem StatusReport.malformed_or_isJson (url : String) (b : Bytes) :
    (∃ reason, read url b = .error (.malformed url reason)) ∨ IsJson b := by
  cases parsed : Value.parse b with
  | ok v => exact .inr (isJson_of_parse parsed)
  | error fault => exact .inl ⟨fault.message b, by rw [read, parsed]⟩

/-- The bodies that pass the gate are the JSON texts, the others are malformed, and a body passes
unless the reader of status reports calls it malformed too. -/
theorem gate_exact (url : String) (b : Bytes) :
    (Client.judgeBody url (.whole b) = .ok b ↔ JsonText b) ∧
      ((∃ reason, Client.judgeBody url (.whole b) = .error (.malformed url reason)) ↔ ¬JsonText b) ∧
      ∀ url', (∃ reason, StatusReport.read url' b = .error (.malformed url' reason)) ∨
        Client.judgeBody url (.whole b) = .ok b := by
  rw [← isJson_iff_jsonText, Client.judgeBody_whole_eq_ok_iff, Client.judgeBody_whole_eq_error_iff]
  exact ⟨Iff.rfl, Iff.rfl, fun url' => StatusReport.malformed_or_isJson url' b⟩

end ObserverRelay.Relay
