import ObserverRelay.Proofs.Json.Completeness
import ObserverRelay.Proofs.Net.MediaTypes
import ObserverRelay.Proofs.Relay.Dispatch
import ObserverRelay.Proofs.Relay.Forwarding
/-!
# Which bodies of transactions are admitted

A body is judged by its media type, then by its length, then by what it says. The first fault
decides the answer, and the proxy is not asked. A body without a fault is sent on by one call, that
of the greatest length included.

## Main statements

* `readBody_eq_ok_iff`: the bodies from which a value is read.
* `bodies_admitted`: what is answered to each fault, and what is sent on.
-/
namespace ObserverRelay.Relay

open Json Net

/-- The body is said to be JSON. -/
def Inbound.SaysJson (request : Inbound) : Prop :=
  ∃ text, request.contentType = some text ∧ MediaType.IsJsonType text

/-- A document that means the value stands at the front of the octets, white space aside, and is not
nested too deep. -/
def BeginsWith (body : Bytes) (v : Value) : Prop :=
  ∃ d t, DocumentAt TextAt body d t ∧ Means Becomes d v ∧ d.Within maxDepth

/-- The octets are a document that means the value. -/
def IsTextOf (body : Bytes) (v : Value) : Prop :=
  ∃ d, Spells TextAt body d ∧ Means Becomes d v ∧ d.Within maxDepth

theorem IsTextOf.beginsWith {body : Bytes} {v : Value} (text : IsTextOf body v) :
    BeginsWith body v := by
  obtain ⟨d, ⟨t, document, -⟩, means⟩ := text
  exact ⟨d, t, document, means⟩

section Reading
variable {s : Settings} {request : Inbound}

theorem readBody_of_not_saysJson (notJson : ¬request.SaysJson) :
    Router.readBody s request = .error .notJsonType := by
  rw [Router.readBody, if_pos (mt MediaType.namesJson_iff.mp notJson)]

theorem readBody_of_tooLong (json : request.SaysJson) (tooLong : s.maxBody < request.body.length) :
    Router.readBody s request = .error .bodyTooLong := by
  rw [Router.readBody, if_neg (not_not.mpr (MediaType.namesJson_iff.mpr json)), if_pos tooLong]

theorem readBody_of_ok {v : Value} (json : request.SaysJson)
    (fits : request.body.length ≤ s.maxBody) (front : BeginsWith request.body v) :
    Router.readBody s request = .ok v := by
  rw [Router.readBody, if_neg (not_not.mpr (MediaType.namesJson_iff.mpr json)),
    if_neg (Nat.not_lt.mpr fits), parseFront_eq_ok_iff.mpr front]

theorem readBody_of_no_value (json : request.SaysJson) (fits : request.body.length ≤ s.maxBody)
    (none : ¬∃ v, BeginsWith request.body v) :
    ∃ reason, Router.readBody s request = .error (.bodyNotJson reason) := by
  rw [Router.readBody, if_neg (not_not.mpr (MediaType.namesJson_iff.mpr json)),
    if_neg (Nat.not_lt.mpr fits)]
  cases read : Value.parseFront request.body with
  | ok v => exact absurd ⟨v, parseFront_eq_ok_iff.mp read⟩ none
  | error e => exact ⟨_, rfl⟩

/-- What is read is what the body begins with. -/
theorem readBody_eq_ok_iff {v : Value} :
    Router.readBody s request = .ok v ↔
      request.SaysJson ∧ request.body.length ≤ s.maxBody ∧ BeginsWith request.body v := by
  constructor
  · intro read
    by_cases json : request.SaysJson
    · by_cases fits : request.body.length ≤ s.maxBody
      · by_cases some : ∃ w, BeginsWith request.body w
        · obtain ⟨w, front⟩ := some
          obtain rfl := Except.ok.inj ((readBody_of_ok json fits front).symm.trans read)
          exact ⟨json, fits, front⟩
        · obtain ⟨reason, refused⟩ := readBody_of_no_value json fits some
          cases refused.symm.trans read
      · cases (readBody_of_tooLong json (Nat.not_le.mp fits)).symm.trans read
    · cases (readBody_of_not_saysJson json).symm.trans read
  · rintro ⟨json, fits, front⟩
    exact readBody_of_ok json fits front

end Reading

/-- What becomes of a request to send a transaction. -/
structure Admission {σ : Type} (s : Settings) (proxy : Proxy σ) (state : σ) (request : Inbound) :
    Prop where
  notJson : ¬request.SaysJson → TurnedAway s proxy state request 415
  tooLong : request.SaysJson → s.maxBody < request.body.length →
    TurnedAway s proxy state request 413
  noValue : request.SaysJson → request.body.length ≤ s.maxBody →
    (¬∃ v, BeginsWith request.body v) → TurnedAway s proxy state request 400
  sentOn : request.SaysJson → request.body.length ≤ s.maxBody → ∀ v, BeginsWith request.body v →
    (Router.handle s proxy state request).1.calls = [.write .sendTransaction v]
  document : request.SaysJson → request.body.length ≤ s.maxBody → ∀ v, IsTextOf request.body v →
    (Router.handle s proxy state request).1.calls = [.write .sendTransaction v]

/-- Whatever the limit, the type and the body are: of several faults the type counts before the
length, and the length before what the body says. A body without a fault is sent on by one call. -/
theorem bodies_admitted {σ : Type} (s : Settings) (proxy : Proxy σ) (state : σ) {request : Inbound}
    (method : request.method = "POST") (here : Route.At request.path .send) :
    Admission s proxy state request := by
  have sentOn (json : request.SaysJson) (fits : request.body.length ≤ s.maxBody) (v : Value)
      (front : BeginsWith request.body v) :
      (Router.handle s proxy state request).1.calls = [.write .sendTransaction v] :=
    calls_of_asks here method (.send (readBody_of_ok json fits front))
  refine ⟨fun notJson => ?_, fun json tooLong => ?_, fun json fits none => ?_, sentOn,
    fun json fits v text => sentOn json fits v text.beginsWith⟩
  · exact turnedAway_of_rejects here method (.body (readBody_of_not_saysJson notJson))
  · exact turnedAway_of_rejects here method (.body (readBody_of_tooLong json tooLong))
  · obtain ⟨reason, read⟩ := readBody_of_no_value json fits none
    exact turnedAway_of_rejects here method (.body read)

/-- A body of the greatest length is sent on, one octet more is too long. -/
theorem bodies_admitted_longest :
    (Router.handle { Settings.new "http://proxy" 0 with maxBody := 2 } emptyProxy ()
        ⟨"POST", "/transaction/send", some "Application/Api+JSON;v=\"1\"", Bytes.ofText "[]"⟩).1.calls =
        [.write .sendTransaction (.array [])] ∧
      TurnedAway { Settings.new "http://proxy" 0 with maxBody := 2 } emptyProxy ()
        ⟨"POST", "/transaction/send", some "application/json", Bytes.ofText "[] "⟩ 413 := by
  have here : Route.At (splitTarget "/transaction/send").1 .send :=
    Route.ofPath?_eq_some_iff.mp (by decide)
  have sent := bodies_admitted { Settings.new "http://proxy" 0 with maxBody := 2 } emptyProxy ()
    (show Inbound.method ⟨"POST", "/transaction/send", some "Application/Api+JSON;v=\"1\"",
      Bytes.ofText "[]"⟩ = "POST" from rfl) here
  have refused := bodies_admitted { Settings.new "http://proxy" 0 with maxBody := 2 } emptyProxy ()
    (show Inbound.method ⟨"POST", "/transaction/send", some "application/json",
      Bytes.ofText "[] "⟩ = "POST" from rfl) here
  exact ⟨sent.document (MediaType.namesJson_iff.mp (by decide +kernel)) (by decide) _
      (parse_eq_ok_iff.mp (by decide +kernel)),
    refused.tooLong (MediaType.namesJson_iff.mp (by decide +kernel)) (by decide)⟩

/-- A suffix behind `json` does not count: the body is sent on though its type is another one. And
a type with a space in front of its parameters is none, so the body is refused. -/
theorem json_with_suffix_sent_on :
    (∃ m, MediaType.Names "application/json+xml".toList m ∧ m.type = "application" ∧
      m.subtype ≠ "json" ∧ ¬∃ front, m.subtype.toList = front ++ "+json".toList) ∧
    (Router.handle (.new "http://proxy" 0) emptyProxy ()
      ⟨"POST", "/transaction/send", some "application/json+xml", Bytes.ofText "\x7b\x7d"⟩).1 =
      ⟨.json 200 (Bytes.ofText "\x7b\x7d"), .zero, [.write .sendTransaction (.object [])]⟩ ∧
    (Router.handle (.new "http://proxy" 0) emptyProxy ()
      ⟨"POST", "/transaction/send", some "application/json ;charset=utf-8",
        Bytes.ofText "\x7b\x7d"⟩).1.response.status = 415 := by
  have read : MediaType.read? "application/json+xml" = some ⟨"application", "json+xml"⟩ := by
    decide +kernel
  have space : MediaType.namesJson (some "application/json ;charset=utf-8") = false := by
    decide +kernel
  have here : Route.At (Inbound.path ⟨"POST", "/transaction/send",
      some "application/json ;charset=utf-8", Bytes.ofText "\x7b\x7d"⟩) .send :=
    Route.ofPath?_eq_some_iff.mp (by decide)
  refine ⟨⟨_, MediaType.read?_eq_some_iff.mp read, rfl, by decide, ?_⟩, by decide +kernel, ?_⟩
  · rintro ⟨front, same⟩
    have last := congrArg List.getLast? same
    rw [List.getLast?_append_of_ne_nil _ (by decide)] at last
    exact absurd last (by decide)
  · refine (turnedAway_of_rejects here rfl (.body (readBody_of_not_saysJson ?_))).status
    exact fun json => absurd (space.symm.trans (MediaType.namesJson_iff.mpr json)) (by decide)

end ObserverRelay.Relay
