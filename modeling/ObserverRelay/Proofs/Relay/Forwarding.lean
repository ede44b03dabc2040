import ObserverRelay.Proofs.Json.Kept
import ObserverRelay.Proofs.Json.Reading
import ObserverRelay.Proofs.Relay.Passing
/-!
# Which bodies of transactions are sent on, and as what

A transaction is sent on as a value that was read off the front of the caller's body. A body at
whose front no document stands is refused without asking the proxy. What follows the document is
not looked at, so a body that is no JSON text may be sent on in part.

The value is written anew. That changes no string and no member, but the numbers are those that
the value has: integers of 64 bits and binary numbers, so that others may be rounded.

## Main statements

* `send_refused`: bodies that do not begin with a document are never sent on.
* `send_keeps_meaning`: a document is sent on as one that is alike.
-/
namespace ObserverRelay.Relay

open Json Net
open Url (DomainNames)

variable {σ : Type} [Transport σ]

/-- A value is read from a body only where a document stands at its front. -/
theorem document_of_readBody {s : Settings} {request : Inbound} {v : Value}
    (read : Router.readBody s request = .ok v) :
    ∃ d t, DocumentAt TextAt request.body d t ∧ Means Becomes d v := by
  unfold Router.readBody at read
  split at read
  next => cases read
  split at read
  next => cases read
  split at read
  next w front =>
    obtain rfl : w = v := Except.ok.inj read
    exact document_of_parseFront front
  next => cases read

/-- Whatever a request is rejected for is the caller's fault. -/
theorem Rejection.status_range (r : Rejection) : 400 ≤ r.status ∧ r.status < 500 := by
  cases r <;> simp [Rejection.status]

theorem plan_of_send_refused {s : Settings} (describe : Resource → String) {request : Inbound}
    {r : Rejection} (method : request.method = "POST")
    (routed : Route.ofPath? (splitTarget request.target).1 = some .send)
    (refused : Router.readBody s request = .error r) :
    Router.plan s describe request = .respond r.response := by
  have noHead : ¬"POST" = "HEAD" := by decide
  have allowed : Route.send.methods.contains "POST" = true := by decide
  simp only [Router.plan, routed, method, noHead, allowed, if_false, if_true, Router.planRoute,
    refused]
  rfl

/-- A body at whose front no JSON text stands is answered with a status from 400 to 499, whatever
its type and the limit are: the proxy is not asked, and its state stays as it is. -/
theorem send_refused {τ : Type} {s : Settings} {proxy : Proxy τ} {state : τ} {request : Inbound}
    (method : request.method = "POST")
    (routed : Route.ofPath? (splitTarget request.target).1 = some .send)
    (none : ¬∃ d t, DocumentAt TextAt request.body d t) :
    ∃ handled, Router.handle s proxy state request = (handled, state) ∧ handled.calls = [] ∧
      400 ≤ handled.response.status ∧ handled.response.status < 500 := by
  cases read : Router.readBody s request with
  | ok v =>
    obtain ⟨d, t, document, -⟩ := document_of_readBody read
    exact absurd ⟨d, t, document⟩ none
  | error r =>
    have planned := plan_of_send_refused proxy.describe method routed read
    refine ⟨⟨r.response, .zero, []⟩, ?_, rfl, r.status_range⟩
    rw [Router.handle, planned]
    rfl

/-- A proxy that answers every call with an empty object. -/
def emptyProxy : Proxy Unit where
  describe _ := ""
  ask state _ := (.ok ⟨200, Bytes.ofText "\x7b\x7d"⟩, state)

/-- A body with a bad word deep inside is refused. -/
theorem send_refused_bad_word :
    ∃ handled, Router.handle (.new "http://proxy" 0) emptyProxy ()
        ⟨"POST", "/transaction/send", some "application/json", Bytes.ofText "[[1,\x7b\"a\":tru\x7d]]"⟩ =
        (handled, ()) ∧ handled.calls = [] ∧ 400 ≤ handled.response.status ∧
      handled.response.status < 500 := by
  have routed : Route.ofPath? (splitTarget "/transaction/send").1 = some .send := by decide
  have refused : (passValue (Bytes.ofText "[[1,\x7b\"a\":tru\x7d]]")).toOption.isNone = true := by
    decide +kernel
  exact send_refused rfl routed (no_document_of_passValue refused)

/-- Two documents are no JSON text, yet the first of them is sent on. -/
theorem send_with_trailing_document :
    ¬IsJson (Bytes.ofText "\x7b\x7d \x7b\x7d") ∧
      (Router.handle (.new "http://proxy" 0) emptyProxy ()
        ⟨"POST", "/transaction/send", some "application/json", Bytes.ofText "\x7b\x7d \x7b\x7d"⟩).1 =
        ⟨.json 200 (Bytes.ofText "\x7b\x7d"), .zero, [.write .sendTransaction (.object [])]⟩ := by
  have refused : checkDocument (Bytes.ofText "\x7b\x7d \x7b\x7d") =
      .error (.next .trailingCharacters (Bytes.ofText "\x7b\x7d")) := by
    decide +kernel
  refine ⟨?_, by decide +kernel⟩
  rw [← checkDocument_eq_ok_iff, refused]
  rintro ⟨⟩

/-! ## What is sent on -/

/-- From a text of a document its document is read. -/
theorem exists_spells_of_readBody {s : Settings} {request : Inbound} {v : Value}
    (read : Router.readBody s request = .ok v) (json : IsJson request.body) :
    ∃ d, Spells TextAt request.body d ∧ Means Becomes d v := by
  obtain ⟨d, t, document, means⟩ := document_of_readBody read
  obtain ⟨d', form⟩ := document.form
  obtain ⟨e, u, document', blank⟩ := json
  have passed := view_passValue_iff.mpr ⟨d', form⟩
  rw [view_passValue_iff.mpr ⟨e, document'⟩] at passed
  obtain rfl : u = t := congrArg Prod.snd (Except.ok.inj passed)
  exact ⟨d, ⟨u, document, blank⟩, means⟩

/-- The body of a call that writes is the text of its value. -/
theorem body_request_write (u : Url) (r : Resource) (v : Value) :
    (Client.request u (.write r v)).body = Bytes.ofText v.render := by
  rw [Client.request, Request.to]
  split <;> rfl

/-- Sending a transaction is one call for the value that is read from the caller's body, and all
that is posted to the proxy is the text of this value. -/
theorem handle_send [DomainNames] {s : Settings} {service : Service}
    (made : Service.new s = .ok service) (n : σ) {request : Inbound} {v : Value}
    (method : request.method = "POST")
    (routed : Route.ofPath? (splitTarget request.target).1 = some .send)
    (accepted : Router.readBody service.settings request = .ok v) :
    (service.handle n request).calls = [.write .sendTransaction v] ∧
      ∀ r ∈ (service.handle n request).seen, r.verb = .post → r.body = Bytes.ofText v.render := by
  obtain ⟨u, built, -⟩ := urlFor_of_new made .sendTransaction
  have planned := plan_of_send service.client.describe method routed accepted
  rw [handle_of_plan planned built]
  refine ⟨rfl, fun r seen post => ?_⟩
  rw [Transport.body_of_post seen post, body_request_write]

/-- A body that is JSON and accepted is posted as a text of the document that it is a text of, but
for the spelling of numbers: the same strings and the same members in the same order, if no object
names two alike, and every number that keeps its value has it. -/
theorem send_keeps_meaning [DomainNames] {s : Settings} {service : Service}
    (made : Service.new s = .ok service) (n : σ) {request : Inbound} {v : Value}
    (method : request.method = "POST")
    (routed : Route.ofPath? (splitTarget request.target).1 = some .send)
    (accepted : Router.readBody service.settings request = .ok v) (json : IsJson request.body) :
    ∃ d, Spells TextAt request.body d ∧
      (service.handle n request).calls = [.write .sendTransaction v] ∧
      (∀ r ∈ (service.handle n request).seen, r.verb = .post → r.body = Bytes.ofText v.render) ∧
      (d.NoRepeats → ∃ e, Spells TextAt (Bytes.ofText v.render) e ∧ d.Alike Keeps e) := by
  obtain ⟨calls, received⟩ := handle_send made n method routed accepted
  obtain ⟨d, spelled, means⟩ := exists_spells_of_readBody accepted json
  refine ⟨d, spelled, calls, received, fun noRepeats => ?_⟩
  obtain ⟨e, alike, written⟩ := exists_written_alike means noRepeats
  exact ⟨e, written, alike⟩

/-- A body of a known type that is not too long is accepted if a value can be read off its front. -/
theorem exists_readBody (s : Settings) (request : Inbound)
    (type : MediaType.namesJson request.contentType = true)
    (fits : request.body.length ≤ s.maxBody)
    (front : (Value.parseFront request.body).toOption.isSome = true) :
    ∃ v, Router.readBody s request = .ok v := by
  cases read : Value.parseFront request.body with
  | error e =>
    rw [read] at front
    cases front
  | ok v => exact ⟨v, by simp [Router.readBody, type, Nat.not_lt.mpr fits, read]⟩

section

attribute [local instance] DomainNames.untranslated

/-- A power of ten is posted in another spelling, with its value. -/
theorem send_keeps_meaning_power :
    ∃ v l m, (plainService.handle Network.unreachable
        (sendRequest "\x7b\"value\":1E2\x7d")).calls =
        [.write .sendTransaction v] ∧
      Spells TextAt (Bytes.ofText "\x7b\"value\":1E2\x7d") (.object [("value", .number l)]) ∧
      Spells TextAt (Bytes.ofText v.render) (.object [("value", .number m)]) ∧
      l.value = 100 ∧ m.value = 100 := by
  obtain ⟨v, accepted⟩ := exists_readBody plainService.settings
    (sendRequest "\x7b\"value\":1E2\x7d") (by decide) (by decide) (by decide +kernel)
  have json : IsJson (sendRequest "\x7b\"value\":1E2\x7d").body :=
    checkDocument_eq_ok_iff.mp (by decide +kernel)
  obtain ⟨d, spelled, calls, -, alike⟩ := send_keeps_meaning new_plainService
    Network.unreachable rfl (routed_sendRequest _) accepted json
  have number (t : Bytes) (stops : Stops t) :
      NumberAt ([0x31, 0x45, 0x32] ++ t) ⟨false, [0x31], [], some 2⟩ t := by
    have whole : DigitsAt ([0x31] ++ 0x45 :: 0x32 :: t) [0x31] (0x45 :: 0x32 :: t) :=
      ⟨rfl, by decide, by simp [isDigit], by simp [isDigit]⟩
    have power : DigitsAt ([0x32] ++ t) [0x32] t :=
      ⟨rfl, by decide, by simp [isDigit], stops.isDigit⟩
    exact .plain (.of whole (by decide) (.none (by simp)) (.plain (.inr rfl) power))
  have spelled' := spells_member "value" number
  obtain rfl := Spells.unique unambiguous_textAt spelled spelled'
  obtain ⟨e, posted, same⟩ := alike (.object (by decide) (by simp [Document.NoRepeats.number]))
  obtain ⟨m, rfl, keeps⟩ := alike_member_iff.mp same
  have value : (⟨false, [0x31], [], some 2⟩ : Literal).value = 100 := by
    have digits : natural [0x31] = 1 := rfl
    norm_num [Literal.value_eq, signFactor, Literal.significand, Literal.scale, digits]
  have kept : (⟨false, [0x31], [], some 2⟩ : Literal).Kept := .inr ⟨by decide, by decide⟩
  exact ⟨v, _, m, calls, spelled, posted, value, (keeps kept).trans value⟩

/-- An integer beyond 64 bits does not keep its value: its last digits are lost. -/
theorem send_with_large_integer :
    ∃ v l m, (plainService.handle Network.unreachable
        (sendRequest "\x7b\"value\":12345678901234567890123\x7d")).calls =
        [.write .sendTransaction v] ∧
      Spells TextAt (Bytes.ofText "\x7b\"value\":12345678901234567890123\x7d")
        (.object [("value", .number l)]) ∧
      Spells TextAt (Bytes.ofText v.render) (.object [("value", .number m)]) ∧
      l.value = 12345678901234567890123 ∧ m.value = 12345678901234568000000 := by
  obtain ⟨v, accepted⟩ := exists_readBody plainService.settings
    (sendRequest "\x7b\"value\":12345678901234567890123\x7d") (by decide) (by decide)
    (by decide +kernel)
  obtain ⟨calls, -⟩ := handle_send new_plainService Network.unreachable rfl
    (routed_sendRequest _) accepted
  have number (t : Bytes) (stops : Stops t) : NumberAt
      (Bytes.ofChars (Nat.toDigits 10 12345678901234567890123) ++ t)
      (.ofNat false 12345678901234567890123) t :=
    .plain (magnitudeAt_toDigits false _ stops)
  have spelled := spells_member "value" number
  obtain ⟨d, spelled', means⟩ := exists_spells_of_readBody accepted spelled.isJson
  obtain rfl := Spells.unique unambiguous_textAt spelled' spelled
  obtain ⟨n, rfl, becomes⟩ := means_member_iff.mp means
  obtain ⟨m, written, value⟩ := exists_written n
  have posted : Spells TextAt (Bytes.ofText (Value.object [("value", .number n)]).render)
      (.object [("value", .number m)]) :=
    spells_render (means_member_iff.mpr ⟨n, rfl, written⟩)
      (.object (List.nodup_singleton _) (by simp [Document.NoRepeats.number]))
  refine ⟨_, _, m, calls, spelled, posted, ?_, ?_⟩
  · simp [Literal.value_ofNat, signFactor]
  · rw [value]
    cases becomes with
    | plain plain => exact absurd plain.2.2 (by decide)
    | scaled _ number =>
      cases number with
      | @scaled x _ scaled =>
        have taken : (Literal.ofNat false 12345678901234567890123).absorbedAll.1 =
            12345678901234567890 := by
          decide +kernel
        have shift : (Literal.ofNat false 12345678901234567890123).shift = 3 := by decide +kernel
        have noExponent : (Literal.ofNat false 12345678901234567890123).exponent = none := rfl
        have rounded : scaled? 12345678901234567890 3 = some ⟨false, 5886878443352970, 1095⟩ := by
          decide +kernel
        have shortest : Binary64.shortest ⟨false, 5886878443352970, 1095⟩ =
            ⟨12345678901234568, 6⟩ := by
          decide +kernel
        rw [taken, shift, noExponent, Option.getD_none, add_zero, rounded] at scaled
        obtain rfl := Option.some.inj scaled
        norm_num [Literal.ofNat, Number.written, signFactor, Binary64.isZero, shortest, Decimal.value]
      | vanished given => cases given

end

end ObserverRelay.Relay
