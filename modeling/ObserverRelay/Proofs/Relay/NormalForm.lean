import ObserverRelay.Proofs.Json.Blanks
import ObserverRelay.Proofs.Json.Brevity
import ObserverRelay.Proofs.Json.Repeats
import ObserverRelay.Proofs.Relay.Admission
/-!
# What is sent on is a normal form

A body whose numbers are integers is sent on as the compact layout of its value. This is a text of
the same value, and no longer than the body, so it is admitted where the body was. Sent to the relay
it is sent on as it is.

## Main statements

* `readBody_of_render`: the layout of a value that was read is admitted as well.
* `body_normal_form`: what is sent on, and that it stays as it is.
-/
namespace ObserverRelay.Relay

open Json Net
open Url (DomainNames)

/-- Whatever the network does, the service makes one call for a request, to send a transaction with
this value, and begins the exchange with the network by `posted`. -/
structure Posts (service : Service) (request : Inbound) (v : Value) (posted : Request) : Prop where
  calls : ∀ {σ : Type} [Transport σ] (n : σ),
    (service.handle n request).calls = [.write .sendTransaction v]
  sent : ∀ {σ : Type} [Transport σ] (n : σ),
    (service.handle n request).seen = (service.client.send n posted).seen

theorem verb_request_write (u : Url) (r : Resource) (v : Value) :
    (Client.request u (.write r v)).verb = .post := by
  rw [Client.request, Request.to]
  split <;> rfl

theorem posts_of_readBody {service : Service} {request : Inbound} {v : Value} {u : Url}
    (method : request.method = "POST") (here : Route.At request.path .send)
    (accepted : Router.readBody service.settings request = .ok v)
    (built : service.client.urlFor .sendTransaction = .ok u) :
    Posts service request v (Client.request u (.write .sendTransaction v)) := by
  have planned := plan_of_send service.client.describe method
    (Route.ofPath?_eq_some_iff.mpr here) accepted
  exact ⟨fun n => by rw [handle_of_plan planned built],
    fun n => by rw [handle_of_plan planned built]⟩

/-- A value that is read from a body with integers only is written so that it is read again. -/
theorem readBody_of_render {s : Settings} {request : Inbound} {v : Value}
    (accepted : Router.readBody s request = .ok v) {d : Document String} {t : Bytes}
    (document : DocumentAt TextAt request.body d t) (integral : d.Integral) :
    Means Becomes d v ∧ Value.parse (Bytes.ofText v.render) = .ok v ∧
      Router.readBody s { request with body := Bytes.ofText v.render } = .ok v := by
  obtain ⟨json, fits, d', t', document', means, within⟩ := readBody_eq_ok_iff.mp accepted
  obtain ⟨rfl, -⟩ := DocumentAt.unique unambiguous_textAt _ _ _ _ _ document' document
  have whole := means.whole integral
  have shallow := means.within within
  have shorter : (Bytes.ofText v.render).length ≤ request.body.length := by
    have whole := length_chars_le document means integral
    rw [Value.size, ← Bytes.ofText_ofList_eq] at whole
    exact (Nat.le_add_right _ _).trans whole
  refine ⟨means, parse_render whole means.distinct shallow, ?_⟩
  exact readBody_of_ok json (shorter.trans fits)
    (parseFront_eq_ok_iff.mp (parseFront_render whole means.distinct shallow))

/-- A body with integers only is sent on as a text without white space outside of strings. This is
read as the value that was read from the body, which restates it, and sent to the relay it is
sent on octet by octet. -/
theorem body_normal_form [DomainNames] {s : Settings} {service : Service}
    (made : Service.new s = .ok service) {request : Inbound} {v : Value}
    (method : request.method = "POST") (here : Route.At request.path .send)
    (accepted : Router.readBody service.settings request = .ok v) {d : Document String} {t : Bytes}
    (document : DocumentAt TextAt request.body d t) (integral : d.Integral) :
    ∃ posted : Request, posted.verb = .post ∧ Posts service request v posted ∧ Tight posted.body ∧
      Value.parse posted.body = .ok v ∧ Restates d v ∧
      Posts service { request with body := posted.body } v posted := by
  obtain ⟨u, built, -⟩ := urlFor_of_new made .sendTransaction
  obtain ⟨means, parsed, again⟩ := readBody_of_render accepted document integral
  refine ⟨Client.request u (.write .sendTransaction v), verb_request_write u _ v,
    posts_of_readBody method here accepted built, ?_⟩
  rw [body_request_write]
  refine ⟨?_, parsed, means.restates integral, posts_of_readBody method here again built⟩
  rw [Value.render, Bytes.ofText_ofList_eq]
  exact tight_chars (means.whole integral)

/-- An object with white space in it that names a member twice, and something behind it. -/
def spacedBody : String := "\x7b\"a\": 1,\"a\":2 \x7d ]"

theorem documentAt_spacedBody : DocumentAt TextAt (Bytes.ofText spacedBody)
    (.object [("a", .number (.ofNat false 1)), ("a", .number (.ofNat false 2))])
    (Bytes.ofText " ]") := by
  have number {s t : Bytes} (n : Nat) (stops : Stops t)
      (digits : skipSpace s = Bytes.ofChars (Nat.toDigits 10 n) ++ t) :
      DocumentAt TextAt s (.number (.ofNat false n)) t := by
    refine .number ?_
    rw [digits]
    exact .plain (magnitudeAt_toDigits false n stops)
  obtain ⟨u, first, key⟩ := textAt_stringChars "a" (Bytes.ofText ": 1,\"a\":2 \x7d ]")
  obtain ⟨w, second, key'⟩ := textAt_stringChars "a" (Bytes.ofText ":2 \x7d ]")
  have stops : Stops (Bytes.ofText ",\"a\":2 \x7d ]") := stops_cons (by decide) _
  have stops' : Stops (Bytes.ofText " \x7d ]") := stops_cons (by decide) _
  have last : MembersAt TextAt (DocumentAt TextAt) false (Bytes.ofText ",\"a\":2 \x7d ]")
      [("a", .number (.ofNat false 2))] (Bytes.ofText " ]") := by
    have lead : Separated false (Bytes.ofText ",\"a\":2 \x7d ]") (0x22 :: w) := by
      rw [← second]
      exact .comma (v := Bytes.ofText "\"a\":2 \x7d ]") (by decide) (by decide)
    exact .more (w := Bytes.ofText "2 \x7d ]") lead key' (by decide) (number 2 stops' (by decide))
      (.done (by decide))
  have brace : skipSpace (Bytes.ofText spacedBody) = 0x7B :: 0x22 :: u := by
    rw [← first]
    decide
  exact .object brace (.more (w := Bytes.ofText " 1,\"a\":2 \x7d ]") (.first rfl) key (by decide)
    (number 1 stops (by decide)) last)

section

attribute [local instance] DomainNames.untranslated

/-- The last of two members with one name is sent on, without the white space. -/
theorem body_normal_form_spaced :
    ∃ posted : Request, posted.verb = .post ∧
      Posts plainService (sendRequest spacedBody) (.object [("a", .ofNat 2)]) posted ∧
      Tight posted.body ∧ Value.parse posted.body = .ok (.object [("a", .ofNat 2)]) ∧
      Posts plainService { sendRequest spacedBody with body := posted.body }
        (.object [("a", .ofNat 2)]) posted := by
  have accepted : Router.readBody plainService.settings (sendRequest spacedBody) =
      .ok (.object [("a", .ofNat 2)]) := by
    decide +kernel
  have small : (Literal.ofNat false 1).Integral ∧ (Literal.ofNat false 2).Integral :=
    ⟨⟨rfl, rfl, by decide, by decide⟩, ⟨rfl, rfl, by decide, by decide⟩⟩
  have integral : (Document.object [("a", .number (.ofNat false 1)),
      ("a", .number (.ofNat false 2))]).Integral := by
    refine .object ?_
    simp only [List.forall_mem_cons]
    exact ⟨.number small.1, .number small.2, List.forall_mem_nil _⟩
  obtain ⟨posted, post, sent, tight, parsed, -, again⟩ := body_normal_form new_plainService rfl
    (Route.ofPath?_eq_some_iff.mp (routed_sendRequest spacedBody)) accepted documentAt_spacedBody
    integral
  exact ⟨posted, post, sent, tight, parsed, again⟩

end

end ObserverRelay.Relay
