import ObserverRelay.Net.Network
import ObserverRelay.Proofs.Json.Compact
import ObserverRelay.Proofs.Json.Recognition
import ObserverRelay.Proofs.Net.Limits
import ObserverRelay.Relay.Service
/-!
# What the caller gets of an exchange with the proxy

However an exchange ends, the caller gets the proxy's answer as it is or the report of one
failure. Which failure counts is the relation `Fails`, a clause for each: the exchange is judged
from its start to its end, and the status of a reply before its body. Only where there is no limit
may the client wait for ever, and then the caller gets nothing.

## Main statements

* `judge_of_delivers`, `judge_of_fails`, `judge_of_waits`: how the client judges an ending.
* `delivers_or_fails_or_waits`: there is no other way.
* `send_relayed`: a transaction that is sent.
* `read_relayed`: a resource that is passed on.
-/
namespace ObserverRelay

open Json

namespace Relay

open Net
open Url (DomainNames)

/-! ## Judging an ending -/

/-- The failure that the ending of an exchange is, for requests that are fulfilled by success
alone (`wantSuccess`) and for others. -/
inductive Fails (url : String) (wantSuccess : Bool) : Ending → RelayError → Prop
  | unsent (reason : String) : Fails url wantSuccess (.failed reason) (.transport url reason)
  | unanswered (reason : String) : Fails url wantSuccess (.late reason) (.timeout url)
  | refused {status : Nat} (body : Option Arrival) (wanted : wantSuccess = true)
      (refused : isSuccess status = false) :
      Fails url wantSuccess (.answered status body) (.badStatus url status)
  | broken {status : Nat} (reason : String)
      (passed : wantSuccess = true → isSuccess status = true) :
      Fails url wantSuccess (.answered status (some (.broken reason))) (.transport url reason)
  | late {status : Nat} (reason : String)
      (passed : wantSuccess = true → isSuccess status = true) :
      Fails url wantSuccess (.answered status (some (.late reason))) (.timeout url)
  | malformed {status : Nat} {body : Bytes} {fault : Fault}
      (passed : wantSuccess = true → isSuccess status = true) (notJson : ¬IsJson body)
      (found : checkDocument body = .error fault) :
      Fails url wantSuccess (.answered status (some (.whole body)))
        (.malformed url (fault.message body))

/-- The final reply of an exchange came whole, is JSON, and says success if this is wanted. -/
structure Delivers (wantSuccess : Bool) (ending : Ending) (status : Nat) (body : Bytes) : Prop where
  whole : ending = .answered status (some (.whole body))
  json : IsJson body
  success : wantSuccess = true → isSuccess status = true

/-- The reply is waited for without end, or the rest of its body although the status will do. -/
inductive Waits (wantSuccess : Bool) : Ending → Prop
  | reply : Waits wantSuccess .silent
  | body {status : Nat} (passed : wantSuccess = true → isSuccess status = true) :
      Waits wantSuccess (.answered status none)

section Judging

variable {url : String} {wantSuccess : Bool} {ending : Ending}

theorem not_refused {status : Nat} (passed : wantSuccess = true → isSuccess status = true) :
    ¬(wantSuccess && !isSuccess status) = true := by
  simpa using passed

theorem judge_of_delivers {status : Nat} {body : Bytes}
    (delivers : Delivers wantSuccess ending status body) :
    Client.judge url wantSuccess ending = some (.ok ⟨status, body⟩) := by
  obtain ⟨rfl, json, success⟩ := delivers
  simp only [Client.judge, if_neg (not_refused success), Client.judgeBody,
    checkDocument_eq_ok_iff.mpr json]

theorem judge_of_fails {e : RelayError} (fails : Fails url wantSuccess ending e) :
    Client.judge url wantSuccess ending = some (.error e) := by
  cases fails with
  | unsent | unanswered => rfl
  | refused body wanted refused => simp [Client.judge, wanted, refused]
  | broken reason passed | late reason passed =>
    simp only [Client.judge, if_neg (not_refused passed), Client.judgeBody]
  | malformed passed notJson found =>
    simp only [Client.judge, if_neg (not_refused passed), Client.judgeBody, found]

theorem judge_of_waits (waits : Waits wantSuccess ending) :
    Client.judge url wantSuccess ending = none := by
  cases waits with
  | reply => rfl
  | body passed => simp only [Client.judge, if_neg (not_refused passed)]

/-- There is no other way for an exchange to go. -/
theorem delivers_or_fails_or_waits (url : String) (wantSuccess : Bool) (ending : Ending) :
    (∃ status body, Delivers wantSuccess ending status body) ∨
      (∃ e, Fails url wantSuccess ending e) ∨ Waits wantSuccess ending := by
  cases ending with
  | failed reason => exact .inr (.inl ⟨_, .unsent reason⟩)
  | late reason => exact .inr (.inl ⟨_, .unanswered reason⟩)
  | silent => exact .inr (.inr .reply)
  | answered status body =>
    by_cases passed : wantSuccess = true → isSuccess status = true
    · match body with
      | none => exact .inr (.inr (.body passed))
      | some (.broken reason) => exact .inr (.inl ⟨_, .broken reason passed⟩)
      | some (.late reason) => exact .inr (.inl ⟨_, .late reason passed⟩)
      | some (.whole bytes) =>
        cases found : checkDocument bytes with
        | ok => exact .inl ⟨status, bytes, rfl, checkDocument_eq_ok_iff.mp found, passed⟩
        | error fault =>
          have notJson : ¬IsJson bytes := by
            rw [← checkDocument_eq_ok_iff, found]
            rintro ⟨⟩
          exact .inr (.inl ⟨_, .malformed passed notJson found⟩)
    · have refused : wantSuccess = true ∧ isSuccess status = false := by simpa using passed
      exact .inr (.inl ⟨_, .refused body refused.1 refused.2⟩)

theorem judge_eq_none_iff :
    Client.judge url wantSuccess ending = none ↔ Waits wantSuccess ending := by
  refine ⟨fun missing => ?_, judge_of_waits⟩
  rcases delivers_or_fails_or_waits url wantSuccess ending with ⟨status, body, delivers⟩ |
    ⟨e, fails⟩ | waits
  · rw [judge_of_delivers delivers] at missing
    cases missing
  · rw [judge_of_fails fails] at missing
    cases missing
  · exact waits

theorem Waits.isEndless (waits : Waits wantSuccess ending) : ending.IsEndless := by
  cases waits with
  | reply => exact .reply
  | body passed => exact .body _

/-- Where any final reply will do, the client waits for all that has no end. -/
theorem waits_false_iff : Waits false ending ↔ ending.IsEndless := by
  refine ⟨Waits.isEndless, fun endless => ?_⟩
  cases endless with
  | reply => exact .reply
  | body status => exact .body nofun

end Judging

/-- Where any final reply will do, the failures for want of time are the endings that are late. -/
theorem Fails.timeout_iff {url : String} {ending : Ending} {e : RelayError}
    (fails : Fails url false ending e) : (∃ url, e = .timeout url) ↔ ending.IsLate := by
  cases fails with
  | unanswered reason => exact iff_of_true ⟨url, rfl⟩ (.reply reason)
  | late reason => exact iff_of_true ⟨url, rfl⟩ (.body _ reason)
  | refused body wanted => cases wanted
  | unsent | broken | malformed => exact iff_of_false nofun nofun

/-! ## What the caller is told of a failure -/

/-- A response reports a failure: 504 if the proxy took too long and else 500, with an object
whose only member `error` is the wording of the failure. -/
structure Reports (r : Response) (e : RelayError) : Prop where
  timeout : (∃ url, e = .timeout url) → r.status = 504
  other : (¬∃ url, e = .timeout url) → r.status = 500
  contentType : r.contentType = some "application/json"
  body : Spells TextAt r.body (.object [("error", .string e.message)])

theorem reports_ofError (e : RelayError) : Reports (.ofError e) e where
  timeout := e.status_eq_504_iff.mpr
  other h := by
    cases e with
    | timeout url => exact absurd ⟨url, rfl⟩ h
    | transport | badStatus | malformed | unexpectedShape | badUrl => rfl
  contentType := rfl
  body := by
    have means : Means Written (.object [("error", .string e.message)])
        (.object (Members.assignAll [] [("error", .string e.message)])) :=
      .object rfl (.cons (.string e.message) .nil)
    have noRepeats : (Document.object [("error", Document.string e.message)]).NoRepeats :=
      .object (List.nodup_singleton _) (List.forall_mem_singleton.mpr (.string e.message))
    exact spells_render means noRepeats

theorem Reports.status_eq_504_iff {r : Response} {e : RelayError} (h : Reports r e) :
    r.status = 504 ↔ ∃ url, e = .timeout url := by
  by_cases timeout : ∃ url, e = .timeout url
  · exact iff_of_true (h.timeout timeout) timeout
  · refine iff_of_false ?_ timeout
    rw [h.other timeout]
    decide

theorem Reports.status_ne_200 {r : Response} {e : RelayError} (h : Reports r e) :
    r.status ≠ 200 := by
  by_cases timeout : ∃ url, e = .timeout url
  · rw [h.timeout timeout]
    decide
  · rw [h.other timeout]
    decide

/-! ## The service and its exchange -/

variable {σ : Type} [Transport σ]

theorem parse_of_checkUrl [DomainNames] {url : String} (checked : Settings.checkUrl url = .ok ()) :
    ∃ u, Url.parse url = .ok u ∧ (u.scheme = "http" ∨ u.scheme = "https") ∧ u.isOpaque = false := by
  unfold Settings.checkUrl at checked
  split at checked
  next => cases checked
  next =>
    split at checked
    next => cases checked
    next u parsed =>
      split at checked
      next => cases checked
      next web =>
        split at checked
        next => cases checked
        next extensible =>
          have scheme : u.scheme = "http" ∨ u.scheme = "https" := by
            rw [not_and_or, not_not, not_not] at web
            exact web
          exact ⟨u, parsed, scheme, by simpa using extensible⟩

theorem checkUrl_of_check [DomainNames] {s t : Settings} (checked : s.check = .ok t) :
    Settings.checkUrl t.proxyUrl = .ok () := by
  rw [Settings.eq_of_check checked]
  unfold Settings.check at checked
  split at checked
  next => cases checked
  next url => exact url

/-- Checked settings have a URL of the web, and there is a client for it. -/
theorem exists_base_of_check [DomainNames] {s t : Settings} (checked : s.check = .ok t) :
    ∃ base, Url.parse t.proxyUrl = .ok base ∧ Client.new t = .ok ⟨base, t.timeout⟩ ∧
      (base.scheme = "http" ∨ base.scheme = "https") ∧ base.isOpaque = false := by
  obtain ⟨base, parsed, web, extensible⟩ := parse_of_checkUrl (checkUrl_of_check checked)
  exact ⟨base, parsed, by rw [Client.new, parsed], web, extensible⟩

/-- A service has a client for the URL of checked settings. -/
theorem check_of_new [DomainNames] {s : Settings} {service : Service}
    (made : Service.new s = .ok service) :
    s.check = .ok service.settings ∧ Client.new service.settings = .ok service.client := by
  unfold Service.new at made
  split at made
  next => cases made
  next t checked =>
    split at made
    next => cases made
    next client known =>
      cases made
      exact ⟨checked, known⟩

/-- The limit on its exchanges is the one that was set. -/
theorem timeout_of_new [DomainNames] {s : Settings} {service : Service}
    (made : Service.new s = .ok service) :
    service.client.timeout = s.timeout := by
  obtain ⟨checked, known⟩ := check_of_new made
  obtain ⟨base, -, known', -⟩ := exists_base_of_check checked
  rw [← Except.ok.inj (known'.symm.trans known), Settings.eq_of_check checked]

theorem isOpaque_of_new [DomainNames] {s : Settings} {service : Service}
    (made : Service.new s = .ok service) :
    service.client.base.isOpaque = false := by
  obtain ⟨checked, known⟩ := check_of_new made
  obtain ⟨base, -, known', -, extensible⟩ := exists_base_of_check checked
  rw [← Except.ok.inj (known'.symm.trans known)]
  exact extensible

/-- Where the base can be extended there is a URL for every resource, the one that is described. -/
theorem exists_urlFor {c : Client} (extensible : c.base.isOpaque = false) (r : Resource) :
    ∃ u, c.urlFor r = .ok u ∧ u.text = c.describe r := by
  have extended : (c.base.extend? r.segments).isSome = true := by
    rw [Url.isSome_extend?, extensible]
    rfl
  obtain ⟨u, extended⟩ := Option.isSome_iff_exists.mp extended
  have built : c.urlFor r = .ok u := by rw [Client.urlFor, extended]
  exact ⟨u, built, by rw [Client.describe, built]⟩

theorem urlFor_of_new [DomainNames] {s : Settings} {service : Service}
    (made : Service.new s = .ok service) (r : Resource) :
    ∃ u, service.client.urlFor r = .ok u ∧ u.text = service.client.describe r :=
  exists_urlFor (isOpaque_of_new made) r

/-- A request for which the proxy is asked leads to one exchange, and what comes of it decides the
response. -/
theorem handle_of_plan {service : Service} {n : σ} {request : Inbound} {wait : Duration}
    {call : Call} {finish : Except RelayError Answer → Response} {u : Url}
    (planned : Router.plan service.settings service.client.describe request = .ask wait call finish)
    (built : service.client.urlFor (Client.resource call) = .ok u) :
    service.handle n request =
      { response := (Client.judge u.text (Client.wantsSuccess call)
          (service.client.send n (Client.request u call)).ending).map finish
        waited := wait
        calls := [call]
        network := (service.client.send n (Client.request u call)).network
        seen := (service.client.send n (Client.request u call)).seen } := by
  simp only [Service.handle, planned, Client.ask, built]

/-- The resources that are passed on as they come, with the query that they are asked for: the
route of a request and the pairs of its query give both. -/
inductive PassedOn (shard : Nat) (pairs : List (String × String)) :
    Route → Resource → List (String × String) → Prop
  | epochStart {raw : String} {epoch : Nat}
      (number : readNumber "epoch" "u32" Numeral.bound32 raw = .ok epoch) :
      PassedOn shard pairs (.epochStart raw) (.epochStart shard epoch) []
  | blockByNonce {raw : String} {nonce : Nat}
      (number : readNumber "nonce" "u64" Numeral.bound64 raw = .ok nonce) :
      PassedOn shard pairs (.blockByNonce raw) (.blockByNonce shard nonce) pairs
  | account {raw address : String} (text : readParameter "address" raw = .ok address) :
      PassedOn shard pairs (.account raw) (.account address) pairs
  | accountToken {rawAddress rawToken address token : String}
      (text : readParameter "address" rawAddress = .ok address)
      (text' : readParameter "token" rawToken = .ok token) :
      PassedOn shard pairs (.accountToken rawAddress rawToken) (.accountToken address token) pairs

theorem planRoute_of_passedOn {s : Settings} {describe : Resource → String} {request : Inbound}
    {route : Route} {r : Resource} {pairs query : List (String × String)}
    (passed : PassedOn s.shard pairs route r query) :
    Router.planRoute s describe request pairs route =
      .ok (.ask s.delay (.read r query) Router.passBody) := by
  cases passed with
  | epochStart number | blockByNonce number =>
    simp only [Router.planRoute, number]
    rfl
  | account text =>
    simp only [Router.planRoute, text]
    rfl
  | accountToken text text' =>
    simp only [Router.planRoute, text, text']
    rfl

theorem plan_of_passedOn {s : Settings} {describe : Resource → String} {request : Inbound}
    {route : Route} {r : Resource} {query : List (String × String)} (method : request.method = "GET")
    (routed : Route.ofPath? (splitTarget request.target).1 = some route)
    (passed : PassedOn s.shard (readQuery (splitTarget request.target).2) route r query) :
    Router.plan s describe request = .ask s.delay (.read r query) Router.passBody := by
  have noHead : ¬"GET" = "HEAD" := by decide
  have allowed : route.methods.contains "GET" = true := by
    have reads : ["GET", "HEAD"].contains "GET" = true := by decide
    cases passed <;> exact reads
  simp only [Router.plan, routed, method, noHead, allowed, if_false, if_true,
    planRoute_of_passedOn passed]
  rfl

theorem plan_of_send {s : Settings} (describe : Resource → String) {request : Inbound}
    {body : Value} (method : request.method = "POST")
    (routed : Route.ofPath? (splitTarget request.target).1 = some .send)
    (accepted : Router.readBody s request = .ok body) :
    Router.plan s describe request =
      .ask .zero (.write .sendTransaction body) Router.passAnswer := by
  have noHead : ¬"POST" = "HEAD" := by decide
  have allowed : Route.send.methods.contains "POST" = true := by decide
  simp only [Router.plan, routed, method, noHead, allowed, if_false, if_true, Router.planRoute,
    accepted]
  rfl

/-- A URL of the server `proxy` with a path. -/
def proxyUrl (parts : List String) : Url where
  scheme := "http"
  authority := some ⟨"", none, .name "proxy", none⟩
  guarded := false
  path := .segments parts
  query := none
  fragment := none

/-- A service for the server `proxy`, all settings as usual. -/
def plainService : Service := ⟨.new "http://proxy" 0, ⟨proxyUrl [""], none⟩⟩

theorem new_plainService [DomainNames] :
    Service.new (.new "http://proxy" 0) = .ok plainService := by
  rfl

theorem urlFor_sendTransaction (limit : Option Duration) :
    (Client.mk (proxyUrl [""]) limit).urlFor .sendTransaction =
      .ok (proxyUrl ["transaction", "send"]) := by
  rfl

/-- A request to send a transaction. -/
def sendRequest (body : String) : Inbound :=
  ⟨"POST", "/transaction/send", some "application/json", Bytes.ofText body⟩

theorem routed_sendRequest (body : String) :
    Route.ofPath? (splitTarget (sendRequest body).target).1 = some .send := by
  have routed : Route.ofPath? (splitTarget "/transaction/send").1 = some .send := by decide
  exact routed

section

attribute [local instance] DomainNames.untranslated

/-- A reply that says 404 and breaks off. -/
def brokenReply : Network := .scripted [.replies .zero ⟨404, by decide⟩ (.broken .zero "cut off")]

end

section

attribute [local instance] DomainNames.untranslated

/-- The request by which the list of the number 1 is sent to the server `proxy`. -/
def postOne : Request where
  verb := .post
  url := proxyUrl ["transaction", "send"]
  authorization := none
  contentType := some "application/json"
  body := Bytes.ofText "[1]"

theorem eq_postOne {limit : Option Duration} {u : Url} {posted : Request}
    (built : (Client.mk (proxyUrl [""]) limit).urlFor .sendTransaction = .ok u)
    (same : posted = .to .post u (some "application/json")
      (Bytes.ofText (Value.array [.ofNat 1]).render)) : posted = postOne := by
  rw [same, ← Except.ok.inj ((urlFor_sendTransaction limit).symm.trans built)]
  decide +kernel

/-- A service for the server `proxy` that gives exchanges up after a fifth of a second. -/
def hastyService : Service :=
  ⟨{ Settings.new "http://proxy" 0 with timeout := some ⟨200⟩ }, ⟨proxyUrl [""], some ⟨200⟩⟩⟩

/-- What a proxy says that refuses a transaction. -/
def refusalBody : Bytes := Bytes.ofText "\x7b\"error\": null\x7d\n"

theorem isJson_refusalBody : IsJson refusalBody := by
  have value : DocumentAt TextAt (Bytes.ofText " null\x7d\n") .null [0x7D, 0x0A] :=
    .null (by decide +kernel)
  have text : refusalBody =
      0x7B :: (Bytes.ofChars (stringChars "error") ++ 0x3A :: Bytes.ofText " null\x7d\n") := by
    decide +kernel
  have spelled : Spells TextAt refusalBody (.object [("error", .null)]) :=
    ⟨[0x0A], text ▸ documentAt_member "error" value, by decide⟩
  exact spelled.isJson

/-- A reply that says 400, the end of whose body comes some time after its head. -/
def refusal (took : Duration) : Network :=
  .scripted [.replies ⟨150⟩ ⟨400, by decide⟩ (.whole took refusalBody)]

end

end Relay

end ObserverRelay
