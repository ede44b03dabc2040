import ObserverRelay.Proofs.Relay.Runs
import ObserverRelay.Proofs.Url.Parsed
/-!
# Starting up

The URL of the proxy has to serve three times: it is read when the settings are checked and again
when the client is made, and with every request a resource is put to it. The check foresees the
other two. There is a service exactly if the settings can be used, and a URL of the web can always
be extended, so that no request fails for want of a URL.

## Main statements

* `check_eq_ok_iff`, `check_eq_error_iff`: which settings pass the check, and which fault counts.
* `new_eq_error_iff`: what passes the check does not fail later.
* `startup_complete`: this for the service, and what follows for its requests.
-/
namespace ObserverRelay.Relay

open Json Net
open Url (DomainNames)

/-! ## The check of the settings -/

namespace Settings

section

variable [DomainNames]

/-- A text that is the URL of something on the web. -/
structure WebUrl (url : String) : Prop where
  present : url ≠ ""
  readable : ∃ u, Url.parse url = .ok u ∧ (u.scheme = "http" ∨ u.scheme = "https")

/-- What keeps a text from being that, the first reason of several. -/
inductive UrlFault (url : String) : SettingsError → Prop
  | missing (empty : url = "") : UrlFault url .missingUrl
  | unreadable {fault : Url.Fault} (present : url ≠ "") (refused : Url.parse url = .error fault) :
      UrlFault url (.unreadableUrl url fault)
  | scheme {u : Url} (present : url ≠ "") (parsed : Url.parse url = .ok u)
      (other : ¬(u.scheme = "http" ∨ u.scheme = "https")) :
      UrlFault url (.unsupportedScheme url u.scheme)

/-- Settings that a relay can work with. Of the time limit it only matters whether it is zero, in
whatever unit it is counted. -/
structure Usable (s : Settings) : Prop where
  url : WebUrl (trimUrl s.proxyUrl)
  timeout : s.timeout ≠ some .zero
  maxBody : s.maxBody ≠ 0

/-- A fault of settings, everything that is looked at before it being in order. -/
inductive FirstFault (s : Settings) : SettingsError → Prop
  | url {e : SettingsError} (fault : UrlFault (trimUrl s.proxyUrl) e) : FirstFault s e
  | timeout (url : WebUrl (trimUrl s.proxyUrl)) (zero : s.timeout = some .zero) :
      FirstFault s .zeroTimeout
  | maxBody (url : WebUrl (trimUrl s.proxyUrl)) (timeout : s.timeout ≠ some .zero)
      (zero : s.maxBody = 0) : FirstFault s .zeroMaxBody

variable {s t : Settings} {e : SettingsError} {url : String}

/-- A URL of the web can be extended, so the last question of the check is never answered no. -/
theorem WebUrl.checkUrl (web : WebUrl url) : Settings.checkUrl url = .ok () := by
  obtain ⟨present, u, parsed, scheme⟩ := web
  have extensible : ¬u.isOpaque = true := by
    rw [(Url.clear_of_parse parsed scheme).isOpaque_eq_false]
    decide
  have known : ¬(u.scheme ≠ "http" ∧ u.scheme ≠ "https") := by
    rwa [not_and_or, not_not, not_not]
  simp only [Settings.checkUrl, if_neg present, parsed, if_neg known, if_neg extensible]

theorem UrlFault.checkUrl (fault : UrlFault url e) : Settings.checkUrl url = .error e := by
  cases fault with
  | missing empty => simp only [Settings.checkUrl, if_pos empty]
  | unreadable present refused => simp only [Settings.checkUrl, if_neg present, refused]
  | scheme present parsed other =>
    simp only [Settings.checkUrl, if_neg present, parsed, if_pos (not_or.mp other)]

theorem webUrl_or_fault (url : String) : WebUrl url ∨ ∃ e, UrlFault url e := by
  by_cases empty : url = ""
  · exact .inr ⟨_, .missing empty⟩
  · cases parsed : Url.parse url with
    | error fault => exact .inr ⟨_, .unreadable empty parsed⟩
    | ok u =>
      by_cases web : u.scheme = "http" ∨ u.scheme = "https"
      · exact .inl ⟨empty, u, parsed, web⟩
      · exact .inr ⟨_, .scheme empty parsed web⟩

theorem Usable.check (usable : s.Usable) :
    s.check = .ok { s with proxyUrl := trimUrl s.proxyUrl } := by
  simp only [Settings.check, usable.url.checkUrl, if_neg usable.timeout, if_neg usable.maxBody]

theorem FirstFault.check (fault : s.FirstFault e) : s.check = .error e := by
  cases fault with
  | url fault => simp only [Settings.check, fault.checkUrl]
  | timeout url zero => simp only [Settings.check, url.checkUrl, if_pos zero]
  | maxBody url timeout zero => simp only [Settings.check, url.checkUrl, if_neg timeout, if_pos zero]

theorem usable_or_fault (s : Settings) : s.Usable ∨ ∃ e, s.FirstFault e := by
  obtain web | ⟨e, fault⟩ := webUrl_or_fault (trimUrl s.proxyUrl)
  · by_cases timeout : s.timeout = some .zero
    · exact .inr ⟨_, .timeout web timeout⟩
    · by_cases maxBody : s.maxBody = 0
      · exact .inr ⟨_, .maxBody web timeout maxBody⟩
      · exact .inl ⟨web, timeout, maxBody⟩
  · exact .inr ⟨e, .url fault⟩

/-- Exactly the settings that can be used pass the check, with nothing but their URL trimmed. -/
theorem check_eq_ok_iff :
    s.check = .ok t ↔ s.Usable ∧ t = { s with proxyUrl := trimUrl s.proxyUrl } := by
  constructor
  · intro checked
    obtain usable | ⟨e, fault⟩ := s.usable_or_fault
    · exact ⟨usable, eq_of_check checked⟩
    · rw [fault.check] at checked
      cases checked
  · rintro ⟨usable, rfl⟩
    exact usable.check

/-- All others are refused for their first fault. -/
theorem check_eq_error_iff : s.check = .error e ↔ s.FirstFault e := by
  constructor
  · intro refused
    obtain usable | ⟨e', fault⟩ := s.usable_or_fault
    · rw [usable.check] at refused
      cases refused
    · rw [fault.check] at refused
      cases refused
      exact fault
  · exact FirstFault.check

end

end Settings

/-! ## The service -/

namespace Service

section

variable [DomainNames] {s : Settings} {e : ServiceError}

theorem new_of_usable (usable : s.Usable) : ∃ service, Service.new s = .ok service := by
  obtain ⟨base, -, made, -⟩ := exists_base_of_check usable.check
  refine ⟨⟨{ s with proxyUrl := Settings.trimUrl s.proxyUrl }, ⟨base, s.timeout⟩⟩, ?_⟩
  simp only [Service.new, usable.check, made]

theorem new_of_fault {fault : SettingsError} (first : s.FirstFault fault) :
    Service.new s = .error (.settings fault) := by
  simp only [Service.new, first.check]

/-- There is a service exactly for settings that can be used. -/
theorem exists_new_iff : (∃ service, Service.new s = .ok service) ↔ s.Usable := by
  refine ⟨fun ⟨service, made⟩ => ?_, new_of_usable⟩
  exact (Settings.check_eq_ok_iff.mp (check_of_new made).1).1

/-- The only errors are those of the check. -/
theorem new_eq_error_iff :
    Service.new s = .error e ↔ ∃ fault, e = .settings fault ∧ s.FirstFault fault := by
  constructor
  · intro refused
    obtain usable | ⟨fault, first⟩ := s.usable_or_fault
    · obtain ⟨service, made⟩ := new_of_usable usable
      rw [made] at refused
      cases refused
    · rw [new_of_fault first] at refused
      cases refused
      exact ⟨fault, rfl, first⟩
  · rintro ⟨fault, rfl, first⟩
    exact new_of_fault first

end

end Service

/-! ## The requests of a service -/

/-- A response as it is sent for a request: without its body if that was `HEAD`. -/
def shownTo (request : Inbound) (r : Response) : Response :=
  if request.method = "HEAD" then r.headOnly else r

/-- A plan to ask the proxy comes from a route that does so, and finishes as its call does. -/
theorem finishes_of_plan {s : Settings} {describe : Resource → String} {request : Inbound}
    {wait : Duration} {call : Call} {finish : Except RelayError Answer → Response}
    (planned : Router.plan s describe request = .ask wait call finish) :
    ∃ whole, Finishes s describe call whole ∧ finish = shownTo request ∘ whole := by
  have unanswered {r : Response} (silent : Router.plan s describe request =
      if request.method = "HEAD" then (Plan.respond r).mapResponse Response.headOnly
      else .respond r) : False := by
    rw [planned] at silent
    split at silent <;> cases silent
  cases routed : request.route? with
  | none => exact (unanswered (plan_of_unknown s describe routed)).elim
  | some route =>
    by_cases allowed : request.method ∈ route.methods
    · have whole := plan_of_allowed s describe routed allowed
      obtain ⟨r, rejects⟩ | ⟨wait', call', asks⟩ | rfl := rejects_or_asks s request route
      · rw [planRoute_of_rejects rejects] at whole
        exact (unanswered whole).elim
      · obtain ⟨finish', finishes, asked⟩ := planRoute_of_asks describe asks
        rw [planned, asked] at whole
        by_cases head : request.method = "HEAD"
        · obtain ⟨-, rfl, rfl⟩ := Plan.ask.inj (whole.trans (if_pos head))
          exact ⟨finish', finishes, by funext a; simp [shownTo, head]⟩
        · obtain ⟨-, rfl, rfl⟩ := Plan.ask.inj (whole.trans (if_neg head))
          exact ⟨finish, finishes, by funext a; simp [shownTo, head]⟩
      · exact (unanswered whole).elim
    · exact (unanswered (plan_of_notAllowed s describe routed allowed)).elim

/-- What goes wrong in an exchange is not that there is no URL for it. -/
theorem Fails.ne_badUrl {url : String} {wantSuccess : Bool} {ending : Ending} {e : RelayError}
    (fails : Fails url wantSuccess ending e) (text : String) : e ≠ .badUrl text := by
  cases fails <;> nofun

theorem StatusReport.read_ne_badUrl {url text : String} {body : Bytes} :
    StatusReport.read url body ≠ .error (.badUrl text) := by
  rw [StatusReport.read]
  split
  next => nofun
  next => split <;> nofun

namespace Service

variable {σ : Type} [Transport σ]

/-- A request ends in an error of the relay: its call to the proxy failed, or the report of a node
was to be made from an answer that holds none. -/
inductive EndsIn (service : Service) (n : σ) (request : Inbound) : RelayError → Prop
  | unanswered {call : Call} {e : RelayError}
      (called : (service.handle n request).calls = [call])
      (failed : (service.client.ask n call).1 = some (.error e)) : EndsIn service n request e
  | misreported {answer : Answer} {e : RelayError}
      (called : (service.handle n request).calls =
        [.read (.networkStatus service.settings.shard) []])
      (answered : (service.client.ask n (.read (.networkStatus service.settings.shard) [])).1 =
        some (.ok answer))
      (unreadable : StatusReport.read
        (service.client.describe (.networkStatus service.settings.shard)) answer.body = .error e) :
      EndsIn service n request e

variable {s : Settings} {service : Service} {n : σ} {request : Inbound} {failure : RelayError}

/-- A request with a call was planned as this call, and the client's answer makes its response. -/
theorem exists_plan_of_calls {call : Call} (called : (service.handle n request).calls = [call]) :
    ∃ wait finish, Router.plan service.settings service.client.describe request =
        .ask wait call finish ∧
      (service.handle n request).response = (service.client.ask n call).1.map finish := by
  rw [handle] at called ⊢
  cases planned : Router.plan service.settings service.client.describe request with
  | respond r =>
    rw [planned] at called
    cases called
  | ask wait call' finish =>
    rw [planned] at called
    obtain rfl : call' = call := by simpa using called
    exact ⟨wait, finish, rfl, rfl⟩

/-- A request that ends in an error is answered with this error. -/
theorem response_of_endsIn (ends : service.EndsIn n request failure) :
    (service.handle n request).response = some (shownTo request (.ofError failure)) := by
  cases ends with
  | unanswered called failed =>
    obtain ⟨wait, finish, planned, response⟩ := exists_plan_of_calls called
    obtain ⟨whole, finishes, rfl⟩ := finishes_of_plan planned
    rw [response, failed]
    cases finishes <;> rfl
  | misreported called answered unreadable =>
    obtain ⟨wait, finish, planned, response⟩ := exists_plan_of_calls called
    obtain ⟨whole, finishes, rfl⟩ := finishes_of_plan planned
    rw [response, answered]
    cases finishes with
    | passedOn _ other => exact absurd rfl other
    | status =>
      simp only [Option.map_some, Function.comp_apply, Router.passStatus, unreadable]

/-- The client of a service fails for what happened in the exchange, never for want of a URL. -/
theorem ask_ne_badUrl [DomainNames] {call : Call} {text : String}
    (made : Service.new s = .ok service) :
    (service.client.ask n call).1 ≠ some (.error (.badUrl text)) := by
  obtain ⟨u, built, -⟩ := urlFor_of_new made (Client.resource call)
  simp only [Client.ask, built]
  generalize (service.client.send n (Client.request u call)).ending = ending
  rcases delivers_or_fails_or_waits u.text (Client.wantsSuccess call) ending with
    ⟨status, body, delivers⟩ | ⟨e, fails⟩ | waits
  · rw [judge_of_delivers delivers]
    intro failed
    cases failed
  · rw [judge_of_fails fails]
    intro failed
    exact fails.ne_badUrl text (Except.error.inj (Option.some.inj failed))
  · rw [judge_of_waits waits]
    intro failed
    cases failed

theorem not_endsIn_badUrl [DomainNames] (made : Service.new s = .ok service) (text : String) :
    ¬service.EndsIn n request (.badUrl text) := by
  rintro (⟨-, failed⟩ | ⟨-, -, unreadable⟩)
  · exact ask_ne_badUrl made failed
  · exact StatusReport.read_ne_badUrl unreadable

/-- There is a service exactly for settings that can be used, whatever the names are that hosts may
have. All others are refused for their first fault, and for nothing that the client finds. A
service keeps its settings, with the URL trimmed. It has a URL for every resource, the one that it
describes, and a request that ends in an error is answered with it, which is never that there is no
URL. -/
theorem startup_complete [DomainNames] (s : Settings) :
    ((∃ service, Service.new s = .ok service) ↔ s.Usable) ∧
      (∀ e, Service.new s = .error e ↔ ∃ fault, e = .settings fault ∧ s.FirstFault fault) ∧
      ∀ service, Service.new s = .ok service →
        service.settings = { s with proxyUrl := Settings.trimUrl s.proxyUrl } ∧
        (∀ r, ∃ u, service.client.urlFor r = .ok u ∧ service.client.describe r = u.text) ∧
        ∀ (n : σ) request e, service.EndsIn n request e →
          (service.handle n request).response = some (shownTo request (.ofError e)) ∧
          ∀ text, e ≠ .badUrl text := by
  refine ⟨exists_new_iff, fun e => new_eq_error_iff, fun service made => ⟨?_, fun r => ?_, ?_⟩⟩
  · exact Settings.eq_of_check (check_of_new made).1
  · obtain ⟨u, built, described⟩ := urlFor_of_new made r
    exact ⟨u, built, described.symm⟩
  · rintro n request e ends
    refine ⟨response_of_endsIn ends, ?_⟩
    rintro text rfl
    exact not_endsIn_badUrl made text ends

section

/-- Tables that know one international name. -/
@[reducible] def bookNames : DomainNames where
  ascii? name := if name = "bücher.example" then some "xn--bcher-kva.example" else none

attribute [local instance] bookNames

/-- The report of a node, asked for by a caller who wants no body. -/
def headStatus : Inbound := ⟨"HEAD", "/node/status", none, []⟩

/-- Settings with a URL between blanks and slashes, and five seconds for an exchange. -/
def bookSettings : Settings :=
  { Settings.new "\t http://bücher.example// " 0 with timeout := some (.ofSeconds 5) }

/-- The URL of the proxy, its name in ASCII. -/
def bookUrl (parts : List String) : Url :=
  { proxyUrl parts with authority := some ⟨"", none, .name "xn--bcher-kva.example", none⟩ }

/-- The service of those settings. -/
def bookService : Service :=
  ⟨{ bookSettings with proxyUrl := "http://bücher.example" }, ⟨bookUrl [""], some (.ofSeconds 5)⟩⟩

/-- Settings with an international name between blanks and slashes make a service. When its proxy
is silent for five seconds, the caller is told so. -/
theorem startup_complete_blanks :
    Service.new bookSettings = .ok bookService ∧
      bookService.settings = { bookSettings with proxyUrl := "http://bücher.example" } ∧
      (bookService.handle (Network.scripted [.stalls]) headStatus).response =
        some (Response.ofError
          (.timeout "http://xn--bcher-kva.example/network/status/0")).headOnly := by
  have made : Service.new bookSettings = .ok bookService := by decide +kernel
  have built : bookService.client.urlFor (.networkStatus 0) =
      .ok (bookUrl ["network", "status", "0"]) := by decide +kernel
  have routed : headStatus.route? = some .status := by decide
  obtain ⟨finish, planned⟩ := exists_plan_of_asks bookService.client.describe routed (by decide)
    (.status : Asks bookService.settings headStatus .status _ _)
  have called : (bookService.handle (Network.scripted [.stalls]) headStatus).calls =
      [.read (.networkStatus 0) []] := by
    rw [handle_of_plan planned built]
    rfl
  have late : (bookService.client.ask (Network.scripted [.stalls])
      (.read (.networkStatus 0) [])).1 =
      some (.error (.timeout "http://xn--bcher-kva.example/network/status/0")) := by
    decide +kernel
  obtain ⟨-, -, served⟩ := startup_complete (σ := Network) bookSettings
  obtain ⟨settings, -, each⟩ := served bookService made
  exact ⟨made, settings.trans (by decide +kernel), (each _ _ _ (.unanswered called late)).1⟩

end

end Service

end ObserverRelay.Relay
