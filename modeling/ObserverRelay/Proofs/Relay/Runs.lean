import Mathlib.Data.List.GetD
import ObserverRelay.Proofs.Relay.Passing
/-!
# Runs of the router

A router handles requests one after the other with one proxy, here one that answers by a list of
replies. Each request is dealt with as if it came alone: of all replies it sees the one that its
own call takes, and it takes one only if it asks the proxy.

## Main statements

* `dealt_alone`: what is done for one request, a clause for each way to deal with it.
* `handle_scripted`: a request takes as many replies as it makes calls, and sees no other.
* `handleAll_scripted`: a run deals with each of its requests as if it came alone.
-/
namespace ObserverRelay.Relay

open Json Net

/-- A proxy that answers by a list of replies, one for each call, whatever it is asked. When none
are left it answers with `spare`. -/
def scripted (describe : Resource → String) (spare : Except RelayError Answer) :
    Proxy (List (Except RelayError Answer)) where
  describe := describe
  ask replies _ := (replies.headD spare, replies.tail)

/-- What is done for a request that comes alone, with a proxy that knows one reply only. -/
def alone (s : Settings) (describe : Resource → String) (request : Inbound)
    (reply : Except RelayError Answer) : Handled :=
  (Router.handle s (scripted describe reply) [] request).1

/-! ## Ways to deal with a request -/

/-- The route of a request, whether or not it allows the request's method. -/
def Inbound.route? (request : Inbound) : Option Route :=
  Route.ofPath? (splitTarget request.target).1

/-- A route rejects a request: a part of its path cannot be read, or its body cannot. -/
inductive Rejects (s : Settings) (request : Inbound) : Route → Rejection → Prop
  | epoch {raw : String} {r : Rejection}
      (unreadable : readNumber "epoch" "u32" Numeral.bound32 raw = .error r) :
      Rejects s request (.epochStart raw) r
  | nonce {raw : String} {r : Rejection}
      (unreadable : readNumber "nonce" "u64" Numeral.bound64 raw = .error r) :
      Rejects s request (.blockByNonce raw) r
  | account {raw : String} {r : Rejection} (unreadable : readParameter "address" raw = .error r) :
      Rejects s request (.account raw) r
  | holder {rawAddress rawToken : String} {r : Rejection}
      (unreadable : readParameter "address" rawAddress = .error r) :
      Rejects s request (.accountToken rawAddress rawToken) r
  | token {rawAddress rawToken address : String} {r : Rejection}
      (text : readParameter "address" rawAddress = .ok address)
      (unreadable : readParameter "token" rawToken = .error r) :
      Rejects s request (.accountToken rawAddress rawToken) r
  | body {r : Rejection} (unreadable : Router.readBody s request = .error r) :
      Rejects s request .send r

/-- A route asks the proxy for a request: the call that is made, and the wait before it. -/
inductive Asks (s : Settings) (request : Inbound) : Route → Duration → Call → Prop
  | status : Asks s request .status s.delay (.read (.networkStatus s.shard) [])
  | passedOn {route : Route} {r : Resource} {query : List (String × String)}
      (passed : PassedOn s.shard (readQuery (splitTarget request.target).2) route r query) :
      Asks s request route s.delay (.read r query)
  | send {body : Value} (accepted : Router.readBody s request = .ok body) :
      Asks s request .send .zero (.write .sendTransaction body)

/-- What becomes of the answer to a call: the report of a node is made from it, or it is passed on. -/
inductive Finishes (s : Settings) (describe : Resource → String) :
    Call → (Except RelayError Answer → Response) → Prop
  | status : Finishes s describe (.read (.networkStatus s.shard) [])
      (Router.passStatus (describe (.networkStatus s.shard)))
  | passedOn {r : Resource} (query : List (String × String)) (other : r ≠ .networkStatus s.shard) :
      Finishes s describe (.read r query) Router.passBody
  | send (body : Value) : Finishes s describe (.write .sendTransaction body) Router.passAnswer

/-- The routes that read from the proxy. -/
def Route.isRead : Route → Bool
  | .status | .epochStart _ | .blockByNonce _ | .accountToken _ _ | .account _ => true
  | .send | .health => false

/-- Whatever a request holds, its route rejects it, asks the proxy, or tells of the relay itself. -/
theorem rejects_or_asks (s : Settings) (request : Inbound) (route : Route) :
    (∃ r, Rejects s request route r) ∨ (∃ wait call, Asks s request route wait call) ∨
      route = .health := by
  cases route with
  | status => exact .inr (.inl ⟨_, _, .status⟩)
  | epochStart raw =>
    cases number : readNumber "epoch" "u32" Numeral.bound32 raw with
    | error r => exact .inl ⟨r, .epoch number⟩
    | ok n => exact .inr (.inl ⟨_, _, .passedOn (.epochStart number)⟩)
  | blockByNonce raw =>
    cases number : readNumber "nonce" "u64" Numeral.bound64 raw with
    | error r => exact .inl ⟨r, .nonce number⟩
    | ok n => exact .inr (.inl ⟨_, _, .passedOn (.blockByNonce number)⟩)
  | account raw =>
    cases text : readParameter "address" raw with
    | error r => exact .inl ⟨r, .account text⟩
    | ok address => exact .inr (.inl ⟨_, _, .passedOn (.account text)⟩)
  | accountToken rawAddress rawToken =>
    cases text : readParameter "address" rawAddress with
    | error r => exact .inl ⟨r, .holder text⟩
    | ok address =>
      cases text' : readParameter "token" rawToken with
      | error r => exact .inl ⟨r, .token text text'⟩
      | ok token => exact .inr (.inl ⟨_, _, .passedOn (.accountToken text text')⟩)
  | send =>
    cases read : Router.readBody s request with
    | error r => exact .inl ⟨r, .body read⟩
    | ok body => exact .inr (.inl ⟨_, _, .send read⟩)
  | health => exact .inr (.inr rfl)

section Plans
variable {s : Settings} {describe : Resource → String} {request : Inbound} {route : Route}
  {query : List (String × String)}

theorem planRoute_of_rejects {r : Rejection} (rejects : Rejects s request route r) :
    Router.planRoute s describe request query route = .error r := by
  cases rejects with
  | epoch unreadable | nonce unreadable | account unreadable | holder unreadable | body unreadable =>
    simp only [Router.planRoute, unreadable]
    rfl
  | token text unreadable =>
    simp only [Router.planRoute, text, unreadable]
    rfl

theorem planRoute_of_asks (describe : Resource → String) {wait : Duration} {call : Call}
    (asks : Asks s request route wait call) :
    ∃ finish, Finishes s describe call finish ∧
      Router.planRoute s describe request (readQuery (splitTarget request.target).2) route =
        .ok (.ask wait call finish) := by
  cases asks with
  | status => exact ⟨_, .status, rfl⟩
  | passedOn passed =>
    refine ⟨Router.passBody, .passedOn _ ?_, planRoute_of_passedOn passed⟩
    cases passed <;> nofun
  | @send body accepted =>
    refine ⟨Router.passAnswer, .send body, ?_⟩
    simp only [Router.planRoute, accepted]
    rfl

/-- A route that allows the request's method decides what is done. The response to `HEAD` has no
body. -/
theorem plan_of_allowed (s : Settings) (describe : Resource → String)
    (routed : request.route? = some route) (allowed : request.method ∈ route.methods) :
    Router.plan s describe request =
      let whole := Plan.orReject (Router.planRoute s describe request
        (readQuery (splitTarget request.target).2) route)
      if request.method = "HEAD" then whole.mapResponse Response.headOnly else whole := by
  rw [Inbound.route?] at routed
  simp [Router.plan, routed, allowed]

/-- What is planned without a route. -/
theorem plan_of_unknown (s : Settings) (describe : Resource → String)
    (unknown : request.route? = none) :
    Router.plan s describe request =
      if request.method = "HEAD" then (Plan.respond .notFound).mapResponse Response.headOnly
      else .respond .notFound := by
  rw [Inbound.route?] at unknown
  simp [Router.plan, unknown]

/-- What is planned where the route does not allow the request's method. -/
theorem plan_of_notAllowed (s : Settings) (describe : Resource → String)
    (routed : request.route? = some route) (refused : request.method ∉ route.methods) :
    Router.plan s describe request =
      if request.method = "HEAD" then
        (Plan.respond (.notAllowed route.allow)).mapResponse Response.headOnly
      else .respond (.notAllowed route.allow) := by
  rw [Inbound.route?] at routed
  simp [Router.plan, routed, refused]

/-- A request for which its route asks the proxy is planned as this call behind this wait. -/
theorem exists_plan_of_asks (describe : Resource → String) {wait : Duration} {call : Call}
    (routed : request.route? = some route) (allowed : request.method ∈ route.methods)
    (asks : Asks s request route wait call) :
    ∃ finish, Router.plan s describe request = .ask wait call finish := by
  obtain ⟨finish, -, asked⟩ := planRoute_of_asks describe asks
  rw [plan_of_allowed s describe routed allowed, asked]
  by_cases head : request.method = "HEAD"
  · exact ⟨Response.headOnly ∘ finish, if_pos head⟩
  · exact ⟨finish, if_neg head⟩

/-- What is done alone is what the plan says, but for the body of a response to `HEAD`. -/
theorem alone_of_plan {whole : Plan} (reply : Except RelayError Answer)
    (planned : Router.plan s describe request =
      if request.method = "HEAD" then whole.mapResponse Response.headOnly else whole) :
    (alone s describe request reply).response.status =
        (whole.run (scripted describe reply) []).1.response.status ∧
      (alone s describe request reply).calls = (whole.run (scripted describe reply) []).1.calls ∧
      (alone s describe request reply).waited = (whole.run (scripted describe reply) []).1.waited := by
  have planned' : Router.plan s (scripted describe reply).describe request = _ := planned
  rw [alone, Router.handle, planned']
  by_cases head : request.method = "HEAD"
  · rw [if_pos head]
    cases whole <;> exact ⟨rfl, rfl, rfl⟩
  · rw [if_neg head]
    exact ⟨rfl, rfl, rfl⟩

end Plans

/-! ## One request -/

/-- A request is answered without a call and without a wait. -/
structure Handled.Silent (handled : Handled) : Prop where
  calls : handled.calls = []
  waited : handled.waited = .zero

section Alone
variable {s : Settings} {describe : Resource → String} {request : Inbound} {route : Route}
  (reply : Except RelayError Answer)

theorem alone_of_unknown (unknown : request.route? = none) :
    (alone s describe request reply).response.status = 404 ∧ (alone s describe request reply).Silent := by
  obtain ⟨status, calls, waited⟩ := alone_of_plan reply (plan_of_unknown s describe unknown)
  exact ⟨status, calls, waited⟩

theorem alone_of_notAllowed (routed : request.route? = some route)
    (refused : request.method ∉ route.methods) :
    (alone s describe request reply).response.status = 405 ∧ (alone s describe request reply).Silent := by
  have planned := plan_of_notAllowed s describe routed refused
  obtain ⟨status, calls, waited⟩ := alone_of_plan reply planned
  exact ⟨status, calls, waited⟩

theorem alone_of_rejects {r : Rejection} (routed : request.route? = some route)
    (allowed : request.method ∈ route.methods) (rejects : Rejects s request route r) :
    (alone s describe request reply).response.status = r.status ∧
      (alone s describe request reply).Silent := by
  have planned := plan_of_allowed s describe routed allowed
  rw [planRoute_of_rejects rejects] at planned
  obtain ⟨status, calls, waited⟩ := alone_of_plan reply planned
  exact ⟨status, calls, waited⟩

theorem alone_of_health (routed : request.route? = some .health) :
    (alone s describe request reply).Silent := by
  by_cases allowed : request.method ∈ Route.health.methods
  · obtain ⟨-, calls, waited⟩ := alone_of_plan reply (plan_of_allowed s describe routed allowed)
    exact ⟨calls, waited⟩
  · exact (alone_of_notAllowed reply routed allowed).2

variable (describe) in
theorem alone_of_asks {wait : Duration} {call : Call} (routed : request.route? = some route)
    (allowed : request.method ∈ route.methods) (asks : Asks s request route wait call) :
    (alone s describe request reply).calls = [call] ∧
      (alone s describe request reply).waited = wait := by
  obtain ⟨finish, planned⟩ := exists_plan_of_asks describe routed allowed asks
  have planned' : Router.plan s (scripted describe reply).describe request = _ := planned
  rw [alone, Router.handle, planned']
  exact ⟨rfl, rfl⟩

/-- A request is answered in silence, or its route allows its method and asks the proxy. -/
theorem silent_or_asks (s : Settings) (describe : Resource → String) (request : Inbound)
    (reply : Except RelayError Answer) :
    (alone s describe request reply).Silent ∨ ∃ route wait call, request.route? = some route ∧
      request.method ∈ route.methods ∧ Asks s request route wait call := by
  cases routed : request.route? with
  | none => exact .inl (alone_of_unknown reply routed).2
  | some route =>
    by_cases allowed : request.method ∈ route.methods
    · obtain ⟨r, rejects⟩ | ⟨wait, call, asks⟩ | rfl := rejects_or_asks s request route
      · exact .inl (alone_of_rejects reply routed allowed rejects).2
      · exact .inr ⟨route, wait, call, rfl, allowed, asks⟩
      · exact .inl (alone_of_health reply routed)
    · exact .inl (alone_of_notAllowed reply routed allowed).2

end Alone

/-- A call that is read comes from a route that reads, one that is written from that which sends. -/
theorem Asks.call_cases {s : Settings} {request : Inbound} {route : Route} {wait : Duration}
    {call : Call} (asks : Asks s request route wait call) :
    ((∃ r query, call = .read r query) ∧ route.isRead = true ∧ route.methods = ["GET", "HEAD"] ∧
        wait = s.delay) ∨
      (∃ body, call = .write .sendTransaction body) ∧ route = .send ∧ wait = .zero := by
  cases asks with
  | status => exact .inl ⟨⟨_, _, rfl⟩, rfl, rfl, rfl⟩
  | passedOn passed => cases passed <;> exact .inl ⟨⟨_, _, rfl⟩, rfl, rfl, rfl⟩
  | send => exact .inr ⟨⟨_, rfl⟩, rfl, rfl⟩

/-- What is done for a request. Reading from the proxy is done on the routes that read, for `GET`
and `HEAD`, behind a wait of the delay that is set; writing is done where a transaction is sent,
for `POST`, without a wait. All else is answered in silence. -/
structure Dealt (s : Settings) (request : Inbound) (handled : Handled) : Prop where
  calls_le : handled.calls.length ≤ 1
  reads : ∀ r query, .read r query ∈ handled.calls →
    (∃ route, request.route? = some route ∧ route.isRead = true) ∧
      (request.method = "GET" ∨ request.method = "HEAD") ∧ handled.waited = s.delay
  writes : ∀ r body, .write r body ∈ handled.calls →
    request.route? = some .send ∧ request.method = "POST" ∧ r = .sendTransaction ∧
      handled.waited = .zero
  asked : ∀ route wait call, request.route? = some route → request.method ∈ route.methods →
    Asks s request route wait call → handled.calls = [call] ∧ handled.waited = wait
  unknown : request.route? = none → handled.response.status = 404 ∧ handled.Silent
  notAllowed : ∀ route, request.route? = some route → request.method ∉ route.methods →
    handled.response.status = 405 ∧ handled.Silent
  rejected : ∀ route r, request.route? = some route → request.method ∈ route.methods →
    Rejects s request route r → handled.response.status = r.status ∧ handled.Silent
  health : request.route? = some .health → handled.Silent

/-- A request that comes alone is dealt with, whatever the proxy's reply is. -/
theorem dealt_alone (s : Settings) (describe : Resource → String) (request : Inbound)
    (reply : Except RelayError Answer) : Dealt s request (alone s describe request reply) where
  calls_le := by
    obtain silent | ⟨route, wait, call, routed, allowed, asks⟩ := silent_or_asks s describe request reply
    · simp [silent.calls]
    · simp [(alone_of_asks describe reply routed allowed asks).1]
  reads := by
    intro r query called
    obtain silent | ⟨route, wait, call, routed, allowed, asks⟩ := silent_or_asks s describe request reply
    · simp [silent.calls] at called
    · obtain ⟨calls, waited⟩ := alone_of_asks describe reply routed allowed asks
      obtain ⟨-, reads, methods, rfl⟩ | ⟨⟨body, rfl⟩, -⟩ := asks.call_cases
      · refine ⟨⟨route, routed, reads⟩, ?_, waited⟩
        simpa [methods] using allowed
      · simp [calls] at called
  writes := by
    intro r body called
    obtain silent | ⟨route, wait, call, routed, allowed, asks⟩ := silent_or_asks s describe request reply
    · simp [silent.calls] at called
    · obtain ⟨calls, waited⟩ := alone_of_asks describe reply routed allowed asks
      obtain ⟨⟨r', query, rfl⟩, -⟩ | ⟨⟨body', rfl⟩, rfl, rfl⟩ := asks.call_cases
      · simp [calls] at called
      · obtain ⟨rfl, rfl⟩ : r = .sendTransaction ∧ body = body' := by simpa [calls] using called
        refine ⟨routed, ?_, rfl, waited⟩
        simpa [Route.methods] using allowed
  asked _ _ _ routed allowed asks := alone_of_asks describe reply routed allowed asks
  unknown unknown := alone_of_unknown reply unknown
  notAllowed _ routed refused := alone_of_notAllowed reply routed refused
  rejected _ _ routed allowed rejects := alone_of_rejects reply routed allowed rejects
  health routed := alone_of_health reply routed

/-! ## Runs -/

section Script
variable (s : Settings) (describe : Resource → String) (spare : Except RelayError Answer)

/-- A request takes as many replies as it makes calls, and sees only the first one that is left. -/
theorem handle_scripted (replies : List (Except RelayError Answer)) (request : Inbound) :
    Router.handle s (scripted describe spare) replies request =
      (alone s describe request (replies.headD spare),
        replies.drop (alone s describe request (replies.headD spare)).calls.length) := by
  have same : (scripted describe spare).describe = (scripted describe (replies.headD spare)).describe :=
    rfl
  simp only [alone, Router.handle, same]
  cases Router.plan s (scripted describe (replies.headD spare)).describe request with
  | respond r => rfl
  | ask wait call finish => simp [Plan.run, scripted]

/-- Calls and wait do not depend on what the proxy replies; without a call nothing does. -/
theorem alone_of_reply (request : Inbound) (reply other : Except RelayError Answer) :
    (alone s describe request reply).calls = (alone s describe request other).calls ∧
      (alone s describe request reply).waited = (alone s describe request other).waited ∧
      ((alone s describe request reply).calls = [] →
        alone s describe request reply = alone s describe request other) := by
  have same : (scripted describe reply).describe = (scripted describe other).describe := rfl
  simp only [alone, Router.handle, same]
  cases Router.plan s (scripted describe other).describe request with
  | respond r => exact ⟨rfl, rfl, fun _ => rfl⟩
  | ask wait call finish => simp [Plan.run]

/-- How many calls were made. -/
def callCount (hs : List Handled) : Nat := (hs.flatMap Handled.calls).length

@[simp] theorem callCount_nil : callCount [] = 0 := rfl

@[simp] theorem callCount_cons (h : Handled) (hs : List Handled) :
    callCount (h :: hs) = h.calls.length + callCount hs := by
  simp [callCount]

theorem callCount_eq_of_map {hs hs' : List Handled} (h : hs.map Handled.calls = hs'.map Handled.calls)
    (i : Nat) : callCount (hs.take i) = callCount (hs'.take i) := by
  simp only [callCount, List.flatMap_def, List.map_take, h]

/-- A run has something done for each request, and takes as many replies as it makes calls. -/
theorem handleAll_rest (replies : List (Except RelayError Answer)) (requests : List Inbound) :
    (Router.handleAll s (scripted describe spare) replies requests).1.length = requests.length ∧
      (Router.handleAll s (scripted describe spare) replies requests).2 =
        replies.drop (callCount (Router.handleAll s (scripted describe spare) replies requests).1) := by
  induction requests generalizing replies with
  | nil => simp [Router.handleAll]
  | cons request rest ih =>
    simp only [Router.handleAll, handle_scripted]
    obtain ⟨length, left⟩ := ih (replies.drop (alone s describe request (replies.headD spare)).calls.length)
    rw [List.length_cons, List.length_cons, length, left, callCount_cons, List.drop_drop]
    exact ⟨rfl, rfl⟩

/-- A run deals with each request as if it came alone with the reply that is next: the one behind
those that the calls before it have taken. -/
theorem handleAll_getElem? (replies : List (Except RelayError Answer)) (requests : List Inbound)
    (i : Nat) :
    (Router.handleAll s (scripted describe spare) replies requests).1[i]? =
      requests[i]?.map fun request => alone s describe request
        (replies.getD (callCount
          ((Router.handleAll s (scripted describe spare) replies requests).1.take i)) spare) := by
  induction requests generalizing replies i with
  | nil => simp [Router.handleAll]
  | cons request rest ih =>
    simp only [Router.handleAll, handle_scripted]
    cases i with
    | zero =>
      have front : replies.getD 0 spare = replies.headD spare := by cases replies <;> rfl
      rw [List.take_zero, callCount_nil, front]
      rfl
    | succ i =>
      rw [List.getElem?_cons_succ, List.getElem?_cons_succ, ih, List.take_succ_cons, callCount_cons]
      simp only [List.getD_eq_getElem?_getD, List.getElem?_drop]

/-- Which calls a run makes depends on its requests alone. -/
theorem map_calls_handleAll (replies replies' : List (Except RelayError Answer))
    (requests : List Inbound) :
    (Router.handleAll s (scripted describe spare) replies requests).1.map Handled.calls =
      (Router.handleAll s (scripted describe spare) replies' requests).1.map Handled.calls := by
  apply List.ext_getElem?
  intro i
  rw [List.getElem?_map, List.getElem?_map, handleAll_getElem?, handleAll_getElem?, Option.map_map,
    Option.map_map]
  congr 1
  funext request
  exact (alone_of_reply s describe request _ _).1

end Script

/-- A run of the router deals with each of its requests as the clauses of `Dealt` say. It does for a
request what it would do if that came alone with one reply: the one behind those that the calls
before it have taken. So requests that are alike make the same call, and neither the requests around
one nor the replies to their calls change what is done for it. -/
theorem handleAll_scripted (s : Settings) (describe : Resource → String)
    (spare : Except RelayError Answer) (replies : List (Except RelayError Answer))
    (requests : List Inbound) :
    let run := Router.handleAll s (scripted describe spare) replies requests
    run.1.length = requests.length ∧ run.2 = replies.drop (callCount run.1) ∧
      ∀ (i : Nat) (request : Inbound) (handled : Handled), requests[i]? = some request →
        run.1[i]? = some handled →
        let own := callCount (run.1.take i)
        Dealt s request handled ∧
          handled = alone s describe request (replies.getD own spare) ∧
          (handled.calls = [] → ∀ reply, handled = alone s describe request reply) ∧
          (∀ (j : Nat) (handled' : Handled), requests[j]? = some request → run.1[j]? = some handled' →
            handled'.calls = handled.calls ∧ handled'.waited = handled.waited) ∧
          ∀ replies', replies'.getD own spare = replies.getD own spare →
            (Router.handleAll s (scripted describe spare) replies' requests).1[i]? = some handled := by
  obtain ⟨length, left⟩ := handleAll_rest s describe spare replies requests
  refine ⟨length, left, ?_⟩
  intro i request handled here done
  have found := handleAll_getElem? s describe spare replies requests i
  rw [done, here, Option.map_some, Option.some.injEq] at found
  refine ⟨?_, found, ?_, ?_, ?_⟩
  · rw [found]
    exact dealt_alone s describe request _
  · intro silent reply
    rw [found] at silent ⊢
    exact (alone_of_reply s describe request _ reply).2.2 silent
  · intro j handled' here' done'
    have found' := handleAll_getElem? s describe spare replies requests j
    rw [done', here', Option.map_some, Option.some.injEq] at found'
    obtain ⟨calls, waited, -⟩ := alone_of_reply s describe request
      (replies.getD (callCount ((Router.handleAll s (scripted describe spare) replies requests).1.take j))
        spare)
      (replies.getD (callCount ((Router.handleAll s (scripted describe spare) replies requests).1.take i))
        spare)
    rw [found, found']
    exact ⟨calls, waited⟩
  · intro replies' same
    have count := callCount_eq_of_map (map_calls_handleAll s describe spare replies' replies requests) i
    rw [handleAll_getElem?, here, Option.map_some, count, same, ← found]

/-- A request to read. -/
def readRequest (target : String) : Inbound := ⟨"GET", target, none, []⟩

/-- A request that fails and comes again later asks again, and takes the reply behind that to its
first call; the one between them takes none. -/
theorem handleAll_scripted_repeated :
    let run := Router.handleAll (.new "http://proxy" 0) (scripted (fun _ => "") (.ok ⟨200, []⟩))
      [.error (.timeout "http://proxy/address/a"), .ok ⟨200, Bytes.ofText "[1]"⟩]
      [readRequest "/address/a", readRequest "/nowhere", readRequest "/address/a"]
    run.2 = [] ∧ ∃ handled, run.1[2]? = some handled ∧ handled.calls = [.read (.account "a") []] ∧
      handled = alone (.new "http://proxy" 0) (fun _ => "") (readRequest "/address/a")
        (.ok ⟨200, Bytes.ofText "[1]"⟩) := by
  have text : readParameter "address" "a" = .ok "a" := by decide +kernel
  have routed : (readRequest "/address/a").route? = some (.account "a") := by decide
  have planned (describe : Resource → String) :
      Router.plan (.new "http://proxy" 0) describe (readRequest "/address/a") =
        .ask .zero (.read (.account "a") []) Router.passBody :=
    plan_of_passedOn rfl routed (.account text)
  have unknown (describe : Resource → String) :
      Router.plan (.new "http://proxy" 0) describe (readRequest "/nowhere") = .respond .notFound := by
    rfl
  obtain ⟨-, left, each⟩ := handleAll_scripted (.new "http://proxy" 0) (fun _ => "") (.ok ⟨200, []⟩)
    [.error (.timeout "http://proxy/address/a"), .ok ⟨200, Bytes.ofText "[1]"⟩]
    [readRequest "/address/a", readRequest "/nowhere", readRequest "/address/a"]
  simp only [Router.handleAll, Router.handle, planned, unknown, Plan.run, scripted] at left each ⊢
  obtain ⟨-, same, -⟩ := each 2 _ _ rfl rfl
  exact ⟨left, _, rfl, rfl, same⟩

end ObserverRelay.Relay
