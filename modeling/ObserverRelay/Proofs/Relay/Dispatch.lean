import ObserverRelay.Proofs.Relay.Runs
import ObserverRelay.Proofs.Text.Pieces
import ObserverRelay.Proofs.Url.Appending
/-!
# Which route takes a request

A path is compared with those of the routes as it was sent, so that no escape ever makes a slash or
a word of the path. What stands for a parameter holds no slash, and is not empty at the end of a
path; its escapes are resolved once the route is known. Every text but the empty one can be sent as
a parameter.

## Main statements

* `ofPath?_eq_some_iff`: the paths of each route.
* `readParameter_eq_ok_iff`: what a parameter stands for.
* `requests_dispatched`: which requests are handed to a route, and what becomes of the others.
-/
namespace ObserverRelay.Relay

open Net

/-! ## Paths -/

/-- The path of a request, as it was sent. -/
def Inbound.path (request : Inbound) : List Char := (splitTarget request.target).1

/-- The pairs of a request's query. -/
def Inbound.pairs (request : Inbound) : List (String × String) :=
  readQuery (splitTarget request.target).2

namespace Route

/-- The path of a route. -/
def path : Route → List Char
  | status => "/node/status".toList
  | epochStart e => "/node/epoch-start/".toList ++ e.toList
  | blockByNonce n => "/block/by-nonce/".toList ++ n.toList
  | accountToken a t => "/address/".toList ++ (a.toList ++ ("/esdt/".toList ++ t.toList))
  | account a => "/address/".toList ++ a.toList
  | send => "/transaction/send".toList
  | health => "/health".toList

/-- The parts of a route's path. -/
def parts : Route → List String
  | status => ["", "node", "status"]
  | epochStart e => ["", "node", "epoch-start", e]
  | blockByNonce n => ["", "block", "by-nonce", n]
  | accountToken a t => ["", "address", a, "esdt", t]
  | account a => ["", "address", a]
  | send => ["", "transaction", "send"]
  | health => ["", "health"]

/-- Those parts that stand for parameters. -/
def parameters : Route → List String
  | epochStart x | blockByNonce x | account x => [x]
  | accountToken a t => [a, t]
  | status | send | health => []

/-- The parameter at the end of a path. -/
def last? : Route → Option String
  | epochStart x | blockByNonce x | account x | accountToken _ x => some x
  | status | send | health => none

/-- A path leads to a route: it is written like this one, no parameter holds a slash, and that at
the end is not empty. -/
structure At (path : List Char) (r : Route) : Prop where
  written : path = r.path
  noSlash : ∀ x ∈ r.parameters, '/' ∉ x.toList
  nonempty : ∀ x ∈ r.last?, x ≠ ""

/-- A path consists of its parts, with slashes between them. -/
theorem path_eq_intercalate (r : Route) : r.path = ['/'].intercalate (r.parts.map String.toList) := by
  cases r with
  | status | send | health | epochStart | blockByNonce | account | accountToken =>
    simp only [parts, List.map_cons, List.map_nil, List.intercalate_cons_cons,
      List.intercalate_singleton, List.append_assoc]
    rfl

theorem ofParts?_eq_some_iff {ps : List String} {r : Route} :
    ofParts? ps = some r ↔ ps = r.parts ∧ ∀ x ∈ r.last?, x ≠ "" := by
  constructor
  · intro h
    unfold ofParts? at h
    split at h
    case h_8 => cases h
    case h_1 | h_6 | h_7 =>
      cases h
      exact ⟨rfl, nofun⟩
    case h_2 | h_3 | h_4 | h_5 =>
      split_ifs at h with empty
      cases h
      exact ⟨rfl, by simpa [last?] using empty⟩
  · rintro ⟨rfl, nonempty⟩
    cases r <;> simp_all [ofParts?, parts, last?]

/-- The words of which paths consist. -/
def words : List String :=
  ["", "node", "status", "epoch-start", "block", "by-nonce", "address", "esdt", "transaction", "send",
    "health"]

theorem mem_parts {r : Route} {p : String} (mem : p ∈ r.parts) : p ∈ r.parameters ∨ p ∈ words := by
  cases r with
  | status | send | health =>
    right
    revert p
    decide
  | epochStart | blockByNonce | account | accountToken =>
    simp only [parts, List.mem_cons, List.not_mem_nil, or_false] at mem
    simp only [parameters, words, List.mem_cons, List.not_mem_nil, or_false]
    tauto

theorem not_mem_parts {r : Route} {c : Char} (fixed : ∀ w ∈ words, c ∉ w.toList)
    (clear : ∀ x ∈ r.parameters, c ∉ x.toList) : ∀ p ∈ r.parts, c ∉ p.toList := by
  intro p mem
  rcases mem_parts mem with parameter | word
  · exact clear p parameter
  · exact fixed p word

theorem mem_parts_of_mem_parameters {r : Route} {x : String} (mem : x ∈ r.parameters) :
    x ∈ r.parts := by
  cases r with
  | status | send | health => cases mem
  | epochStart | blockByNonce | account =>
    obtain rfl : x = _ := by simpa [parameters] using mem
    simp [parts]
  | accountToken a t =>
    obtain rfl | rfl : x = a ∨ x = t := by simpa [parameters] using mem
    · simp [parts]
    · simp [parts]

/-- A path has the routes that it leads to, and no others. -/
theorem ofPath?_eq_some_iff {path : List Char} {r : Route} : ofPath? path = some r ↔ At path r := by
  have cut_iff : (Text.splitOnMember '/' path).map String.ofList = r.parts ↔
      Text.splitOnMember '/' path = r.parts.map String.toList := by
    constructor
    · intro h
      rw [← h, List.map_map]
      simp
    · intro h
      rw [h, List.map_map]
      simp
  rw [ofPath?, ofParts?_eq_some_iff, cut_iff, Text.splitOnMember_eq_iff,
    ← path_eq_intercalate]
  constructor
  · rintro ⟨⟨written, -, clear⟩, nonempty⟩
    refine ⟨written, fun x mem => ?_, nonempty⟩
    exact clear _ (List.mem_map_of_mem (mem_parts_of_mem_parameters mem))
  · rintro ⟨written, noSlash, nonempty⟩
    have clear := not_mem_parts (by decide) noSlash
    have some : r.parts.map String.toList ≠ [] := by cases r <;> nofun
    exact ⟨⟨written, some, List.forall_mem_map.mpr clear⟩, nonempty⟩

theorem ofPath?_eq_none_iff {path : List Char} : ofPath? path = none ↔ ∀ r, ¬At path r := by
  rw [Option.eq_none_iff_forall_ne_some]
  exact forall_congr' fun r => not_congr ofPath?_eq_some_iff

/-- A path leads to one route at most. -/
theorem At.unique {path : List Char} {r r' : Route} (h : At path r) (h' : At path r') : r = r' :=
  Option.some.inj ((ofPath?_eq_some_iff.mpr h).symm.trans (ofPath?_eq_some_iff.mpr h'))

/-- The methods that a route is asked with: transactions are sent with `POST`, all else is read. -/
def Allows (r : Route) (method : String) : Prop :=
  if r = .send then method = "POST" else method = "GET" ∨ method = "HEAD"

theorem mem_methods_iff {r : Route} {method : String} : method ∈ r.methods ↔ r.Allows method := by
  cases r <;> simp [methods, Allows]

theorem allow_eq (r : Route) : r.allow = if r = .send then "POST" else "GET,HEAD" := by
  cases r <;> rfl

end Route

/-- A target that begins with a slash stands for the path in front of its query and its fragment. -/
theorem splitTarget_of_path {path tail : List Char} (slash : path.head? = some '/')
    (noQuery : '?' ∉ path) (noFragment : '#' ∉ path) (ends : ∀ c ∈ tail.head?, c = '?' ∨ c = '#') :
    (splitTarget (String.ofList (path ++ tail))).1 = path := by
  obtain ⟨rest, rfl⟩ : ∃ rest, path = '/' :: rest := by
    cases path with
    | nil => cases slash
    | cons c rest => exact ⟨rest, by rw [Option.some.inj slash]⟩
  have keep {sep : Char} (clear : sep ∉ '/' :: rest) (behind : List Char) :
      ('/' :: rest ++ behind).takeWhile (· ≠ sep) = '/' :: rest ++ behind.takeWhile (· ≠ sep) :=
    List.takeWhile_append_of_pos fun c mem => decide_eq_true (ne_of_mem_of_not_mem mem clear)
  have cut : (tail.takeWhile (· ≠ '#')).takeWhile (· ≠ '?') = [] := by
    cases tail with
    | nil => rfl
    | cons c tail =>
      obtain rfl | rfl := ends c rfl
      · simp
      · simp
  -- No scheme is read, since none begins with a slash.
  have front : (splitTarget (String.ofList ('/' :: rest ++ tail))).1 =
      ('/' :: rest ++ tail.takeWhile (· ≠ '#')).takeWhile (· ≠ '?') := by
    simp only [splitTarget, String.toList_ofList, keep noFragment]
    rw [List.cons_append, List.dropWhile_cons_of_neg (by decide)]
    split
    · next h => simp_all
    · rfl
  rw [front, keep noQuery, cut, List.append_nil]

/-! ## Parameters -/

/-- What a parameter stands for is the text that its octets spell once their escapes are resolved. -/
theorem readParameter_eq_ok_iff {name raw text : String} :
    readParameter name raw = .ok text ↔ Url.Decodes (Bytes.ofText raw) (Bytes.ofText text) := by
  rw [readParameter, Url.decodes_iff]
  constructor
  · intro h
    split at h
    next spelled =>
      cases h
      exact (Bytes.ofText_of_text? spelled).symm
    next => cases h
  · intro decoded
    rw [decoded, Bytes.text?_ofText]

/-- A parameter that stands for no text is rejected. -/
theorem readParameter_of_not_text (name : String) {raw : String}
    (noText : ∀ text, ¬Url.Decodes (Bytes.ofText raw) (Bytes.ofText text)) :
    readParameter name raw = .error (.pathNotText name) := by
  cases read : readParameter name raw with
  | ok text => exact absurd (readParameter_eq_ok_iff.mp read) (noText text)
  | error r =>
    unfold readParameter at read
    split at read
    next => cases read
    next => exact read.symm

/-- A rejection of a part that is no text. -/
theorem rejects_of_not_text (s : Settings) (request : Inbound) {r : Route} {raw : String}
    (mem : raw ∈ r.parameters)
    (noText : ∀ text, ¬Url.Decodes (Bytes.ofText raw) (Bytes.ofText text)) :
    ∃ rejection, Rejects s request r rejection ∧ rejection.status = 400 := by
  cases r with
  | status | send | health => cases mem
  | epochStart e =>
    obtain rfl : raw = e := by simpa [Route.parameters] using mem
    refine ⟨_, .epoch (r := .pathNotText "epoch") ?_, rfl⟩
    rw [readNumber, readParameter_of_not_text "epoch" noText]
  | blockByNonce n =>
    obtain rfl : raw = n := by simpa [Route.parameters] using mem
    refine ⟨_, .nonce (r := .pathNotText "nonce") ?_, rfl⟩
    rw [readNumber, readParameter_of_not_text "nonce" noText]
  | account a =>
    obtain rfl : raw = a := by simpa [Route.parameters] using mem
    exact ⟨_, .account (readParameter_of_not_text "address" noText), rfl⟩
  | accountToken a t =>
    by_cases holder : ∃ text, Url.Decodes (Bytes.ofText a) (Bytes.ofText text)
    · obtain ⟨address, decodes⟩ := holder
      obtain rfl | rfl : raw = a ∨ raw = t := by simpa [Route.parameters] using mem
      · exact absurd decodes (noText address)
      · exact ⟨_, .token (readParameter_eq_ok_iff.mpr decodes)
          (readParameter_of_not_text "token" noText), rfl⟩
    · exact ⟨_, .holder (readParameter_of_not_text "address" (not_exists.mp holder)), rfl⟩

/-! ## One request, with any proxy -/

/-- A request is answered with a status in silence, and the proxy is left as it was. -/
structure TurnedAway {σ : Type} (s : Settings) (proxy : Proxy σ) (state : σ) (request : Inbound)
    (status : Nat) : Prop where
  status : (Router.handle s proxy state request).1.response.status = status
  silent : (Router.handle s proxy state request).1.Silent
  untouched : (Router.handle s proxy state request).2 = state

section Handling
variable {σ : Type} {s : Settings} {proxy : Proxy σ} {state : σ} {request : Inbound} {r : Route}

theorem turnedAway_of_plan {response : Response}
    (planned : Router.plan s proxy.describe request =
      if request.method = "HEAD" then (Plan.respond response).mapResponse Response.headOnly
      else .respond response) :
    TurnedAway s proxy state request response.status ∧
      (Router.handle s proxy state request).1.response.allow = response.allow := by
  by_cases head : request.method = "HEAD"
  · rw [if_pos head] at planned
    have handled : Router.handle s proxy state request = (⟨response.headOnly, .zero, []⟩, state) := by
      rw [Router.handle, planned]
      rfl
    exact ⟨⟨by rw [handled]; rfl, ⟨by rw [handled], by rw [handled]⟩, by rw [handled]⟩,
      by rw [handled]; rfl⟩
  · rw [if_neg head] at planned
    have handled : Router.handle s proxy state request = (⟨response, .zero, []⟩, state) := by
      rw [Router.handle, planned]
      rfl
    exact ⟨⟨by rw [handled], ⟨by rw [handled], by rw [handled]⟩, by rw [handled]⟩, by rw [handled]⟩

theorem turnedAway_of_rejects {rejection : Rejection} (here : Route.At request.path r)
    (allowed : r.Allows request.method) (rejects : Rejects s request r rejection) :
    TurnedAway s proxy state request rejection.status := by
  have planned := plan_of_allowed s proxy.describe (Route.ofPath?_eq_some_iff.mpr here)
    (Route.mem_methods_iff.mpr allowed)
  rw [planRoute_of_rejects rejects] at planned
  exact (turnedAway_of_plan planned).1

theorem calls_of_asks {wait : Duration} {call : Call} (here : Route.At request.path r)
    (allowed : r.Allows request.method) (asks : Asks s request r wait call) :
    (Router.handle s proxy state request).1.calls = [call] := by
  obtain ⟨finish, planned⟩ := exists_plan_of_asks proxy.describe (Route.ofPath?_eq_some_iff.mpr here)
    (Route.mem_methods_iff.mpr allowed) asks
  rw [Router.handle, planned]
  rfl

end Handling

/-! ## Handlers -/

/-- The status that a plan has at once. -/
def Plan.status? : Plan → Option Nat
  | respond response => some response.status
  | ask .. => none

@[simp] theorem Plan.status?_mapResponse_headOnly (p : Plan) :
    (p.mapResponse Response.headOnly).status? = p.status? := by
  cases p <;> rfl

/-- A request is handed to a route: what is planned for it is what the route plans, without the
response's body for `HEAD`. -/
def HandedTo (s : Settings) (describe : Resource → String) (request : Inbound) (r : Route) : Prop :=
  Router.plan s describe request =
    let whole := Plan.orReject (Router.planRoute s describe request request.pairs r)
    if request.method = "HEAD" then whole.mapResponse Response.headOnly else whole

section Handlers
variable {s : Settings} {describe : Resource → String} {request : Inbound} {r : Route}

theorem HandedTo.status?_eq (handed : HandedTo s describe request r) :
    (Router.plan s describe request).status? =
      (Plan.orReject (Router.planRoute s describe request request.pairs r)).status? := by
  rw [handed]
  by_cases head : request.method = "HEAD"
  · simp [head]
  · simp [head]

/-- No route says of itself that there is none, or that it is not asked like this. -/
theorem ne_of_mem_status?_planRoute (describe : Resource → String) {status : Nat}
    (mem : status ∈ (Plan.orReject
      (Router.planRoute s describe request request.pairs r)).status?) :
    status ≠ 404 ∧ status ≠ 405 := by
  obtain ⟨rejection, rejects⟩ | ⟨wait, call, asks⟩ | rfl := rejects_or_asks s request r
  · rw [planRoute_of_rejects rejects] at mem
    obtain rfl : rejection.status = status := Option.some.inj mem
    cases rejection <;> exact ⟨nofun, nofun⟩
  · obtain ⟨finish, -, planned⟩ := planRoute_of_asks describe asks
    rw [Inbound.pairs, planned] at mem
    cases mem
  · obtain rfl : 200 = status := Option.some.inj mem
    decide

theorem handedTo_of_at (describe : Resource → String) (here : Route.At request.path r)
    (allowed : r.Allows request.method) : HandedTo s describe request r :=
  plan_of_allowed s describe (Route.ofPath?_eq_some_iff.mpr here) (Route.mem_methods_iff.mpr allowed)

/-- A request is handed to a route only where its path leads to one that allows its method. -/
theorem HandedTo.exists_at (handed : HandedTo s describe request r) :
    ∃ r', Route.At request.path r' ∧ r'.Allows request.method := by
  have status := handed.status?_eq
  cases routed : request.route? with
  | none =>
    rw [plan_of_unknown s describe routed] at status
    have unknown : 404 ∈ (Plan.orReject
        (Router.planRoute s describe request request.pairs r)).status? := by
      rw [← status]
      split <;> rfl
    exact absurd rfl (ne_of_mem_status?_planRoute describe unknown).1
  | some r' =>
    by_cases allowed : request.method ∈ r'.methods
    · exact ⟨r', Route.ofPath?_eq_some_iff.mp routed, Route.mem_methods_iff.mp allowed⟩
    · rw [plan_of_notAllowed s describe routed allowed] at status
      have refused : 405 ∈ (Plan.orReject
          (Router.planRoute s describe request request.pairs r)).status? := by
        rw [← status]
        split <;> rfl
      exact absurd rfl (ne_of_mem_status?_planRoute describe refused).2

end Handlers

/-! ## Every request -/

/-- One call is made, to read the resource with these segments. -/
def Handled.AsksFor (handled : Handled) (segments : List String) : Prop :=
  ∃ resource query, handled.calls = [.read resource query] ∧ resource.segments = segments

/-- Where a request goes: to the route of its path, if that allows its method, and nowhere else.
Accounts are asked for by what the parts of the path stand for. -/
structure Dispatched {σ : Type} (s : Settings) (proxy : Proxy σ) (state : σ) (request : Inbound) :
    Prop where
  handed : ∀ r, Route.At request.path r → r.Allows request.method →
    HandedTo s proxy.describe request r
  only : ∀ r, HandedTo s proxy.describe request r →
    ∃ r', Route.At request.path r' ∧ r'.Allows request.method
  notAllowed : ∀ r, Route.At request.path r → ¬r.Allows request.method →
    TurnedAway s proxy state request 405 ∧
      (Router.handle s proxy state request).1.response.allow =
        some (if r = .send then "POST" else "GET,HEAD")
  unknown : (∀ r, ¬Route.At request.path r) → TurnedAway s proxy state request 404
  account : ∀ raw x, Route.At request.path (.account raw) →
    request.method = "GET" ∨ request.method = "HEAD" →
    Url.Decodes (Bytes.ofText raw) (Bytes.ofText x) →
      (Router.handle s proxy state request).1.AsksFor ["address", x]
  accountToken : ∀ raw raw' x y, Route.At request.path (.accountToken raw raw') →
    request.method = "GET" ∨ request.method = "HEAD" →
    Url.Decodes (Bytes.ofText raw) (Bytes.ofText x) →
    Url.Decodes (Bytes.ofText raw') (Bytes.ofText y) →
      (Router.handle s proxy state request).1.AsksFor ["address", x, "esdt", y]
  noText : ∀ r, Route.At request.path r → r.Allows request.method → ∀ raw ∈ r.parameters,
    (∀ x, ¬Url.Decodes (Bytes.ofText raw) (Bytes.ofText x)) → TurnedAway s proxy state request 400

theorem dispatched {σ : Type} (s : Settings) (proxy : Proxy σ) (state : σ) (request : Inbound) :
    Dispatched s proxy state request where
  handed _ here allowed := handedTo_of_at proxy.describe here allowed
  only _ handed := handed.exists_at
  notAllowed r here refused := by
    have planned := plan_of_notAllowed s proxy.describe (Route.ofPath?_eq_some_iff.mpr here)
      (mt Route.mem_methods_iff.mp refused)
    obtain ⟨away, allow⟩ := turnedAway_of_plan planned
    exact ⟨away, by rw [allow, ← Route.allow_eq]; rfl⟩
  unknown none := (turnedAway_of_plan
    (plan_of_unknown s proxy.describe (Route.ofPath?_eq_none_iff.mpr none))).1
  account raw x here read decodes :=
    ⟨_, _, calls_of_asks here read (.passedOn (.account (readParameter_eq_ok_iff.mpr decodes))), rfl⟩
  accountToken raw raw' x y here read decodes decodes' :=
    ⟨_, _, calls_of_asks here read (.passedOn (.accountToken (readParameter_eq_ok_iff.mpr decodes)
      (readParameter_eq_ok_iff.mpr decodes'))), rfl⟩
  noText r here allowed raw mem noText := by
    obtain ⟨rejection, rejects, status⟩ := rejects_of_not_text s request mem noText
    rw [← status]
    exact turnedAway_of_rejects here allowed rejects

/-! ## Texts that are sent as parameters -/

theorem Route.not_mem_path {r : Route} {c : Char} (noSlash : c ≠ '/')
    (fixed : ∀ w ∈ words, c ∉ w.toList) (clear : ∀ x ∈ r.parameters, c ∉ x.toList) :
    c ∉ r.path := by
  have absent := not_mem_parts fixed clear
  rw [path_eq_intercalate]
  generalize r.parts = parts at absent
  induction parts with
  | nil => exact List.not_mem_nil
  | cons p ps ih =>
    have here := absent p List.mem_cons_self
    have later := ih fun q mem => absent q (List.mem_cons_of_mem p mem)
    cases ps with
    | nil => simpa [List.intercalate] using here
    | cons q qs =>
      rw [List.map_cons, List.map_cons, List.intercalate_cons_cons, ← List.map_cons, List.mem_append,
        List.mem_append, List.mem_singleton, not_or, not_or]
      exact ⟨⟨here, noSlash⟩, later⟩

/-- A part of a path that stands for a text. -/
structure Carries (raw text : String) : Prop where
  decodes : Url.Decodes (Bytes.ofText raw) (Bytes.ofText text)
  nonempty : raw ≠ ""
  clear : ∀ c ∈ ['/', '?', '#'], c ∉ raw.toList

/-- Every text but the empty one is carried by a part of a path. -/
theorem exists_carries {text : String} (nonempty : text ≠ "") : ∃ raw, Carries raw text := by
  refine ⟨Url.pieceOf false text.toList, ?_, Url.pieceOf_ne_empty nonempty, ?_⟩
  · rw [Url.decodes_iff, Url.percentDecode_pieceOf, ← Bytes.ofText_eq]
  · intro c mem
    rw [Url.pieceOf, String.toList_ofList]
    simp only [List.mem_cons, List.not_mem_nil, or_false] at mem
    obtain rfl | rfl | rfl := mem
    all_goals exact Url.not_mem_percentEncode (by decide) (by decide) _

theorem Route.at_of_target {request : Inbound} {r : Route}
    (target : request.target.toList = r.path)
    (clear : ∀ x ∈ r.parameters, ∀ c ∈ ['/', '?', '#'], c ∉ x.toList)
    (nonempty : ∀ x ∈ r.last?, x ≠ "") : Route.At request.path r := by
  have noQuery : '?' ∉ r.path :=
    not_mem_path (by decide) (by decide) fun x mem => clear x mem _ (by simp)
  have noFragment : '#' ∉ r.path :=
    not_mem_path (by decide) (by decide) fun x mem => clear x mem _ (by simp)
  have slash : r.path.head? = some '/' := by cases r <;> rfl
  refine ⟨?_, fun x mem => clear x mem _ (by simp), nonempty⟩
  rw [Inbound.path, ← String.ofList_toList (s := request.target), target, ← List.append_nil r.path,
    splitTarget_of_path slash noQuery noFragment (by simp), List.append_nil]

section Carrying
variable {request : Inbound} {raw raw' text text' : String}

theorem Carries.at_account (carries : Carries raw text) (target : request.target = "/address/" ++ raw) :
    Route.At request.path (.account raw) := by
  refine Route.at_of_target ?_ (fun x mem => ?_) fun x mem => ?_
  · rw [target, String.toList_append]
    rfl
  · obtain rfl : x = raw := by simpa [Route.parameters] using mem
    exact carries.clear
  · obtain rfl : raw = x := by simpa [Route.last?] using mem
    exact carries.nonempty

theorem Carries.at_accountToken (carries : Carries raw text) (carries' : Carries raw' text')
    (target : request.target = "/address/" ++ raw ++ "/esdt/" ++ raw') :
    Route.At request.path (.accountToken raw raw') := by
  refine Route.at_of_target ?_ (fun x mem => ?_) fun x mem => ?_
  · rw [target, String.toList_append, String.toList_append, String.toList_append,
      List.append_assoc, List.append_assoc]
    rfl
  · obtain rfl | rfl : x = raw ∨ x = raw' := by simpa [Route.parameters] using mem
    · exact carries.clear
    · exact carries'.clear
  · obtain rfl : raw' = x := by simpa [Route.last?] using mem
    exact carries'.nonempty

end Carrying

/-- Every request is dispatched by its path and its method alone, and a caller can ask for any
account and any token whose names are not empty. -/
theorem requests_dispatched {σ : Type} (s : Settings) (proxy : Proxy σ) (state : σ) :
    (∀ request, Dispatched s proxy state request) ∧
      ∀ x y : String, x ≠ "" → y ≠ "" → ∃ raw raw', ∀ request : Inbound, request.method = "GET" →
        (request.target = "/address/" ++ raw →
          (Router.handle s proxy state request).1.AsksFor ["address", x]) ∧
        (request.target = "/address/" ++ raw ++ "/esdt/" ++ raw' →
          (Router.handle s proxy state request).1.AsksFor ["address", x, "esdt", y]) := by
  refine ⟨dispatched s proxy state, fun x y nonempty nonempty' => ?_⟩
  obtain ⟨raw, carries⟩ := exists_carries nonempty
  obtain ⟨raw', carries'⟩ := exists_carries nonempty'
  refine ⟨raw, raw', fun request method => ⟨fun target => ?_, fun target => ?_⟩⟩
  · exact (dispatched s proxy state request).account raw x (carries.at_account target) (.inl method)
      carries.decodes
  · exact (dispatched s proxy state request).accountToken raw raw' x y
      (carries.at_accountToken carries' target) (.inl method) carries.decodes carries'.decodes

/-- An escaped slash does not lead to the route of a token, and an escape with one digit is none. -/
theorem requests_dispatched_slash :
    (Router.handle (.new "http://proxy" 0) (scripted Resource.display (.ok ⟨200, []⟩)) []
      ⟨"GET", "/address/a%2Fesdt%2g", none, []⟩).1.AsksFor ["address", "a/esdt%2g"] := by
  have here : Route.At (Inbound.path ⟨"GET", "/address/a%2Fesdt%2g", none, []⟩)
      (.account "a%2Fesdt%2g") :=
    Route.ofPath?_eq_some_iff.mp (by decide)
  obtain ⟨dispatched, -⟩ := requests_dispatched (.new "http://proxy" 0)
    (scripted Resource.display (.ok ⟨200, []⟩)) []
  exact (dispatched _).account _ _ here (.inl rfl) (Url.decodes_iff.mpr (by decide))

/-- In the middle of a path a parameter may be empty: a token of the account without a name is asked
for. -/
theorem nothing_between_slashes_asked :
    (Router.handle (.new "http://proxy" 0) (scripted Resource.display (.ok ⟨200, []⟩)) []
        ⟨"GET", "/address//esdt/T", none, []⟩).1.response.status = 200 ∧
      (Router.handle (.new "http://proxy" 0) (scripted Resource.display (.ok ⟨200, []⟩)) []
        ⟨"GET", "/address//esdt/T", none, []⟩).1.AsksFor ["address", "", "esdt", "T"] := by
  have handled : (Router.handle (.new "http://proxy" 0) (scripted Resource.display (.ok ⟨200, []⟩)) []
      ⟨"GET", "/address//esdt/T", none, []⟩).1 =
      ⟨.json 200 [], .zero, [.read (.accountToken "" "T") []]⟩ := by
    decide +kernel
  rw [handled]
  exact ⟨rfl, .accountToken "" "T", [], rfl, rfl⟩

end ObserverRelay.Relay
