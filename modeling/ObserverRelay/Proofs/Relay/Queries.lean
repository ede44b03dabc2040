import ObserverRelay.Proofs.Relay.Locations
import ObserverRelay.Proofs.Relay.Runs
import ObserverRelay.Proofs.Url.Pairs
/-!
# Queries of callers

The pairs of a caller's query are put behind those of the proxy's URL, in order and as they are, for
the routes that pass a query on. The others ask without the caller's pairs. Where there is no pair at
all the URL has no query.

## Main statements

* `queryPairs_withPairs`: pairs are put behind those that a URL has.
* `query_relayed`: which pairs the proxy is asked with.
-/
namespace ObserverRelay.Relay

open Net
open Url (DomainNames)

variable {σ : Type} [Transport σ]

/-! ## Pairs put to a URL -/

/-- The pairs of a URL's query. -/
def queryPairs (u : Url) : List (String × String) :=
  Url.Form.decode (Bytes.ofText (u.query.getD ""))

theorem getD_query_withPairs (u : Url) (pairs : List (String × String)) :
    (withPairs u pairs).query.getD "" =
      if u.query.getD "" = "" then Url.Form.encode pairs
      else if Url.Form.encode pairs = "" then u.query.getD ""
      else u.query.getD "" ++ "&" ++ Url.Form.encode pairs := by
  have kept (q : String) : (if q = "" then none else some q).getD "" = q := by
    by_cases empty : q = ""
    · rw [if_pos empty, empty]
      rfl
    · rw [if_neg empty]
      rfl
  exact kept _

/-- Pairs are put behind those that a URL has. -/
theorem queryPairs_withPairs (u : Url) (pairs : List (String × String)) :
    queryPairs (withPairs u pairs) = queryPairs u ++ pairs := by
  have amp : Bytes.ofText "&" = [0x26] := by decide
  rw [queryPairs, getD_query_withPairs, queryPairs]
  by_cases bare : u.query.getD "" = ""
  · rw [if_pos bare, bare, Url.Form.decode_encode]
    rfl
  · rw [if_neg bare]
    by_cases none : pairs = []
    · rw [if_pos (Url.Form.encode_eq_empty_iff.mpr none), none, List.append_nil]
    · rw [if_neg (mt Url.Form.encode_eq_empty_iff.mp none), Bytes.ofText_append, Bytes.ofText_append,
        amp, List.append_assoc, List.singleton_append, Url.Form.decode_append,
        Url.Form.decode_encode]

theorem query_withPairs_nil {u : Url} (bare : u.query.getD "" = "") :
    (withPairs u []).query = none := by
  simp [withPairs, bare, Url.Form.encode, Url.Form.encodeChars]

theorem clear_withPairs {u : Url} (clear : u.Clear) (pairs : List (String × String)) :
    (withPairs u pairs).Clear := ⟨clear.origin, clear.path⟩

/-- The URL of a request is the one that it is made for, possibly without user name and password. -/
theorem url_to (verb : Verb) (u : Url) (type : Option String) (body : Bytes) :
    (Request.to verb u type body).url = u ∨ (Request.to verb u type body).url = u.withoutUser := by
  rw [Request.to]
  split
  next => exact .inr rfl
  next => exact .inl rfl

/-! ## Pairs that the proxy is asked with -/

/-- The routes that pass the caller's query on. -/
def Route.passesQuery : Route → Bool
  | .blockByNonce _ | .accountToken _ _ | .account _ => true
  | .status | .epochStart _ | .send | .health => false

theorem Asks.query_eq {s : Settings} {request : Inbound} {route : Route} {wait : Duration}
    {r : Resource} {query : List (String × String)}
    (asks : Asks s request route wait (.read r query)) :
    query = if route.passesQuery then readQuery (splitTarget request.target).2 else [] := by
  cases asks with
  | status => rfl
  | passedOn passed => cases passed <;> rfl

theorem clear_of_urlFor {c : Client} {r : Resource} {u : Url} (clear : c.base.Clear)
    (built : c.urlFor r = .ok u) : u.Clear := by
  unfold Client.urlFor at built
  split at built
  next v extended =>
    cases built
    exact clear.extend? extended
  next => cases built

/-- The request to read asks with the pairs of the base and those that are given. -/
theorem queryPairs_request (u : Url) (r : Resource) (query : List (String × String)) :
    queryPairs (Client.request u (.read r query)).url = queryPairs u ++ query := by
  have pairs := queryPairs_withPairs u query
  rw [Client.request]
  rcases url_to .get (withPairs u query) none [] with same | same
  · rw [same, pairs]
  · rw [same, ← pairs]
    rfl

/-- Without pairs there is no mark in front of a query either. -/
theorem mark_not_mem_request {u : Url} (clear : u.Clear) (r : Resource)
    (bare : u.query.getD "" = "") :
    '?' ∉ (Client.request u (.read r [])).url.withoutFragment.text.toList := by
  have noQuery := query_withPairs_nil bare
  have clear' := clear_withPairs clear []
  rw [Client.request]
  rcases url_to .get (withPairs u []) none [] with same | same
  · rw [same]
    exact clear'.mark_not_mem noQuery
  · rw [same]
    exact clear'.withoutUser.mark_not_mem noQuery

/-- With checked settings there is a service. A request to read asks the proxy once: on the routes
that pass a query on with the caller's pairs behind those of the proxy's URL, on the others with none
of the caller's. If there is no pair on either side, the URL that is asked has no query. -/
theorem query_relayed [DomainNames] {s t : Settings} (checked : s.check = .ok t) :
    ∃ base, Url.parse t.proxyUrl = .ok base ∧ Service.new s = .ok ⟨t, ⟨base, t.timeout⟩⟩ ∧
      ∀ (request : Inbound) (route : Route) (wait : Duration) (r : Resource)
        (query : List (String × String)), request.route? = some route →
        request.method ∈ route.methods → Asks t request route wait (.read r query) →
        (query = if route.passesQuery then readQuery (splitTarget request.target).2 else []) ∧
        ∃ u asked, Client.urlFor ⟨base, t.timeout⟩ r = .ok u ∧
          asked = Client.request u (.read r query) ∧
          (∀ n : σ, (Service.handle ⟨t, ⟨base, t.timeout⟩⟩ n request).calls = [.read r query] ∧
            (Service.handle ⟨t, ⟨base, t.timeout⟩⟩ n request).seen =
              (Transport.send n t.timeout asked).seen ∧
            ∀ x ∈ (Service.handle ⟨t, ⟨base, t.timeout⟩⟩ n request).seen.head?, x = asked) ∧
          queryPairs asked.url = queryPairs base ++ query ∧
          (base.query.getD "" = "" → query = [] →
            '?' ∉ asked.url.withoutFragment.text.toList) := by
  obtain ⟨base, parsed, known, web, extensible⟩ := exists_base_of_check checked
  have made : Service.new s = .ok ⟨t, ⟨base, t.timeout⟩⟩ := by
    simp only [Service.new, checked, known]
  have clear : (Client.mk base t.timeout).base.Clear := Url.clear_of_parse parsed web
  refine ⟨base, parsed, made, ?_⟩
  intro request route wait r query routed allowed asks
  obtain ⟨u, built, -⟩ := exists_urlFor (c := ⟨base, t.timeout⟩) extensible r
  have same : u.query = base.query := (below_of_urlFor clear built).query
  obtain ⟨finish, planned⟩ : ∃ finish, Router.plan (Service.mk t ⟨base, t.timeout⟩).settings
      (Service.mk t ⟨base, t.timeout⟩).client.describe request = .ask wait (.read r query) finish :=
    exists_plan_of_asks _ routed allowed asks
  refine ⟨asks.query_eq, u, _, built, rfl, fun n => ?_, ?_, ?_⟩
  · rw [handle_of_plan planned built]
    exact ⟨rfl, rfl, fun x first => Transport.eq_of_mem_head? first⟩
  · rw [queryPairs_request, queryPairs, queryPairs, same]
  · rintro bare rfl
    exact mark_not_mem_request (clear_of_urlFor clear built) r (by rw [same, bare])

section

attribute [local instance] DomainNames.untranslated

/-- Pairs that are repeated, broken or half empty are put behind the pair of the proxy's URL. -/
theorem query_relayed_odd :
    ∃ service, Service.new (.new "http://proxy?k=v" 0) = .ok service ∧
      ∀ n : Network,
        ∀ x ∈ (service.handle n (readRequest "/address/a?b=1&&b=%zz+&=%26&é#c")).seen.head?,
        queryPairs x.url = [("k", "v"), ("b", "1"), ("b", "%zz "), ("", "&"), ("é", "")] := by
  have checked : (Settings.new "http://proxy?k=v" 0).check = .ok (.new "http://proxy?k=v" 0) := by
    decide +kernel
  have text : readParameter "address" "a" = .ok "a" := by decide +kernel
  have routed : (readRequest "/address/a?b=1&&b=%zz+&=%26&é#c").route? = some (.account "a") := by
    decide
  obtain ⟨base, parsed, made, each⟩ := query_relayed (σ := Network) checked
  obtain ⟨-, u, asked, -, -, sent, pairs, -⟩ := each _ _ _ _ _ routed (by decide)
    (.passedOn (.account text))
  refine ⟨_, made, fun n x first => ?_⟩
  have base_pairs : queryPairs base = [("k", "v")] := by
    have parsed' : Url.parse "http://proxy?k=v" =
        .ok ⟨"http", some ⟨"", none, .name "proxy", none⟩, false, .segments [""], some "k=v", none⟩ := by
      decide +kernel
    obtain rfl := Except.ok.inj (parsed'.symm.trans parsed)
    decide +kernel
  have caller : readQuery (splitTarget (readRequest "/address/a?b=1&&b=%zz+&=%26&é#c").target).2 =
      [("b", "1"), ("b", "%zz "), ("", "&"), ("é", "")] := by
    decide +kernel
  rw [(sent n).2.2 x first, pairs, base_pairs, caller]
  rfl

end

end ObserverRelay.Relay
