import ObserverRelay.Proofs.Relay.Dispatch
import ObserverRelay.Proofs.Text.Numerals
/-!
# Routes whose path ends with a number

An epoch and a block are asked for by a number. Its digits may be escaped, and a plus sign and
zeros may stand in front of them; what is asked of the proxy holds the number as it is written
without these. What names no number below the bound is rejected, but where nothing stands behind
the last slash there is no route.

## Main statements

* `readNumber_eq_ok_iff`: which parts of a path name a number.
* `numbers_relayed`: what is asked for by a number, and which requests are turned away.
-/
namespace ObserverRelay.Relay

open Json Net Numeral

/-- A part of a path that names a number once its escapes are resolved. -/
def StandsFor (raw : String) (n : Nat) : Prop :=
  ∃ text, Url.Decodes (Bytes.ofText raw) (Bytes.ofText text) ∧ Names text n

/-! ## Reading -/

theorem readNumber_eq_ok_iff {name type raw : String} {bound n : Nat} (positive : 0 < bound) :
    readNumber name type bound raw = .ok n ↔ StandsFor raw n ∧ n < bound := by
  constructor
  · intro h
    unfold readNumber at h
    split at h
    next => cases h
    next text spelled =>
      split at h
      next m read =>
        cases h
        obtain ⟨names, small⟩ := (read_eq_ok_iff positive).mp read
        exact ⟨⟨text, readParameter_eq_ok_iff.mp spelled, names⟩, small⟩
      next => cases h
  · rintro ⟨⟨text, decodes, names⟩, small⟩
    have spelled : readParameter name raw = .ok text := readParameter_eq_ok_iff.mpr decodes
    have read : Numeral.read bound text = .ok n := (read_eq_ok_iff positive).mpr ⟨names, small⟩
    simp only [readNumber, spelled, read]

/-- What names no number is the caller's fault. -/
theorem status_of_readNumber {name type raw : String} {bound : Nat} {r : Rejection}
    (unreadable : readNumber name type bound raw = .error r) : r.status = 400 := by
  unfold readNumber at unreadable
  split at unreadable
  next e spelled =>
    cases unreadable
    unfold readParameter at spelled
    split at spelled
    next => cases spelled
    next =>
      cases spelled
      rfl
  next text spelled =>
    split at unreadable
    next => cases unreadable
    next =>
      cases unreadable
      rfl

theorem exists_rejection_of_not_standsFor {name type raw : String} {bound : Nat} (positive : 0 < bound)
    (none : ¬∃ n < bound, StandsFor raw n) :
    ∃ r, readNumber name type bound raw = .error r ∧ r.status = 400 := by
  cases read : readNumber name type bound raw with
  | error r => exact ⟨r, rfl, status_of_readNumber read⟩
  | ok n =>
    obtain ⟨stands, small⟩ := (readNumber_eq_ok_iff positive).mp read
    exact absurd ⟨n, small, stands⟩ none

theorem StandsFor.unique {raw : String} {n m : Nat} (h : StandsFor raw n) (h' : StandsFor raw m) : n = m := by
  have read : readNumber "" "" (max n m + 1) raw = .ok n :=
    (readNumber_eq_ok_iff (by omega)).mpr ⟨h, by omega⟩
  have read' : readNumber "" "" (max n m + 1) raw = .ok m :=
    (readNumber_eq_ok_iff (by omega)).mpr ⟨h', by omega⟩
  exact Except.ok.inj (read.symm.trans read')

/-- Nothing stands no number. -/
theorem not_standsFor_empty (n : Nat) : ¬StandsFor "" n := by
  rintro ⟨text, decodes, names⟩
  obtain rfl : text = "" := Bytes.ofText_injective (Url.decodes_iff.mp decodes).symm
  cases names with
  | plain digits => exact digits.nonempty rfl
  | plus sign => cases sign

/-! ## Routes -/

/-- A route that ends with a number below a bound and asks for the number's resource. -/
structure Route.TakesNumber (s : Settings) (front : String) (route : String → Route) (bound : Nat)
    (resource : Nat → Resource) : Prop where
  path : ∀ raw, (route raw).path = front.toList ++ raw.toList
  parameters : ∀ raw, (route raw).parameters = [raw]
  last : ∀ raw, (route raw).last? = some raw
  reads : ∀ raw, (route raw).Allows "GET"
  unknown : Route.ofPath? front.toList = none
  apart : Function.Injective resource
  asks : ∀ request raw n, StandsFor raw n → n < bound →
    ∃ query, Asks s request (route raw) s.delay (.read (resource n) query)
  rejects : ∀ request raw, (¬∃ n < bound, StandsFor raw n) →
    ∃ r, Rejects s request (route raw) r ∧ r.status = 400

theorem Route.takesNumber_epochStart (s : Settings) :
    TakesNumber s "/node/epoch-start/" epochStart bound32 (.epochStart s.shard) where
  path _ := rfl
  parameters _ := rfl
  last _ := rfl
  reads _ := .inl rfl
  unknown := by decide
  apart _ _ same := by cases same; rfl
  asks request raw n stands small :=
    ⟨_, .passedOn (.epochStart ((readNumber_eq_ok_iff (by decide)).mpr ⟨stands, small⟩))⟩
  rejects request raw none := by
    obtain ⟨r, read, status⟩ := exists_rejection_of_not_standsFor (by decide) none
    exact ⟨r, .epoch read, status⟩

theorem Route.takesNumber_blockByNonce (s : Settings) :
    TakesNumber s "/block/by-nonce/" blockByNonce bound64 (.blockByNonce s.shard) where
  path _ := rfl
  parameters _ := rfl
  last _ := rfl
  reads _ := .inl rfl
  unknown := by decide
  apart _ _ same := by cases same; rfl
  asks request raw n stands small :=
    ⟨_, .passedOn (.blockByNonce ((readNumber_eq_ok_iff (by decide)).mpr ⟨stands, small⟩))⟩
  rejects request raw none := by
    obtain ⟨r, read, status⟩ := exists_rejection_of_not_standsFor (by decide) none
    exact ⟨r, .nonce read, status⟩

/-! ## Requests -/

/-- The request is to read this resource, and nothing else is asked of the proxy. -/
def Handled.Reads (handled : Handled) (r : Resource) : Prop :=
  ∃ query, handled.calls = [.read r query]

/-- A request to read what stands for a part of a path behind `front`. -/
structure AsksBehind (front : String) (request : Inbound) (raw : String) : Prop where
  method : request.method = "GET"
  path : request.path = front.toList ++ raw.toList
  noSlash : '/' ∉ raw.toList

/-- Requests to a route that ends with a number: which of them reach the resource of a number, what
becomes of the others, and which two of them reach the same one. -/
structure ByNumber {σ : Type} (s : Settings) (proxy : Proxy σ) (state : σ) (front : String)
    (bound : Nat) (resource : Nat → Resource) : Prop where
  reads : ∀ request raw n, AsksBehind front request raw →
    ((Router.handle s proxy state request).1.Reads (resource n) ↔ StandsFor raw n ∧ n < bound)
  refused : ∀ request raw, AsksBehind front request raw → raw ≠ "" →
    (¬∃ n < bound, StandsFor raw n) → TurnedAway s proxy state request 400
  empty : ∀ request, AsksBehind front request "" → TurnedAway s proxy state request 404
  same : ∀ request raw request' raw', AsksBehind front request raw →
    AsksBehind front request' raw' →
    ((∃ r, (Router.handle s proxy state request).1.Reads r ∧
        (Router.handle s proxy state request').1.Reads r) ↔
      ∃ n < bound, StandsFor raw n ∧ StandsFor raw' n)

section Requests
variable {σ : Type} {s : Settings} {front : String} {route : String → Route} {bound : Nat}
  {resource : Nat → Resource} {request : Inbound} {raw : String}

theorem AsksBehind.at (takes : Route.TakesNumber s front route bound resource)
    (asks : AsksBehind front request raw) (nonempty : raw ≠ "") :
    Route.At request.path (route raw) := by
  refine ⟨asks.path.trans (takes.path raw).symm, fun x mem => ?_, fun x mem => ?_⟩
  · rw [takes.parameters, List.mem_singleton] at mem
    subst mem
    exact asks.noSlash
  · rw [takes.last, Option.mem_some_iff] at mem
    subst mem
    exact nonempty

/-- What is done for a request to a route that takes a number is one of these. -/
theorem AsksBehind.outcome (takes : Route.TakesNumber s front route bound resource)
    (proxy : Proxy σ) (state : σ) (asks : AsksBehind front request raw) :
    (∃ n < bound, StandsFor raw n ∧ (Router.handle s proxy state request).1.Reads (resource n)) ∨
      (¬∃ n < bound, StandsFor raw n) ∧
        TurnedAway s proxy state request (if raw = "" then 404 else 400) := by
  have allowed : (route raw).Allows request.method := by
    rw [asks.method]
    exact takes.reads raw
  by_cases empty : raw = ""
  · subst empty
    refine .inr ⟨fun ⟨n, _, stands⟩ => not_standsFor_empty n stands, ?_⟩
    have unknown : ∀ r, ¬Route.At request.path r := by
      rw [← Route.ofPath?_eq_none_iff, asks.path]
      simpa using takes.unknown
    exact (dispatched s proxy state request).unknown unknown
  · have here := asks.at takes empty
    by_cases some : ∃ n < bound, StandsFor raw n
    · obtain ⟨n, small, stands⟩ := some
      obtain ⟨query, asked⟩ := takes.asks request raw n stands small
      exact .inl ⟨n, small, stands, query, calls_of_asks here allowed asked⟩
    · obtain ⟨r, rejects, status⟩ := takes.rejects request raw some
      rw [if_neg empty, ← status]
      exact .inr ⟨some, turnedAway_of_rejects here allowed rejects⟩

theorem Handled.Reads.unique {handled : Handled} {r r' : Resource} (h : handled.Reads r)
    (h' : handled.Reads r') : r = r' := by
  obtain ⟨query, calls⟩ := h
  obtain ⟨query', calls'⟩ := h'
  cases calls.symm.trans calls'
  rfl

theorem TurnedAway.not_reads {proxy : Proxy σ} {state : σ} {status : Nat} {r : Resource}
    (away : TurnedAway s proxy state request status) :
    ¬(Router.handle s proxy state request).1.Reads r := by
  rintro ⟨query, calls⟩
  cases away.silent.calls.symm.trans calls

theorem byNumber (takes : Route.TakesNumber s front route bound resource) (proxy : Proxy σ)
    (state : σ) : ByNumber s proxy state front bound resource := by
  have reads {request : Inbound} {raw : String} {r : Resource} (asks : AsksBehind front request raw) :
      (Router.handle s proxy state request).1.Reads r ↔ ∃ n < bound, StandsFor raw n ∧ r = resource n := by
    obtain ⟨n, small, stands, asked⟩ | ⟨none, away⟩ := asks.outcome takes proxy state
    · constructor
      · exact fun asked' => ⟨n, small, stands, asked'.unique asked⟩
      · rintro ⟨m, -, stands', rfl⟩
        rwa [stands'.unique stands]
    · refine iff_of_false away.not_reads ?_
      rintro ⟨n, small, stands, -⟩
      exact none ⟨n, small, stands⟩
  refine ⟨fun request raw n asks => ?_, fun request raw asks nonempty none => ?_,
    fun request asks => ?_, fun request raw request' raw' asks asks' => ?_⟩
  · rw [reads asks]
    constructor
    · rintro ⟨m, small, stands, same⟩
      obtain rfl := takes.apart same
      exact ⟨stands, small⟩
    · exact fun ⟨stands, small⟩ => ⟨n, small, stands, rfl⟩
  · obtain ⟨n, small, stands, -⟩ | ⟨-, away⟩ := asks.outcome takes proxy state
    · exact absurd ⟨n, small, stands⟩ none
    · rwa [if_neg nonempty] at away
  · obtain ⟨n, -, stands, -⟩ | ⟨-, away⟩ := asks.outcome takes proxy state
    · exact absurd stands (not_standsFor_empty n)
    · exact away
  · simp only [reads asks, reads asks']
    constructor
    · rintro ⟨r, ⟨n, small, stands, rfl⟩, m, -, stands', same⟩
      obtain rfl := takes.apart same
      exact ⟨n, small, stands, stands'⟩
    · rintro ⟨n, small, stands, stands'⟩
      exact ⟨resource n, ⟨n, small, stands, rfl⟩, n, small, stands', rfl⟩

end Requests

/-- The segments under which the proxy answers for an epoch and for a block: shard and number are
written without zeros in front. -/
theorem segments_by_number (shard n : Nat) :
    ∃ shardText numberText : String, Canonical shardText.toList shard ∧
      Canonical numberText.toList n ∧
      (Resource.epochStart shard n).segments =
        ["network", "epoch-start", shardText, "by-epoch", numberText] ∧
      (Resource.blockByNonce shard n).segments = ["block", shardText, "by-nonce", numberText] := by
  have written (m : Nat) : Canonical (toString m).toList m := by
    rw [show (toString m).toList = Nat.toDigits 10 m from String.toList_ofList]
    exact canonical_toDigits m
  exact ⟨toString shard, toString n, written shard, written n, rfl, rfl⟩

/-- An epoch below 2³² and a block below 2⁶⁴ are asked for by every part of a path that names the
number, and by no other. All other parts are rejected, but where there is none no route is found. -/
theorem numbers_relayed {σ : Type} (s : Settings) (proxy : Proxy σ) (state : σ) :
    ByNumber s proxy state "/node/epoch-start/" (2 ^ 32) (.epochStart s.shard) ∧
      ByNumber s proxy state "/block/by-nonce/" (2 ^ 64) (.blockByNonce s.shard) ∧
      ∀ n, ∃ shardText numberText : String, Canonical shardText.toList s.shard ∧
        Canonical numberText.toList n ∧
        (Resource.epochStart s.shard n).segments =
          ["network", "epoch-start", shardText, "by-epoch", numberText] ∧
        (Resource.blockByNonce s.shard n).segments = ["block", shardText, "by-nonce", numberText] :=
  ⟨byNumber (Route.takesNumber_epochStart s) proxy state,
    byNumber (Route.takesNumber_blockByNonce s) proxy state, segments_by_number s.shard⟩

/-- An escaped plus sign and zeros do not count, and one more than the last nonce is no nonce. -/
theorem numbers_relayed_odd :
    (Router.handle (.new "http://proxy" 2) (scripted Resource.display (.ok ⟨200, []⟩)) []
        ⟨"GET", "/node/epoch-start/%2B00%37", none, []⟩).1.Reads (.epochStart 2 7) ∧
      TurnedAway (.new "http://proxy" 2) (scripted Resource.display (.ok ⟨200, []⟩)) []
        ⟨"GET", "/block/by-nonce/18446744073709551616", none, []⟩ 400 := by
  obtain ⟨epochs, blocks, -⟩ := numbers_relayed (.new "http://proxy" 2)
    (scripted Resource.display (.ok ⟨200, []⟩)) []
  have seven : StandsFor "%2B00%37" 7 :=
    ⟨"+007", Url.decodes_iff.mpr (by decide),
      .plus (show "+007".toList = '+' :: ['0', '0', '7'] from rfl) ⟨by decide, by simp, by decide⟩⟩
  have tooLarge : ¬∃ n < bound64, StandsFor "18446744073709551616" n := by
    rintro ⟨n, small, stands⟩
    have read : readNumber "nonce" "u64" bound64 "18446744073709551616" =
        .error (.pathNotNumber "18446744073709551616" "u64") := by
      decide +kernel
    cases read.symm.trans ((readNumber_eq_ok_iff (by decide)).mpr ⟨stands, small⟩)
  refine ⟨(epochs.reads _ "%2B00%37" 7 ⟨rfl, by decide, by decide⟩).mpr ⟨seven, by decide⟩, ?_⟩
  exact blocks.refused _ "18446744073709551616" ⟨rfl, by decide, by decide⟩ (by decide) tooLarge

/-- Nothing behind the last slash names no number, but is not rejected for that: no route is found. -/
theorem empty_number_unknown :
    AsksBehind "/node/epoch-start/" ⟨"GET", "/node/epoch-start/", none, []⟩ "" ∧
      (∀ n, ¬StandsFor "" n) ∧
      (Router.handle (.new "http://proxy" 0) (scripted Resource.display (.ok ⟨200, []⟩)) []
        ⟨"GET", "/node/epoch-start/", none, []⟩).1.response.status = 404 :=
  ⟨⟨rfl, by decide, by decide⟩, not_standsFor_empty, by decide⟩

end ObserverRelay.Relay
