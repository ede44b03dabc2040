import ObserverRelay.Proofs.Relay.Passing
import ObserverRelay.Proofs.Url.Parsed
/-!
# The URLs of resources

The URL of a resource is that of the proxy with the resource's segments put to its path. Each is a
piece of the path and can be read back from it, whatever characters it holds; exceptions are texts
of one dot or two and those with a tab or a line break. So resources without such segments are told
apart by their URLs.

## Main statements

* `location_exact`: when the segments of a resource can be read back from its URL.
-/
namespace ObserverRelay.Relay

open Net Url

namespace Resource

/-- A numeral names one number. -/
@[simp] theorem repr_inj {m n : Nat} : m.repr = n.repr ↔ m = n := by
  refine ⟨fun same => ?_, congrArg Nat.repr⟩
  have digits : Nat.toDigits 10 m = Nat.toDigits 10 n := String.ofList_injective same
  rw [← Nat.ofDigitChars_ten_toDigits (n := m), digits, Nat.ofDigitChars_ten_toDigits]

/-- A path names one resource at most. -/
theorem segments_injective {r r' : Resource} (same : r.segments = r'.segments) : r = r' := by
  cases r <;> cases r' <;> simp_all [segments]

/-- The first segment of a resource is a word. -/
theorem exists_first (r : Resource) :
    ∃ first rest, r.segments = first :: rest ∧ IsSegment first ∧ first ≠ "" := by
  have word : ∀ x ∈ ["network", "block", "address", "transaction"], IsSegment x ∧ x ≠ "" := by
    decide +kernel
  cases r with
  | networkStatus | epochStart => exact ⟨_, _, rfl, word "network" (by decide)⟩
  | blockByNonce => exact ⟨_, _, rfl, word "block" (by decide)⟩
  | account | accountToken => exact ⟨_, _, rfl, word "address" (by decide)⟩
  | sendTransaction => exact ⟨_, _, rfl, word "transaction" (by decide)⟩

end Resource

/-- The URL that lies behind another one's path, all else as it is. -/
structure Below (base : Url) (r : Resource) (u : Url) : Prop where
  scheme : u.scheme = base.scheme
  authority : u.authority = base.authority
  guarded : u.guarded = base.guarded
  query : u.query = base.query
  fragment : u.fragment = base.fragment
  goesOn : GoesOn (stem base.path.chars) r.segments u.path.chars ↔ ∀ x ∈ r.segments, IsSegment x

theorem below_of_urlFor {c : Client} {r : Resource} {u : Url} (clear : c.base.Clear)
    (built : c.urlFor r = .ok u) : Below c.base r u := by
  obtain ⟨parts, path, noSlash⟩ := clear.path
  obtain ⟨first, rest, segments, word, nonempty⟩ := r.exists_first
  simp only [Client.urlFor, Url.extend?, path] at built
  obtain rfl := Except.ok.inj built
  refine ⟨rfl, rfl, rfl, rfl, rfl, ?_⟩
  rw [path, segments]
  exact goesOn_iff word nonempty fun p mem => (noSlash p mem).1

/-- URLs below one base that are written alike have one path. -/
theorem Below.path_chars {base u u' : Url} {r r' : Resource} (below : Below base r u)
    (below' : Below base r' u') (same : u.text = u'.text) : u.path.chars = u'.path.chars := by
  have chars : u.chars = u'.chars := by
    simpa [Url.text] using congrArg String.toList same
  have origin : u.originChars = u'.originChars := by
    simp only [originChars, below.scheme, below'.scheme, below.authority, below'.authority,
      below.guarded, below'.guarded]
  simp only [Url.chars, origin, below.query, below'.query, below.fragment, below'.fragment,
    List.append_cancel_left_eq, List.append_cancel_right_eq] at chars
  exact chars

/-- For checked settings there is a URL for every resource, the one that is described. It is that of
the proxy but for its path, which goes on with a piece for each segment of the resource, from which
the segment can be read back, if and only if no segment is one dot or two or holds a tab or a line
break. Two resources without such segments never share a URL. -/
theorem location_exact [DomainNames] {s t : Settings} (checked : s.check = .ok t) :
    ∃ base, Url.parse t.proxyUrl = .ok base ∧ Client.new t = .ok ⟨base, t.timeout⟩ ∧
      (∀ r, ∃ u, Client.urlFor ⟨base, t.timeout⟩ r = .ok u ∧
        Client.describe ⟨base, t.timeout⟩ r = u.text ∧ Below base r u) ∧
      ∀ r r', (∀ x ∈ r.segments, IsSegment x) → (∀ x ∈ r'.segments, IsSegment x) →
        Client.describe ⟨base, t.timeout⟩ r = Client.describe ⟨base, t.timeout⟩ r' → r = r' := by
  obtain ⟨base, parsed, known, web, extensible⟩ := exists_base_of_check checked
  have located (r : Resource) : ∃ u, Client.urlFor ⟨base, t.timeout⟩ r = .ok u ∧
      Client.describe ⟨base, t.timeout⟩ r = u.text ∧ Below base r u := by
    obtain ⟨u, built, described⟩ := exists_urlFor (c := ⟨base, t.timeout⟩) extensible r
    exact ⟨u, built, described.symm, below_of_urlFor (clear_of_parse parsed web) built⟩
  refine ⟨base, parsed, known, located, ?_⟩
  intro r r' segments segments' same
  obtain ⟨u, -, described, below⟩ := located r
  obtain ⟨u', -, described', below'⟩ := located r'
  rw [described, described'] at same
  have goesOn := below.goesOn.mpr segments
  rw [below.path_chars below' same] at goesOn
  exact Resource.segments_injective (goesOn.unique (below'.goesOn.mpr segments'))

section

attribute [local instance] DomainNames.untranslated

/-- An address with slashes, escapes and a fragment in it is one piece behind the path of the proxy;
one of two dots is not. -/
theorem location_exact_odd :
    ∃ base, Url.parse "http://user@proxy:81/gw/?k=v" = .ok base ∧
      (∃ u, Client.urlFor ⟨base, none⟩ (.account "a/%2e?#\\ é") = .ok u ∧
        u.authority = base.authority ∧ u.query = some "k=v" ∧
        GoesOn "/gw".toList ["address", "a/%2e?#\\ é"] u.path.chars) ∧
      ∃ u, Client.urlFor ⟨base, none⟩ (.account "..") = .ok u ∧
        ¬GoesOn "/gw".toList ["address", ".."] u.path.chars := by
  have checked : (Settings.new " http://user@proxy:81/gw/?k=v" 0).check =
      .ok (.new "http://user@proxy:81/gw/?k=v" 0) := by
    decide +kernel
  obtain ⟨base, parsed, -, located, -⟩ := location_exact checked
  have parsed' : Url.parse "http://user@proxy:81/gw/?k=v" =
      .ok ⟨"http", some ⟨"user", none, .name "proxy", some 81⟩, false, .segments ["gw", ""],
        some "k=v", none⟩ := by
    decide +kernel
  obtain rfl := Except.ok.inj (parsed'.symm.trans parsed)
  obtain ⟨u, built, -, below⟩ := located (.account "a/%2e?#\\ é")
  obtain ⟨u', built', -, below'⟩ := located (.account "..")
  have front : stem (Path.segments ["gw", ""]).chars = "/gw".toList := by decide
  have goesOn := below.goesOn
  have goesOn' := below'.goesOn
  rw [front] at goesOn goesOn'
  have lost : ¬IsSegment ".." := by decide
  refine ⟨_, parsed', ⟨u, built, below.authority, below.query, goesOn.mpr (by decide +kernel)⟩, u',
    built', fun h => lost (goesOn'.mp h ".." (by decide))⟩

end

end ObserverRelay.Relay
