import ObserverRelay.Chain.AccountSource
import ObserverRelay.Proofs.Relay.Locations
import ObserverRelay.Proofs.Text.Trimming
/-!
# The URL of an account, built twice

The relay and the source of nonces each read the URL of the proxy and put an account to it. The
relay takes off white space and then slashes, and wants a URL of the web; the source takes off
slashes alone, and wants a URL that can be extended. What the relay accepts serves the source as
well unless white space stands at the ends, and then both have one URL for every account.

## Main statements

* `urlFor_account_iff`: over one URL both build the same.
* `account_urls_agree`: over one text they do too.
-/
namespace ObserverRelay.Relay

open Chain
open Url (DomainNames)
open Text (StartsOutside EndsOutside isBlank)

/-- The source puts an account to a URL as the client does; only their failures differ. -/
theorem urlFor_account_iff {base u : Url} {limit limit' : Option Duration} {address : String} :
    AccountSource.urlFor ⟨base, limit⟩ address = .ok u ↔
      Client.urlFor ⟨base, limit'⟩ (.account address) = .ok u := by
  rw [AccountSource.urlFor, Client.urlFor, Resource.segments]
  cases base.extend? ["address", address] <;> simp

/-- Without white space at its ends a URL is trimmed by the relay as by the source. -/
theorem trimUrl_eq_trimTrailing {url : String} (starts : StartsOutside isBlank url.toList)
    (ends : EndsOutside isBlank url.toList) :
    Settings.trimUrl url = Text.trimTrailing '/' url := by
  rw [Settings.trimUrl, Text.trim_eq_self starts ends]

/-- A URL that the relay would start with is one that the source can extend. -/
theorem new_of_parse [DomainNames] {url : String} {base : Url}
    (parsed : Url.parse (Text.trimTrailing '/' url) = .ok base)
    (extensible : base.isOpaque = false) (limit : Option Duration) :
    AccountSource.new url limit = .ok ⟨base, limit⟩ := by
  simp only [AccountSource.new, parsed, extensible]
  rfl

theorem new_of_client [DomainNames] {s t : Settings} {client : Client} (checked : s.check = .ok t)
    (known : Client.new t = .ok client) : Service.new s = .ok ⟨t, client⟩ := by
  simp only [Service.new, checked, known]

/-- Settings that pass the check, without white space at the ends of their URL, make a source of
nonces from this URL and a service, whatever the limits are that either sets on its exchanges. Both
stand on one URL, and build from it one and the same for every account, whatever its address: that
of the proxy but for the path, which goes on with the segments of the account. -/
theorem account_urls_agree [DomainNames] {s t : Settings} (checked : s.check = .ok t)
    (starts : StartsOutside isBlank s.proxyUrl.toList)
    (ends : EndsOutside isBlank s.proxyUrl.toList) (limit : Option Duration) :
    ∃ source service, AccountSource.new s.proxyUrl limit = .ok source ∧
      Service.new s = .ok service ∧ source.base = service.client.base ∧
      ∀ address, ∃ u, source.urlFor address = .ok u ∧
        service.client.urlFor (.account address) = .ok u ∧
        Below service.client.base (.account address) u := by
  obtain ⟨base, parsed, known, web, extensible⟩ := exists_base_of_check checked
  have text : t.proxyUrl = Text.trimTrailing '/' s.proxyUrl := by
    rw [Settings.eq_of_check checked, trimUrl_eq_trimTrailing starts ends]
  have made := new_of_parse (text ▸ parsed) extensible limit
  refine ⟨⟨base, limit⟩, ⟨t, ⟨base, t.timeout⟩⟩, made, new_of_client checked known, rfl,
    fun address => ?_⟩
  obtain ⟨u, built, -⟩ := exists_urlFor (c := ⟨base, t.timeout⟩) extensible (.account address)
  exact ⟨u, urlFor_account_iff.mpr built, built,
    below_of_urlFor (Url.clear_of_parse parsed web) built⟩

section

attribute [local instance] DomainNames.untranslated

/-- Below a proxy with a user, a path, slashes and a query, an address with a slash in it. -/
theorem account_urls_agree_user :
    ∃ source service u, AccountSource.new "http://user@proxy:81/gw/?k=v//" none = .ok source ∧
      Service.new (.new "http://user@proxy:81/gw/?k=v//" 0) = .ok service ∧
      source.urlFor "a/é" = .ok u ∧ service.client.urlFor (.account "a/é") = .ok u ∧
      u.text = "http://user@proxy:81/gw/address/a%2F%C3%A9?k=v" := by
  have checked : (Settings.new "http://user@proxy:81/gw/?k=v//" 0).check =
      .ok (.new "http://user@proxy:81/gw/?k=v" 0) := by
    decide +kernel
  have starts : StartsOutside isBlank "http://user@proxy:81/gw/?k=v//".toList :=
    Text.startsOutside_of_head? (c := 'h') (by decide) (by decide)
  have ends : EndsOutside isBlank "http://user@proxy:81/gw/?k=v//".toList :=
    Text.endsOutside_of_getLast? (c := '/') (by decide) (by decide)
  obtain ⟨source, service, made, started, -, agree⟩ := account_urls_agree checked starts ends none
  obtain ⟨u, built, built', -⟩ := agree "a/é"
  have spelled : (AccountSource.new "http://user@proxy:81/gw/?k=v//" none >>= (·.urlFor "a/é")) =
      .ok ⟨"http", some ⟨"user", none, .name "proxy", some 81⟩, false,
        .segments ["gw", "address", "a%2F%C3%A9"], some "k=v", none⟩ := by
    decide +kernel
  rw [show AccountSource.new "http://user@proxy:81/gw/?k=v//" none = .ok source from made]
    at spelled
  obtain rfl := Except.ok.inj (built.symm.trans spelled)
  exact ⟨source, service, _, made, started, built, built', by decide⟩

/-- White space behind slashes hides them from the source, but not from the relay. -/
example :
    ((AccountSource.new "http://proxy/a// " none).toOption.bind fun source =>
        (source.urlFor "x").toOption.map Url.text) = some "http://proxy/a//address/x" ∧
      ((Service.new (.new "http://proxy/a// " 0)).toOption.bind fun service =>
        (service.client.urlFor (.account "x")).toOption.map Url.text) =
        some "http://proxy/a/address/x" := by
  constructor <;> decide +kernel

end

end ObserverRelay.Relay
