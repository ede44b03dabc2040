import ObserverRelay.Net.SocketAddress
import ObserverRelay.Relay.Duration
import ObserverRelay.Url.Parser
/-!
# Settings of the relay

The settings are checked once at the start. A checked URL has no white space in front and
no slash behind, so that resources can be appended to it segment by segment.
-/
namespace ObserverRelay.Relay

/-- The settings of a relay. -/
structure Settings where
  /-- The proxy's URL. -/
  proxyUrl : String
  /-- The shard that the relay stands for. -/
  shard : Nat
  /-- Where the relay listens. -/
  listen : Net.SocketAddress
  /-- How long an exchange with the proxy may take; no limit if absent. -/
  timeout : Option Duration
  /-- The wait before every relayed request to read. -/
  delay : Duration
  /-- The largest request body in octets. -/
  maxBody : Nat
  deriving DecidableEq, Repr

/-- Why settings are refused. -/
inductive SettingsError
  | missingUrl
  | unreadableUrl (url : String) (fault : Url.Fault)
  | unsupportedScheme (url scheme : String)
  | opaqueUrl (url : String)
  | zeroTimeout
  | zeroMaxBody
  | badDuration (text : String)
  deriving DecidableEq, Repr

/-- The wording of a refusal. -/
def SettingsError.message : SettingsError → String
  | .missingUrl => "proxy URL is required"
  | .unreadableUrl url fault => "invalid proxy URL: " ++ url ++ ": " ++ fault.message
  | .unsupportedScheme url scheme =>
    "invalid proxy URL: " ++ url ++ ": unsupported scheme " ++ scheme
  | .opaqueUrl url => "invalid proxy URL: " ++ url ++ ": cannot be used as a base URL"
  | .zeroTimeout => "invalid timeout: request timeout cannot be 0"
  | .zeroMaxBody => "invalid limit: max_body_size cannot be 0"
  | .badDuration text => "invalid duration: " ++ text

/-- The duration that a text names, for a setting. -/
def readDuration (s : String) : Except SettingsError Duration :=
  (Duration.read s).mapError .badDuration

namespace Settings

/-- Where a relay listens unless told otherwise: port 8080 of the machine's own address. -/
def defaultListen : Net.SocketAddress := .v4 0x7F000001 8080

/-- The largest request body unless told otherwise: ten mebibytes. -/
def defaultMaxBody : Nat := 10 * 1024 * 1024

/-- The settings for a proxy and a shard, all else as usual. -/
def new (proxyUrl : String) (shard : Nat) : Settings where
  proxyUrl := proxyUrl
  shard := shard
  listen := defaultListen
  timeout := none
  delay := .zero
  maxBody := defaultMaxBody

/-- The URL without white space around it and then without slashes behind. -/
def trimUrl (s : String) : String := Text.trimTrailing '/' (Text.trim s)

/-- A URL that resources can be appended to and that HTTP can reach. -/
def checkUrl [Url.DomainNames] (url : String) : Except SettingsError Unit :=
  if url = "" then .error .missingUrl
  else
    match Url.parse url with
    | .error fault => .error (.unreadableUrl url fault)
    | .ok u =>
      if u.scheme ≠ "http" ∧ u.scheme ≠ "https" then
        .error (.unsupportedScheme url u.scheme)
      else if u.isOpaque then .error (.opaqueUrl url)
      else .ok ()

/-- The settings with a trimmed URL, if all of them can be used. Of several faults the first
one counts: the URL, the timeout, the size of bodies. -/
def check [Url.DomainNames] (s : Settings) : Except SettingsError Settings :=
  match checkUrl (trimUrl s.proxyUrl) with
  | .error e => .error e
  | .ok () =>
    if s.timeout = some .zero then .error .zeroTimeout
    else if s.maxBody = 0 then .error .zeroMaxBody
    else .ok { s with proxyUrl := trimUrl s.proxyUrl }

/-- Checking changes nothing but the URL. -/
theorem eq_of_check [Url.DomainNames] {s t : Settings} (h : s.check = .ok t) :
    t = { s with proxyUrl := trimUrl s.proxyUrl } := by
  unfold check at h
  split at h
  · exact nomatch h
  · split at h
    · exact nomatch h
    · split at h
      · exact nomatch h
      · exact (Except.ok.inj h).symm

end Settings

end ObserverRelay.Relay
