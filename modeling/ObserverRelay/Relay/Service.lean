import ObserverRelay.Net.SocketAddress
import ObserverRelay.Relay.Router
/-!
# The service

From settings to a relay that answers requests: the settings are checked, a client is made
for the proxy, and an address is bound.
-/
namespace ObserverRelay.Relay

open Net

/-- Why an address cannot be listened on. -/
inductive BindRefusal
  | notPermitted
  | notSupported
  | notAvailable
  deriving DecidableEq, Repr

/-- The wording of a refusal. -/
def BindRefusal.message : BindRefusal → String
  | .notPermitted => "Permission denied (os error 13)"
  | .notSupported => "Operation not supported (os error 95)"
  | .notAvailable => "Cannot assign requested address (os error 99)"

/-- Why an address cannot be listened on, by a program without privileges on a machine that
has no network but its own. Low ports are reserved, whatever the address. -/
def bindRefusal? (a : SocketAddress) : Option BindRefusal :=
  if 0 < a.port ∧ a.port < 1024 then some .notPermitted
  else if a.isLocal then none
  else some .notAvailable

/-- Why there is no service. -/
inductive ServiceError
  | settings (e : SettingsError)
  | client (reason : String)
  | bind (listen : SocketAddress) (refusal : BindRefusal)
  deriving DecidableEq, Repr

/-- The wording of an error. -/
def ServiceError.message : ServiceError → String
  | settings e => "configuration error: " ++ e.message
  | client reason => "failed to build upstream client: " ++ reason
  | bind listen refusal => "server bind error: " ++ listen.text ++ ": " ++ refusal.message

/-- An error and what it is due to, the outermost first. -/
def ServiceError.causes : ServiceError → List String
  | settings e => [(settings e).message, e.message]
  | e => [e.message]

/-- A relay that is ready to answer. -/
structure Service where
  settings : Settings
  client : Client
  deriving DecidableEq, Repr

/-- What a service did for a request: the response, if there is one, the wait before the proxy was
asked, the calls that were made to it, the transport's state afterwards and the requests that the
proxy received. -/
structure Served (σ : Type) where
  response : Option Response
  waited : Duration
  calls : List Call
  network : σ
  seen : List Request

namespace Service

/-- The service of some settings. -/
def new [Url.DomainNames] (s : Settings) : Except ServiceError Service :=
  match s.check with
  | .error e => .error (.settings e)
  | .ok s =>
    match Client.new s with
    | .error reason => .error (.client reason)
    | .ok client => .ok ⟨s, client⟩

/-- Binds the address to listen on. -/
def bind (service : Service) : Except ServiceError Unit :=
  match bindRefusal? service.settings.listen with
  | none => .ok ()
  | some refusal => .error (.bind service.settings.listen refusal)

/-- Handles a request. There is no response as long as the proxy's answer is waited for, which may
be for ever. -/
def handle {σ : Type} [Transport σ] (service : Service) (n : σ) (request : Inbound) : Served σ :=
  match Router.plan service.settings service.client.describe request with
  | .respond r => ⟨some r, .zero, [], n, []⟩
  | .ask wait call finish =>
    let (answer, n, seen) := service.client.ask n call
    ⟨answer.map finish, wait, [call], n, seen⟩

end Service

end ObserverRelay.Relay
