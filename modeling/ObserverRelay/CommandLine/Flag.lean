import ObserverRelay.Relay.Logging
import ObserverRelay.Relay.Settings
/-!
# Flags

The flags of the command line. Each takes one value, and most can be given by a variable of
the environment as well.
-/
namespace ObserverRelay.CommandLine

open Relay

/-- A flag with a value. -/
inductive Flag
  | proxy
  | shard
  | listen
  | timeout
  | sleep
  | maxBodySize
  | logLevel
  | logFormat
  deriving DecidableEq, Repr

/-- The value of a flag. -/
inductive Setting
  | proxy (url : String)
  | shard (n : Nat)
  | listen (a : Net.SocketAddress)
  | timeout (d : Duration)
  | sleep (millis : Nat)
  | maxBodySize (octets : Nat)
  | logLevel (s : String)
  | logFormat (f : LogFormat)
  deriving DecidableEq, Repr

/-- The flag whose value it is. -/
def Setting.flag : Setting → Flag
  | proxy _ => .proxy
  | shard _ => .shard
  | listen _ => .listen
  | timeout _ => .timeout
  | sleep _ => .sleep
  | maxBodySize _ => .maxBodySize
  | logLevel _ => .logLevel
  | logFormat _ => .logFormat

namespace Flag

/-- All flags in their order. -/
def all : List Flag :=
  [proxy, shard, listen, timeout, sleep, maxBodySize, logLevel, logFormat]

/-- The name, to be written behind two hyphens. -/
def name : Flag → String
  | proxy => "proxy"
  | shard => "shard"
  | listen => "listen"
  | timeout => "timeout"
  | sleep => "sleep"
  | maxBodySize => "max-body-size"
  | logLevel => "log-level"
  | logFormat => "log-format"

/-- What stands for the value. -/
def placeholder : Flag → String
  | proxy => "PROXY"
  | shard => "SHARD"
  | listen => "LISTEN"
  | timeout => "TIMEOUT"
  | sleep => "SLEEP"
  | maxBodySize => "MAX_BODY_SIZE"
  | logLevel => "LOG_LEVEL"
  | logFormat => "LOG_FORMAT"

/-- The variable of the environment that may give the value. -/
def environmentName? : Flag → Option String
  | proxy => some "ADAPTER_PROXY_URL"
  | shard => some "ADAPTER_SHARD"
  | listen => some "ADAPTER_LISTEN"
  | timeout => some "ADAPTER_TIMEOUT"
  | sleep => some "ADAPTER_DELAY_MS"
  | maxBodySize => some "ADAPTER_MAX_BODY_SIZE"
  | logLevel | logFormat => none

/-- What the flag is for. -/
def about : Flag → String
  | proxy => "Base URL of the network proxy"
  | shard => "Shard this adapter represents (4294967295 for the metachain)"
  | listen => "Address to listen on"
  | timeout => "Upstream request timeout (e.g. \"30s\", \"500ms\"); none by default"
  | sleep => "Milliseconds to wait before relaying each GET"
  | maxBodySize => "Largest accepted request body in bytes"
  | logLevel => "Log filter used when RUST_LOG is not set"
  | logFormat => "Log output format: pretty or json"

/-- The value that is used when none is given. -/
def default? : Flag → Option String
  | listen => some Settings.defaultListen.text
  | sleep => some "0"
  | maxBodySize => some (toString Settings.defaultMaxBody)
  | logLevel => some "info"
  | logFormat => some LogFormat.usual.name
  | proxy | shard | timeout => none

/-- Whether a value must be given. -/
def isRequired : Flag → Bool
  | proxy | shard => true
  | _ => false

/-- The flag with its placeholder. -/
def shown (f : Flag) : String := "--" ++ f.name ++ " <" ++ f.placeholder ++ ">"

/-- The flag of a name. -/
def ofName? (name : String) : Option Flag := all.find? fun f => f.name = name

/-- A shard, read as a signed number first so that its range can be shown. -/
def readShard (s : String) : Except String Nat :=
  match Numeral.readSigned Numeral.signedBound64 Numeral.signedBound64 s with
  | .error e => .error e.message
  | .ok n =>
    if 0 ≤ n ∧ n < Numeral.bound32 then .ok n.toNat
    else .error (toString n ++ " is not in 0..=4294967295")

/-- A number of 64 bits. -/
def readCount (s : String) : Except String Nat :=
  (Numeral.read Numeral.bound64 s).mapError Numeral.Refusal.message

/-- The value that a text is for the flag, or what is wrong with it. -/
def read (f : Flag) (s : String) : Except String Setting :=
  match f with
  | proxy => .ok (.proxy s)
  | shard => (readShard s).map .shard
  | listen =>
    match Net.SocketAddress.read? s with
    | some a => .ok (.listen a)
    | none => .error "invalid socket address syntax"
  | timeout => ((readDuration s).mapError SettingsError.message).map .timeout
  | sleep => (readCount s).map .sleep
  | maxBodySize => (readCount s).map .maxBodySize
  | logLevel => .ok (.logLevel s)
  | logFormat =>
    ((LogFormat.read s).mapError fun t => (LogError.unknownFormat t).message).map .logFormat

end Flag

end ObserverRelay.CommandLine
