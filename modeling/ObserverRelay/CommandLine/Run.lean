import ObserverRelay.CommandLine.Arguments
import ObserverRelay.Relay.Service
/-!
# A run of the program

From the words of the command line to the point where the program either ends, with its exit
code and what it prints, or serves.
-/
namespace ObserverRelay.CommandLine

open Relay

/-- How a run ends. -/
structure Ended where
  code : Nat
  stdout : String
  stderr : String
  deriving DecidableEq, Repr

/-- What becomes of a run. -/
inductive Run
  | ended (e : Ended)
  | serving (s : Service)
  deriving DecidableEq, Repr

/-- The relay's settings with one value put in. -/
def Setting.put (s : Settings) : Setting → Settings
  | proxy url => { s with proxyUrl := url }
  | shard n => { s with shard := n }
  | listen a => { s with listen := a }
  | timeout d => { s with timeout := some d }
  | sleep n => { s with delay := ⟨n⟩ }
  | maxBodySize n => { s with maxBody := n }
  | logLevel _ | logFormat _ => s

/-- The settings of logging with one value put in. -/
def Setting.putLog (s : LogSettings) : Setting → LogSettings
  | logLevel level => { s with level := level }
  | logFormat f => { s with format := f }
  | _ => s

/-- The usual settings of logging. -/
def usualLog : LogSettings := ⟨"info", .usual⟩

/-- A cause as lines, those behind the first one indented. -/
def indented (first later : String) (cause : String) : String :=
  let lines := (Text.splitOnMember '\n' cause.toList).map String.ofList
  first ++ Text.joinWith ("\n" ++ later) lines

/-- The causes of a failure; they are numbered if there is more than one. -/
def causeLines : List String → String
  | [] => ""
  | [cause] => "\n\nCaused by:\n" ++ indented "    " "    " cause
  | causes =>
    let numbered (p : String × Nat) : String :=
      indented ("    " ++ toString p.2 ++ ": ") "       " p.1
    "\n\nCaused by:\n" ++ Text.joinWith "\n" (causes.zipIdx.map numbered)

/-- The end of a run that failed at something. -/
def failedAt (what : String) (causes : List String) : Ended :=
  ⟨1, "", "Error: " ++ what ++ causeLines causes ++ "\n"⟩

/-- The end of a run whose arguments could not be used or were an inquiry. -/
def stopped (environment : String → Option String) : Stop → Ended
  | .inquiry .help => ⟨0, help environment, ""⟩
  | .inquiry .version => ⟨0, versionLine, ""⟩
  | .error e => ⟨2, "", e.message⟩

/-- Runs the program up to the point where it serves. -/
def run [Url.DomainNames] (args : List String) (environment : String → Option String) : Run :=
  match readArguments args environment with
  | .error stop => .ended (stopped environment stop)
  | .ok given =>
    let logging := given.foldl Setting.putLog usualLog
    match logging.install (environment "RUST_LOG") false with
    | .error e => .ended (failedAt "initializing logging" [e.message])
    | .ok () =>
      match Service.new (given.foldl Setting.put (.new "" 0)) with
      | .error e => .ended (failedAt "creating adapter" e.causes)
      | .ok service =>
        match service.bind with
        | .error e => .ended (failedAt "serving adapter" e.causes)
        | .ok () => .serving service

end ObserverRelay.CommandLine
