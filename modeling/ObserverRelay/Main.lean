import ObserverRelay.CommandLine.Run
/-!
# The program

Reads the command line and the environment, and does what they say.
-/
namespace ObserverRelay

/-- The names of the variables that the program looks at. -/
def variableNames : List String :=
  "RUST_LOG" :: CommandLine.Flag.all.filterMap CommandLine.Flag.environmentName?

/-- The environment, as far as the program looks at it. -/
def readEnvironment : IO (String → Option String) := do
  let values ← variableNames.mapM fun name => do return (name, ← IO.getEnv name)
  return fun name => (values.lookup name).join

end ObserverRelay

open ObserverRelay in
/-- Runs the program. There are no sockets to serve with, which is said like any other failure
to listen, and no tables for international names. -/
def main (args : List String) : IO UInt32 := do
  have := Url.DomainNames.untranslated
  let ended := match CommandLine.run args (← readEnvironment) with
    | .ended e => e
    | .serving s =>
      let e := Relay.ServiceError.bind s.settings.listen .notSupported
      CommandLine.failedAt "serving adapter" e.causes
  IO.print ended.stdout
  IO.eprint ended.stderr
  return ended.code.toUInt32
