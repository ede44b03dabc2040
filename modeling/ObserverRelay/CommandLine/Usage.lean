import ObserverRelay.CommandLine.Flag
/-!
# Usage

What the program says about its command line: the line of usage, the help, the version, and
what is wrong with a command line that cannot be used.
-/
namespace ObserverRelay.CommandLine

/-- The program's name. -/
def programName : String := "proxy-to-observer-adapter"

/-- The program's version. -/
def programVersion : String := "0.1.0"

/-- Texts joined by spaces. -/
def words (ws : List String) : String := Text.joinWith " " ws

/-- The flags whose values must be given, as shown. -/
def requiredShown : List String := (Flag.all.filter Flag.isRequired).map Flag.shown

/-- The line of usage for a program of which nothing has been said. -/
def usageLine : String := words (["Usage:", programName, "[OPTIONS]"] ++ requiredShown)

/-- The line of usage that shows certain flags besides those that must be given. -/
def usageLineWith (shown : List String) : String :=
  if shown = [] then usageLine
  else
    let more := shown.filter fun s => !requiredShown.contains s
    words (["Usage:", programName] ++ requiredShown ++ more)

/-- Why a command line cannot be used. -/
inductive UsageError
  /-- Something stands there that is no flag and no value of one. -/
  | unexpected (word : String)
  /-- No flag has the name; another one may have been meant, and some were given before. -/
  | unknownFlag (name : String) (meant : Option String) (given : List String)
  | badValue (flag : Flag) (text reason : String)
  | noValue (flag : Flag)
  | repeated (flag : Flag)
  /-- A switch has a value; some flags were given before. -/
  | needlessValue (switch text : String) (given : List String)
  /-- Flags are missing; some others were given. -/
  | missing (flags : List Flag) (given : List String)
  deriving DecidableEq, Repr

namespace UsageError

/-- The first lines of the message. -/
def headline : UsageError → String
  | unexpected word => "unexpected argument '" ++ word ++ "' found"
  | unknownFlag name meant _ =>
    "unexpected argument '--" ++ name ++ "' found" ++
      match meant with
      | some other => "\n\n  tip: a similar argument exists: '--" ++ other ++ "'"
      | none => ""
  | badValue flag text reason =>
    "invalid value '" ++ text ++ "' for '" ++ flag.shown ++ "': " ++ reason
  | noValue flag => "a value is required for '" ++ flag.shown ++ "' but none was supplied"
  | repeated flag => "the argument '" ++ flag.shown ++ "' cannot be used multiple times"
  | needlessValue switch text _ =>
    "unexpected value '" ++ text ++ "' for '" ++ switch ++ "' found; no more were expected"
  | missing flags _ =>
    "the following required arguments were not provided:" ++
      String.join (flags.map fun f => "\n  " ++ f.shown)

/-- The line of usage that goes with the message. -/
def usage : UsageError → Option String
  | unexpected _ => some usageLine
  | unknownFlag _ _ given => some (usageLineWith given)
  | badValue .. => none
  | noValue _ => none
  | repeated _ => some usageLine
  | needlessValue _ _ given => some (usageLineWith given)
  | missing flags given => some (usageLineWith (given ++ flags.map Flag.shown))

/-- The whole message. -/
def message (e : UsageError) : String :=
  let middle := match e.usage with
    | some line => line ++ "\n\n"
    | none => ""
  "error: " ++ e.headline ++ "\n\n" ++ middle ++ "For more information, try '--help'.\n"

end UsageError

/-- The left and the right column of the help on a flag. The value that a variable has is
shown with it. -/
def helpRow (environment : String → Option String) (f : Flag) : String × String :=
  let source := match f.environmentName? with
    | some v => " [env: " ++ v ++ "=" ++ (environment v).getD "" ++ "]"
    | none => ""
  let default := match f.default? with
    | some d => " [default: " ++ d ++ "]"
    | none => ""
  ("      " ++ f.shown, f.about ++ source ++ default)

/-- The rows of the help. -/
def helpRows (environment : String → Option String) : List (String × String) :=
  Flag.all.map (helpRow environment) ++
    [("  -h, --help", "Print help"), ("  -V, --version", "Print version")]

/-- The help. -/
def help (environment : String → Option String) : String :=
  let rows := helpRows environment
  let width := rows.foldl (fun w r => max w r.1.length) 0 + 2
  let line (r : String × String) : String :=
    r.1 ++ String.ofList (List.replicate (width - r.1.length) ' ') ++ r.2 ++ "\n"
  "Translate observer-node API calls into network proxy calls\n\n" ++ usageLine ++
    "\n\nOptions:\n" ++ String.join (rows.map line)

/-- The line with the version. -/
def versionLine : String := programName ++ " " ++ programVersion ++ "\n"

end ObserverRelay.CommandLine
