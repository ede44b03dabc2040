import ObserverRelay.Text.Blank
import ObserverRelay.Text.Numeral
/-!
# Logging

Which layout log lines have and which of them are written. A filter is a list of directives
with commas between them: a level, or a target or span with an optional level behind `=`.
-/
namespace ObserverRelay.Relay

/-- The layout of log lines. -/
inductive LogFormat
  | pretty
  | json
  deriving DecidableEq, Repr

namespace LogFormat

/-- The name of a layout. -/
def name : LogFormat → String
  | pretty => "pretty"
  | json => "json"

/-- The layout that a text names, whatever its case; `text` is another name of the pretty one.
The refusal carries the text in lower case. -/
def read (s : String) : Except String LogFormat :=
  let lower := Text.asciiLower s
  if lower = "pretty" ∨ lower = "text" then .ok pretty
  else if lower = "json" then .ok json
  else .error lower

/-- The layout that is used unless another one is asked for. -/
def usual : LogFormat := pretty

/-- A layout's name names it. -/
theorem read_name (f : LogFormat) : read f.name = .ok f := by
  have h : Text.asciiLower f.name = f.name := by cases f <;> decide +kernel
  rw [read, h]
  cases f <;> simp [name]

end LogFormat

/-- Why logging cannot be set up. -/
inductive LogError
  | unknownFormat (text : String)
  /-- A directive of the filter has another form. -/
  | badDirective
  /-- A directive of the filter names no level. -/
  | badLevel
  /-- Logging has been set up before. -/
  | alreadySet
  deriving DecidableEq, Repr

/-- The wording of an error. -/
def LogError.message : LogError → String
  | unknownFormat text => "unknown log format: " ++ text
  | badDirective => "failed to initialize logging: invalid filter directive"
  | badLevel =>
    "failed to initialize logging: error parsing level filter: expected one of \"off\", " ++
      "\"error\", \"warn\", \"info\", \"debug\", \"trace\", or a number 0-5"
  | alreadySet =>
    "failed to initialize logging: a global default trace dispatcher has already been set"

namespace LogFilter

/-- The names of the levels. -/
def levelNames : List String := ["off", "error", "warn", "info", "debug", "trace"]

/-- Whether a text names a level: by its name in any case, by its number, or not at all. -/
def isLevel (s : String) : Bool :=
  s == "" || levelNames.contains (Text.asciiLower s) ||
    match Numeral.read Numeral.bound64 s with
    | .ok n => n ≤ 5
    | .error _ => false

/-- Whether a target may begin with a character: a letter, a digit or one of `-`, `:` and `_`.
Beyond ASCII all but white space counts. -/
def beginsTarget (c : Char) : Bool :=
  c.isAlphanum || c == '-' || c == ':' || c == '_' || (0x80 ≤ c.toNat && !Text.isBlank c)

/-- Checks a level behind `=`. -/
def checkLevel (cs : List Char) : Except LogError Unit :=
  if isLevel (String.ofList cs) then .ok () else .error .badLevel

/-- Checks what stands behind a span. -/
def checkAfterSpan : List Char → Except LogError Unit
  | [] => .ok ()
  | '=' :: level => checkLevel level
  | _ => .error .badDirective

/-- Checks the fields of a span, from behind `\x7b` on. None of them may be empty. -/
def checkFields (cs : List Char) : Except LogError Unit :=
  let fields := cs.takeWhile (· ≠ '\x7d')
  if (Text.splitOnMember ',' fields).contains [] then .error .badDirective
  else
    match cs.dropWhile (· ≠ '\x7d') with
    | _ :: ']' :: rest => checkAfterSpan rest
    | _ => .error .badDirective

/-- Checks a span, from behind its bracket on. -/
def checkSpan (cs : List Char) : Except LogError Unit :=
  match cs.dropWhile fun c => c ≠ ']' ∧ c ≠ '\x7b' with
  | [] => .error .badDirective
  | c :: rest => if c = ']' then checkAfterSpan rest else checkFields rest

/-- Checks a directive. -/
def checkDirective (s : String) : Except LogError Unit :=
  match (Text.trim s).toList with
  | [] => .error .badDirective
  | '[' :: rest => checkSpan rest
  | c :: rest =>
    if ¬beginsTarget c then .error .badDirective
    else
      match rest.dropWhile fun c => c ≠ '=' ∧ c ≠ '[' with
      | [] => .ok ()
      | d :: rest => if d = '=' then checkLevel rest else checkSpan rest

/-- Checks a filter. Directives that are empty are passed over, and of several bad ones the
first one counts. -/
def check (s : String) : Except LogError Unit :=
  (((Text.splitOnMember ',' s.toList).map String.ofList).filter (· ≠ "")).forM checkDirective

end LogFilter

/-- What is asked of logging. -/
structure LogSettings where
  level : String
  format : LogFormat
  deriving DecidableEq, Repr

/-- The filter from the environment, if it is there and can be used, or else the level that
was asked for. -/
def LogSettings.check (s : LogSettings) (environment : Option String) : Except LogError Unit :=
  match environment.map LogFilter.check with
  | some (.ok ()) => .ok ()
  | _ => LogFilter.check s.level

/-- Sets up logging in a program that may have done so before. -/
def LogSettings.install (s : LogSettings) (environment : Option String) (before : Bool) :
    Except LogError Unit :=
  match s.check environment with
  | .error e => .error e
  | .ok () => if before then .error .alreadySet else .ok ()

end ObserverRelay.Relay
