import ObserverRelay.CommandLine.Likeness
import ObserverRelay.CommandLine.Usage
/-!
# Arguments

Reading the words of a command line from left to right. A flag's value is judged when the next
flag turns up or the words end, so what is wrong with a word that cannot be there at all is
said first. Flags that are not given are then taken from the environment.
-/
namespace ObserverRelay.CommandLine

/-- A request that ends the reading at once. -/
inductive Inquiry
  | help
  | version
  deriving DecidableEq, Repr

/-- Why reading stops early. -/
inductive Stop
  | inquiry (i : Inquiry)
  | error (e : UsageError)
  deriving DecidableEq, Repr

/-- What has been read: the settings in order, and the flag that was named last, with its value
once that has come. -/
structure Progress where
  given : List Setting
  pending : Option (Flag × Option String)
  deriving DecidableEq, Repr

namespace Progress

/-- Nothing read. -/
def start : Progress := ⟨[], none⟩

/-- Whether a flag has its setting. -/
def has (p : Progress) (f : Flag) : Bool := p.given.any fun s => s.flag = f

/-- Settles a flag with a value. -/
def take (p : Progress) (f : Flag) (text : String) : Except Stop Progress :=
  if p.has f then .error (.error (.repeated f))
  else
    match f.read text with
    | .error reason => .error (.error (.badValue f text reason))
    | .ok s => .ok ⟨p.given ++ [s], none⟩

/-- Settles the flag that was named last. -/
def settle (p : Progress) : Except Stop Progress :=
  match p.pending with
  | none => .ok p
  | some (f, none) => .error (.error (.noValue f))
  | some (f, some text) => p.take f text

/-- The flags that were given, as shown, those that must be given aside. A flag that is being
given again counts as not given. -/
def shown (p : Progress) : List String :=
  let given := p.given.map Setting.flag
  let flags := match p.pending with
    | some (f, some _) => if p.has f then given.filter (· ≠ f) else given ++ [f]
    | _ => given
  (flags.filter fun f => !f.isRequired).map Flag.shown

/-- The name of a switch. -/
def switch? (name : String) : Option Inquiry :=
  if name = "help" then some .help else if name = "version" then some .version else none

/-- All names that may stand behind two hyphens. -/
def allNames : List String := Flag.all.map Flag.name ++ ["help", "version"]

/-- The message about a name that no flag has. -/
def unknown (p : Progress) (name : String) : UsageError :=
  let meant := mostLike? name allNames
  let meantShown := match meant with
    | none => []
    | some other =>
      match Flag.ofName? other with
      | some f => if f.isRequired then [] else [f.shown]
      | none => ["--" ++ other]
  let before := p.shown
  .unknownFlag name meant (before ++ meantShown.filter fun s => !before.contains s)

/-- Reads a word behind two hyphens. -/
def readLong (p : Progress) (word : List Char) : Except Stop Progress :=
  let name := String.ofList (word.takeWhile (· ≠ '='))
  let value? := match word.dropWhile (· ≠ '=') with
    | _ :: value => some (String.ofList value)
    | [] => none
  match Flag.ofName? name, switch? name with
  | some f, _ => do
    let p ← p.settle
    match value? with
    | some value => p.take f value
    | none => return { p with pending := some (f, none) }
  | none, some inquiry =>
    match value? with
    | some value =>
      let before := { p with pending := none }.shown
      .error (.error (.needlessValue ("--" ++ name) value (before ++ ["--" ++ name])))
    | none => do
      let _ ← p.settle
      throw (.inquiry inquiry)
  | none, none => .error (.error (p.unknown name))

/-- Reads a word behind one hyphen. Only the first letter counts. -/
def readShort (p : Progress) (letter : Char) : Except Stop Progress :=
  if letter = 'h' then do
    let _ ← p.settle
    throw (.inquiry .help)
  else if letter = 'V' then do
    let _ ← p.settle
    throw (.inquiry .version)
  else .error (.error (.unexpected (String.ofList ['-', letter])))

/-- Reads a word that is no flag. -/
def readPlain (p : Progress) (word : String) : Except Stop Progress :=
  match p.pending with
  | some (f, none) => .ok { p with pending := some (f, some word) }
  | _ => .error (.error (.unexpected word))

/-- Reads words in order. Behind two lone hyphens none is expected. -/
def readWords (p : Progress) : List String → Except Stop Progress
  | [] => p.settle
  | word :: rest =>
    match word.toList with
    | ['-', '-'] =>
      match rest with
      | [] => p.settle
      | next :: _ => .error (.error (.unexpected next))
    | '-' :: '-' :: long => do
      let p ← p.readLong long
      p.readWords rest
    | '-' :: letter :: _ => do
      let p ← p.readShort letter
      p.readWords rest
    | _ => do
      let p ← p.readPlain word
      p.readWords rest

/-- Takes what is not given from the environment. -/
def readEnvironment (p : Progress) (environment : String → Option String) :
    List Flag → Except Stop Progress
  | [] => .ok p
  | f :: rest =>
    match f.environmentName?.bind environment with
    | some text =>
      if p.has f then p.readEnvironment environment rest
      else do
        let p ← p.take f text
        p.readEnvironment environment rest
    | none => p.readEnvironment environment rest

/-- Refuses a command line without the flags that must be given. -/
def demand (p : Progress) : Except Stop Progress :=
  match Flag.all.filter fun f => f.isRequired && !p.has f with
  | [] => .ok p
  | flags => .error (.error (.missing flags p.shown))

end Progress

/-- The settings that a command line and the environment give. -/
def readArguments (args : List String) (environment : String → Option String) :
    Except Stop (List Setting) := do
  let p ← Progress.start.readWords args
  let p ← p.readEnvironment environment Flag.all
  let p ← p.demand
  return p.given

end ObserverRelay.CommandLine
