import ObserverRelay.Url.Host
/-!
# URLs

A URL in its parts, each already in the form in which it is written: escapes made, letters
of scheme and host lowered, the scheme's own port left out. The path is opaque or a list of
segments, each with a slash before it.
-/
namespace ObserverRelay

namespace Url

/-- How the parts of a scheme's URLs are read. -/
inductive SchemeKind
  /-- A scheme of the web: it has a host, and a backslash counts as a slash. -/
  | web
  /-- The scheme of files: as those of the web, but the host may be empty. -/
  | file
  /-- Any other scheme. -/
  | other
  deriving DecidableEq, Repr

/-- The kind of a scheme. -/
def SchemeKind.of (scheme : String) : SchemeKind :=
  if scheme = "file" then .file
  else if ["http", "https", "ws", "wss", "ftp"].contains scheme then .web
  else .other

/-- Whether a backslash counts as a slash. -/
def SchemeKind.isSpecial : SchemeKind → Bool
  | .other => false
  | _ => true

/-- The port that a scheme means when none is written. -/
def defaultPort (scheme : String) : Option Nat :=
  if scheme = "http" ∨ scheme = "ws" then some 80
  else if scheme = "https" ∨ scheme = "wss" then some 443
  else if scheme = "ftp" then some 21
  else none

/-- A path. -/
inductive Path
  /-- A path that no other can be resolved against. -/
  | flat (s : String)
  /-- Segments, each with a slash before it. -/
  | segments (parts : List String)
  deriving DecidableEq, Repr

/-- What stands before the path: user name and password, host and port. -/
structure Authority where
  username : String
  password : Option String
  host : Host
  port : Option Nat
  deriving DecidableEq, Repr

end Url

/-- A URL in its parts. -/
structure Url where
  scheme : String
  /-- Absent when no two slashes follow the scheme. -/
  authority : Option Url.Authority
  /-- Whether `/.` is written before a path that would else begin with two slashes. -/
  guarded : Bool
  path : Url.Path
  query : Option String
  fragment : Option String
  deriving DecidableEq, Repr

namespace Url

/-- The characters of user name and password with the sign behind them, if there are any. -/
def Authority.userChars (a : Authority) : List Char :=
  match a.password with
  | some p => a.username.toList ++ ':' :: (p.toList ++ ['@'])
  | none => if a.username = "" then [] else a.username.toList ++ ['@']

/-- The characters of host and port. -/
def Authority.hostChars (a : Authority) : List Char :=
  a.host.chars ++ match a.port with
    | some p => ':' :: Nat.toDigits 10 p
    | none => []

/-- The characters of segments, a slash before each. -/
def segmentsChars (parts : List String) : List Char := parts.flatMap fun s => '/' :: s.toList

/-- The characters of a path. -/
def Path.chars : Path → List Char
  | .flat s => s.toList
  | .segments parts => segmentsChars parts

/-- The path as text. -/
def Path.text (p : Path) : String := String.ofList p.chars

/-- The characters of an optional part behind its mark. -/
def optionalChars (mark : Char) : Option String → List Char
  | some s => mark :: s.toList
  | none => []

/-- The characters of scheme and authority. -/
def originChars (u : Url) : List Char :=
  u.scheme.toList ++ ':' :: match u.authority with
    | some a => '/' :: '/' :: (a.userChars ++ a.hostChars)
    | none => if u.guarded then ['/', '.'] else []

/-- The characters of a URL. -/
def chars (u : Url) : List Char :=
  u.originChars ++ u.path.chars ++ optionalChars '?' u.query ++ optionalChars '#' u.fragment

/-- A URL as text. -/
def text (u : Url) : String := String.ofList u.chars

/-- Whether nothing can be appended to the path: no slash follows the scheme. -/
def isOpaque (u : Url) : Bool :=
  match u.path with
  | .flat _ => true
  | .segments _ => false

/-- The kind of the URL's scheme. -/
def kind (u : Url) : SchemeKind := SchemeKind.of u.scheme

/-- The URL without user name and password. -/
def withoutUser (u : Url) : Url :=
  { u with authority := u.authority.map fun a => { a with username := "", password := none } }

/-- The URL without its fragment. -/
def withoutFragment (u : Url) : Url := { u with fragment := none }

end Url

end ObserverRelay
