import ObserverRelay.Url.Path
/-!
# Reading URLs

A URL is read from the front: scheme, user name and password, host, port, path, query,
fragment. Blanks and control characters around it and line breaks and tabs inside it are
dropped first. A text without a scheme is no URL, since there is no base to read it against.
-/
namespace ObserverRelay.Url

open Net

/-- The text without blanks and control characters at its ends, and without line breaks and
tabs. -/
def clean (s : String) : List Char :=
  (Text.trimList (fun c => c.toNat ≤ 0x20) s.toList).filter fun c => !isLineBreakOrTab c

/-- A character of a scheme behind its first one. -/
def isSchemeChar (c : Char) : Bool := c.isAlphanum || c == '+' || c == '-' || c == '.'

/-- The scheme, in lower case, and what follows its colon. -/
def splitScheme? (cs : List Char) : Option (String × List Char) :=
  match cs with
  | c :: _ =>
    if c.isAlpha then
      match cs.dropWhile isSchemeChar with
      | ':' :: rest => some (String.ofList ((cs.takeWhile isSchemeChar).map Char.toLower), rest)
      | _ => none
    else none
  | [] => none

/-- Query and fragment from the mark on that ends a path. -/
def readTail (special : Bool) (cs : List Char) : Option String × Option String :=
  let encode (set : EncodeSet) (part : List Char) : String := String.ofList (encodeChars set part)
  let fragmentOf : List Char → Option String
    | '#' :: rest => some (encode fragmentSet rest)
    | _ => none
  match cs with
  | '?' :: rest =>
    (some (encode (if special then specialQuerySet else querySet) (rest.takeWhile (· ≠ '#'))),
      fragmentOf (rest.dropWhile (· ≠ '#')))
  | cs => (none, fragmentOf cs)

/-- Whether a character ends a path. -/
def endsPath (c : Char) : Bool := c == '?' || c == '#'

/-- Whether a character ends an authority. -/
def endsAuthority (special : Bool) (c : Char) : Bool :=
  c == '/' || endsPath c || (special && c == '\\')

/-- The user part before the last `@` of an authority, and what follows it. -/
def splitUser? (authority : List Char) : Option (List Char × List Char) :=
  match authority.reverse.dropWhile (· ≠ '@') with
  | [] => none
  | _ :: user =>
    some (user.reverse, (authority.reverse.takeWhile (· ≠ '@')).reverse)

/-- User name and password of a user part. An empty password is none. -/
def readUser (user : List Char) : String × Option String :=
  let name := user.takeWhile (· ≠ ':')
  let encode (part : List Char) : String := String.ofList (encodeChars userInfoSet part)
  match user.dropWhile (· ≠ ':') with
  | _ :: c :: rest => (encode name, some (encode (c :: rest)))
  | _ => (encode name, none)

/-- Cuts a host off at the colon before a port; colons in brackets do not count. -/
def splitHost (bracket : Bool) : List Char → List Char × List Char
  | [] => ([], [])
  | c :: cs =>
    if c = ':' ∧ ¬bracket then ([], c :: cs)
    else
      let inside := if c = '[' then true else if c = ']' then false else bracket
      let (host, rest) := splitHost inside cs
      (c :: host, rest)

/-- The port that digits name; anything else is refused, but a backslash ends it too. The
second part is what a backslash left over. -/
def readPort (scheme : String) (cs : List Char) : Except Fault (Option Nat × List Char) :=
  let digits := cs.takeWhile Char.isDigit
  let rest := cs.dropWhile Char.isDigit
  if 65535 < (readBase 10 0 digits).getD 0 then .error .badPort
  else
    match rest with
    | [] | '\\' :: _ =>
      let port := if digits = [] then none else readBase 10 0 digits
      .ok (if port = defaultPort scheme then none else port, rest)
    | _ => .error .badPort

/-- An authority, which `authority` holds without what ends it; `ended` says that something
does. The second part is what was left over of it. -/
def readAuthority [DomainNames] (scheme : String) (authority : List Char) (ended : Bool) :
    Except Fault (Authority × List Char) :=
  let kind := SchemeKind.of scheme
  let (user, hostPort) := match splitUser? authority with
    | none => (none, authority)
    | some (u, h) => (some u, h)
  let (username, password) := readUser (user.getD [])
  let hasUser := username ≠ "" || password.isSome
  let (hostText, portText) := splitHost false hostPort
  if user = some [] ∧ hostPort = [] ∧ ended then .error .emptyHost
  else if kind = .web ∧ hostText = [] then .error .emptyHost
  else
    match (if kind.isSpecial then Host.read hostText else Host.readOpaque hostText) with
    | .error e => .error e
    | .ok host =>
      if host = .name "" ∧ portText ≠ [] then .error .emptyHost
      else
        match portText with
        | ':' :: digits =>
          match readPort scheme digits with
          | .error e => .error e
          | .ok (port, rest) => .ok (⟨username, password, host, port⟩, rest)
        | _ =>
          if host = .name "" ∧ hasUser then .error .emptyHost
          else .ok (⟨username, password, host, none⟩, [])

/-- What follows an authority: path, query and fragment. -/
def readAfterAuthority (scheme : String) (authority : Authority) (cs : List Char) : Url :=
  let special := (SchemeKind.of scheme).isSpecial
  let pathText := cs.takeWhile fun c => !endsPath c
  let (query, fragment) := readTail special (cs.dropWhile fun c => !endsPath c)
  let unled := match pathText with
    | '/' :: rest => rest
    | '\\' :: rest => if special then rest else pathText
    | _ => pathText
  let parts := if pathText = [] ∧ ¬special then [] else readSegments special [] unled
  ⟨scheme, some authority, false, .segments parts, query, fragment⟩

/-- A URL from behind the two slashes before its authority. -/
def readHierarchical [DomainNames] (scheme : String) (cs : List Char) : Except Fault Url :=
  let special := (SchemeKind.of scheme).isSpecial
  let authority := cs.takeWhile fun c => !endsAuthority special c
  let rest := cs.dropWhile fun c => !endsAuthority special c
  match readAuthority scheme authority (!rest.isEmpty) with
  | .error e => .error e
  | .ok (a, left) => .ok (readAfterAuthority scheme a (left ++ rest))

/-- The URL of a file: a host may follow two slashes. -/
def readFile [DomainNames] (cs : List Char) : Except Fault Url :=
  let isSlash (c : Char) : Bool := c == '/' || c == '\\'
  let nowhere : Authority := ⟨"", none, .name "", none⟩
  match cs with
  | a :: b :: rest =>
    if isSlash a && isSlash b then
      let hostText := rest.takeWhile fun c => !endsAuthority true c
      let after := rest.dropWhile fun c => !endsAuthority true c
      if hostText = [] then .ok (readAfterAuthority "file" nowhere after)
      else
        match Host.read hostText with
        | .error e => .error e
        | .ok host =>
          let named := if host = .name "localhost" then .name "" else host
          .ok (readAfterAuthority "file" ⟨"", none, named, none⟩ after)
    else .ok (readAfterAuthority "file" nowhere cs)
  | cs => .ok (readAfterAuthority "file" nowhere cs)

/-- A URL of any other scheme that has no authority. -/
def readPlain (scheme : String) (cs : List Char) : Url :=
  let pathText := cs.takeWhile fun c => !endsPath c
  let (query, fragment) := readTail false (cs.dropWhile fun c => !endsPath c)
  match pathText with
  | '/' :: rest =>
    let parts := readSegments false [] rest
    ⟨scheme, none, decide (2 ≤ parts.length ∧ parts.head? = some ""), .segments parts, query,
      fragment⟩
  | _ => ⟨scheme, none, false, .flat (String.ofList (encodeChars controlSet pathText)), query,
      fragment⟩

/-- A URL from behind its scheme. -/
def readWithScheme [DomainNames] (scheme : String) (cs : List Char) : Except Fault Url :=
  match SchemeKind.of scheme with
  | .file => readFile cs
  | .web => readHierarchical scheme (cs.dropWhile fun c => c == '/' || c == '\\')
  | .other =>
    match cs with
    | '/' :: '/' :: rest => readHierarchical scheme rest
    | cs => .ok (readPlain scheme cs)

/-- The URL that a text is. -/
def parse [DomainNames] (s : String) : Except Fault Url :=
  let cs := clean s
  match splitScheme? cs with
  | some (scheme, rest) => readWithScheme scheme rest
  | none => .error .relativeWithoutBase

end ObserverRelay.Url
