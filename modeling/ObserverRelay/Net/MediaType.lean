import ObserverRelay.Text.Blank
/-!
# Media types

A type, a subtype and parameters, as a message says what its body is. Only the question
whether a body is JSON is asked of it, but a text with a malformed parameter is no media type
at all.
-/
namespace ObserverRelay.Net

/-- A media type without its parameters, in lower case. -/
structure MediaType where
  type : String
  subtype : String
  deriving DecidableEq, Repr

namespace MediaType

/-- A character of a token. -/
def isTokenChar (c : Char) : Bool :=
  c.isAlphanum ||
    ['!', '#', '$', '%', '&', '\'', '*', '+', '-', '.', '^', '_', '\x60', '|', '~'].contains c

/-- A character that may stand between quotes. -/
def isQuotable (c : Char) : Bool := 0x20 ≤ c.toNat && c.toNat ≠ 0x7F

/-- What follows the closing quote of a quoted value, if it is well formed. Its first
character may be a quote itself. -/
def behindQuoted? : List Char → Option (List Char)
  | [] => none
  | c :: cs =>
    if isQuotable c then
      let inner := fun d => isQuotable d && d ≠ '"'
      match cs.dropWhile inner with
      | '"' :: rest => some rest
      | _ => none
    else none

/-- What follows a parameter's value up to and with its semicolon, if the value is well
formed; nothing may be left after the last one. -/
def behindValue? (cs : List Char) : Option (List Char) :=
  match cs with
  | '"' :: quotedText =>
    match behindQuoted? quotedText with
    | none => none
    | some rest =>
      match rest.dropWhile (· == ' ') with
      | [] => some []
      | ';' :: more => some more
      | _ => none
  | _ =>
    match cs.dropWhile isTokenChar with
    | [] => some []
    | ';' :: more => if cs.head? = some ';' then none else some more
    | _ => none

/-- What follows a parameter, if it is well formed: a name, an equals sign and a value. -/
def behindParameter? (cs : List Char) : Option (List Char) :=
  match cs.dropWhile isTokenChar with
  | '=' :: value => if cs.head? = some '=' then none else behindValue? value
  | _ => none

/-- Whether a text is a list of parameters, each behind any number of spaces. There are fewer
than `fuel` of them. -/
def areParameters : (fuel : Nat) → List Char → Bool
  | 0, _ => false
  | fuel + 1, cs =>
    match cs.dropWhile (· == ' ') with
    | [] => true
    | c :: rest =>
      match behindParameter? (c :: rest) with
      | some more => areParameters fuel more
      | none => false

/-- The media type that a text names. -/
def read? (s : String) : Option MediaType :=
  let cs := s.toList
  if s = "*/*" then some ⟨"*", "*"⟩
  else
    match cs.takeWhile isTokenChar, cs.dropWhile isTokenChar with
    | [], _ => none
    | type, '/' :: rest =>
      let subtype := rest.takeWhile isTokenChar
      let found : MediaType :=
        ⟨Text.asciiLower (String.ofList type), Text.asciiLower (String.ofList subtype)⟩
      match rest.dropWhile isTokenChar with
      | [] => some found
      | ';' :: parameters =>
        if subtype ≠ [] ∧ areParameters (parameters.length + 1) parameters then some found else none
      | _ => none
    | _, _ => none

/-- The part of a subtype before its last plus sign, and the one behind it, if it has a plus
sign that is not its first character. -/
def splitSuffix (subtype : List Char) : List Char × Option (List Char) :=
  let suffix := (subtype.reverse.takeWhile (· ≠ '+')).reverse
  let plain := (subtype.reverse.dropWhile (· ≠ '+')).drop 1
  match plain with
  | [] => (subtype, none)
  | _ => (plain.reverse, some suffix)

/-- Whether the media type is JSON: `application/json`, or any application type with the
suffix `+json`. -/
def isJson (m : MediaType) : Bool :=
  let (plain, suffix) := splitSuffix m.subtype.toList
  m.type == "application" && (plain == "json".toList || suffix == some "json".toList)

/-- A character that a header may show. -/
def isVisible (c : Char) : Bool := c == '\t' || (0x20 ≤ c.toNat && c.toNat < 0x7F)

/-- Whether a header names JSON. -/
def namesJson (header : Option String) : Bool :=
  match header with
  | none => false
  | some text => text.toList.all isVisible && (read? text).any isJson

end MediaType

end ObserverRelay.Net
