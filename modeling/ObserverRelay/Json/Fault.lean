import ObserverRelay.Json.Value
import ObserverRelay.Number.Shortest
import ObserverRelay.Text.Bytes
import ObserverRelay.Text.Quoted
/-!
# Why a document is refused, and where

A reader works from the front of a text, so a place is given by what is left of the text.
`Fault.position` turns that into a line and a column; faults that concern a whole value get
their place from the innermost list, object or scalar around them.
-/
namespace ObserverRelay.Json

/-- A kind of value, with its content if that is shown. -/
inductive Found
  | null
  | bool (b : Bool)
  | integer (n : Int)
  | binary (x : Binary64)
  | string (s : String)
  | list
  | object
  deriving DecidableEq, Repr

/-- How a message names what was found. -/
def Found.describe : Found → String
  | .null => "null"
  | .bool b => "boolean `" ++ (if b then "true" else "false") ++ "`"
  | .integer n => "integer `" ++ String.ofList (integerText n) ++ "`"
  | .binary x => "floating point `" ++ String.ofList x.write ++ "`"
  | .string s => "string " ++ Text.quoted s
  | .list => "sequence"
  | .object => "map"
where
  /-- The digits of an integer. -/
  integerText (n : Int) : List Char :=
    if n < 0 then '-' :: Nat.toDigits 10 n.natAbs else Nat.toDigits 10 n.natAbs

/-- What was found, given a value. -/
def Found.ofValue : Value → Found
  | .null => .null
  | .bool b => .bool b
  | .number (.integer n) => .integer n
  | .number (.binary x) => .binary x
  | .string s => .string s
  | .array _ => .list
  | .object _ => .object

/-- Why a text is no document, or a document is not of the asked form. -/
inductive Cause
  | endInList
  | endInObject
  | endInString
  | endInValue
  | expectedColon
  | expectedListCommaOrEnd
  | expectedObjectCommaOrEnd
  | expectedWord
  | expectedValue
  | badEscape
  | badNumber
  | numberOutOfRange
  | badCodePoint
  | controlCharacter
  | nameNotString
  | loneSurrogate
  | unfinishedSurrogate
  | trailingComma
  | trailingCharacters
  | tooDeep
  | wrongType (found : Found) (expected : String)
  | wrongValue (found : Found) (expected : String)
  | wrongLength (length : Nat) (expected : String)
  | missingMember (name : String)
  | repeatedMember (name : String)
  | refused (reason : String)
  deriving DecidableEq, Repr

/-- The wording of a cause. -/
def Cause.message : Cause → String
  | .endInList => "EOF while parsing a list"
  | .endInObject => "EOF while parsing an object"
  | .endInString => "EOF while parsing a string"
  | .endInValue => "EOF while parsing a value"
  | .expectedColon => "expected `:`"
  | .expectedListCommaOrEnd => "expected `,` or `]`"
  | .expectedObjectCommaOrEnd => "expected `,` or `\x7d`"
  | .expectedWord => "expected ident"
  | .expectedValue => "expected value"
  | .badEscape => "invalid escape"
  | .badNumber => "invalid number"
  | .numberOutOfRange => "number out of range"
  | .badCodePoint => "invalid unicode code point"
  | .controlCharacter => "control character (\\u0000-\\u001F) found while parsing a string"
  | .nameNotString => "key must be a string"
  | .loneSurrogate => "lone leading surrogate in hex escape"
  | .unfinishedSurrogate => "unexpected end of hex escape"
  | .trailingComma => "trailing comma"
  | .trailingCharacters => "trailing characters"
  | .tooDeep => "recursion limit exceeded"
  | .wrongType found expected => "invalid type: " ++ found.describe ++ ", expected " ++ expected
  | .wrongValue found expected => "invalid value: " ++ found.describe ++ ", expected " ++ expected
  | .wrongLength n expected => "invalid length " ++ toString n ++ ", expected " ++ expected
  | .missingMember name => "missing field `" ++ name ++ "`"
  | .repeatedMember name => "duplicate field `" ++ name ++ "`"
  | .refused reason => reason

/-- A step into a document. -/
inductive Step
  | member (name : String)
  | item (index : Nat)
  deriving DecidableEq, Repr

/-- The path of steps as text: `a[1].b`. -/
def pathText : List Step → String
  | [] => ""
  | .member name :: rest => name ++ more rest
  | .item i :: rest => "[" ++ toString i ++ "]" ++ more rest
where
  /-- The steps after the first one, a dot before each name. -/
  more : List Step → String
    | [] => ""
    | .member name :: rest => "." ++ name ++ more rest
    | .item i :: rest => "[" ++ toString i ++ "]" ++ more rest

/-- A place in a text: lines count from one, columns count the octets since the line's start. -/
structure Position where
  line : Nat
  column : Nat
  deriving DecidableEq, Repr

/-- The place behind the octets that were read. -/
def Position.after (done : Bytes) : Position :=
  ⟨1 + done.count 0x0A, (done.reverse.takeWhile (· ≠ 0x0A)).length⟩

/-- A refusal by a reader: its cause, what was left of the text, whether that is the final
place of it, and the steps into the document that lead to it. -/
structure Fault where
  cause : Cause
  rest : Bytes
  placed : Bool
  path : List Step
  deriving DecidableEq, Repr

namespace Fault

/-- A fault at the place reached. -/
def here (cause : Cause) (rest : Bytes) : Fault := ⟨cause, rest, true, []⟩

/-- A fault behind the next octet, which is looked at but not taken. -/
def next (cause : Cause) (rest : Bytes) : Fault := ⟨cause, rest.tail, true, []⟩

/-- A fault that the surrounding value has still to place. -/
def floating (cause : Cause) (rest : Bytes) : Fault := ⟨cause, rest, false, []⟩

/-- The fault, placed after the move `close` if it was still floating. -/
def settle (close : Bytes → Bytes) (f : Fault) : Fault :=
  if f.placed then f else { f with rest := close f.rest, placed := true }

/-- The fault seen from one step further out. -/
def within (step : Step) (f : Fault) : Fault := { f with path := step :: f.path }

/-- The place of a fault in the whole text. -/
def position (input : Bytes) (f : Fault) : Position :=
  Position.after (input.take (input.length - f.rest.length))

/-- The wording of a fault in the whole text. -/
def message (input : Bytes) (f : Fault) : String :=
  let p := f.position input
  f.cause.message ++ " at line " ++ toString p.line ++ " column " ++ toString p.column

end Fault

end ObserverRelay.Json
