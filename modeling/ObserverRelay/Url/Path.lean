import ObserverRelay.Url.Basic
/-!
# Paths of segments

A path grows by segments. A segment of one dot adds nothing and one of two dots takes the
last segment away; the dots may be escaped. When such a segment ends the path, the path ends
in a slash. Line breaks and tabs in a segment are dropped before it is judged.
-/
namespace ObserverRelay.Url

/-- A character that is dropped wherever it stands in a URL. -/
def isLineBreakOrTab (c : Char) : Bool := c == '\t' || c == '\n' || c == '\r'

/-- One dot, possibly escaped. -/
def isSingleDot (segment : List Char) : Bool :=
  [".", "%2e", "%2E"].contains (String.ofList segment)

/-- Two dots, each possibly escaped. -/
def isDoubleDot (segment : List Char) : Bool :=
  ["..", "%2e%2e", "%2e%2E", "%2E%2e", "%2E%2E", "%2e.", "%2E.", ".%2e", ".%2E"].contains
    (String.ofList segment)

/-- The path after one more segment, which ends the path if it is the last one. -/
def appendPiece (parts : List String) (segment : List Char) (last : Bool) : List String :=
  if isDoubleDot segment then
    if last then parts.dropLast ++ [""] else parts.dropLast
  else if isSingleDot segment then
    if last then parts ++ [""] else parts
  else parts ++ [String.ofList segment]

/-- The path after all of the given segments. -/
def appendPieces (parts : List String) : List (List Char) → List String
  | [] => parts
  | [s] => appendPiece parts s true
  | s :: rest => appendPieces (appendPiece parts s false) rest

/-- Cuts a text into segments at its slashes. -/
def splitSegments (special : Bool) (cs : List Char) : List (List Char) :=
  Text.splitOnMember '/' (cs.map fun c => if special && c == '\\' then '/' else c)

/-- The segments of a path text, which follow `parts`. -/
def readSegments (special : Bool) (parts : List String) (cs : List Char) : List String :=
  appendPieces parts ((splitSegments special cs).map (encodeChars pathSet))

/-- The path with an empty last segment taken off, unless it is the only one. -/
def dropEmptyLast (parts : List String) : List String :=
  if 2 ≤ parts.length ∧ parts.getLast? = some "" then parts.dropLast else parts

/-- The path to which a segment is put: a lone empty segment makes place for it. -/
def openPath (parts : List String) : List String := if parts = [""] then [] else parts

/-- The path with a text put to it as one segment. A text of one dot or two is passed over;
what else needs an escape gets one, slashes included. -/
def pushSegment (special : Bool) (parts : List String) (text : String) : List String :=
  if text = "." ∨ text = ".." then parts
  else
    let kept := text.toList.filter fun c => !isLineBreakOrTab c
    let set := if special then specialSegmentSet else segmentSet
    appendPiece (openPath parts) (encodeChars set kept) true

/-- The URL with texts put to its path as one segment each; nothing if its path is flat. -/
def extend? (u : Url) (texts : List String) : Option Url :=
  match u.path with
  | .flat _ => none
  | .segments parts =>
    some { u with
      path := .segments (texts.foldl (pushSegment u.kind.isSpecial) (dropEmptyLast parts)) }

/-- The URL can be extended exactly when its path is not flat. -/
theorem isSome_extend? (u : Url) (texts : List String) :
    (u.extend? texts).isSome = !u.isOpaque := by
  unfold extend? isOpaque
  cases u.path <;> rfl

end ObserverRelay.Url
