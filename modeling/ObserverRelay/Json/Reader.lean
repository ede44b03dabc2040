import ObserverRelay.Json.Container
import ObserverRelay.Json.Digits
/-!
# Reading JSON values

`readValue` takes one value off the front of a text; `Value.parse` wants the whole text to be
one value, white space around it aside. Lists and objects may be nested 127 deep.
-/
namespace ObserverRelay.Json

/-- How deep lists and objects may be nested. -/
def maxDepth : Nat := 127

/-- Reads a word whose first letter has been taken. -/
def readWord {α : Type} (word : Bytes) (value : α) (first : UInt8) (t : Bytes) :
    Outcome (first :: t) α :=
  match expectWord word t with
  | .error e => .error e
  | .ok ⟨u, h⟩ => .ok ⟨value, u, shorter_cons h⟩

/-- Reads the items of a list in order. -/
def readValueItems (item : Reader Value) : Reader (List Value) := fun s =>
  Outcome.map List.reverse (readItems (fun _ done t => (item t).map (· :: done)) [] s)

/-- Reads the members of an object, a repeated name keeping its first place and its last
value. -/
def readValueMembers (value : Reader Value) : Reader Members :=
  readMembers (fun _ _ => none)
    (fun name done t => (value t).map fun v => Members.assign name v done) []

/-- Takes one value off the front of a text, blanks before it included. -/
def readValue (depth : Nat) : Reader Value := fun s =>
  match front s with
  | .nothing => .error (.next .endInValue [])
  | .octet b t h =>
    if b = 0x6E then (readWord wordNull Value.null b t).weaken h
    else if b = 0x74 then (readWord wordTrue (Value.bool true) b t).weaken h
    else if b = 0x66 then (readWord wordFalse (Value.bool false) b t).weaken h
    else if b = 0x2D ∨ isDigit b then ((readNumber (b :: t)).map Value.number).weaken h
    else if b = 0x22 then ((readString t).map Value.string).within h
    else if b = 0x5B then
      match depth with
      | 0 => .error (.next .tooDeep (b :: t))
      | depth + 1 => ((readValueItems (readValue depth) t).map Value.array).within h
    else if b = 0x7B then
      match depth with
      | 0 => .error (.next .tooDeep (b :: t))
      | depth + 1 => ((readValueMembers (readValue depth) t).map Value.object).within h
    else .error (.next .expectedValue (b :: t))

/-- Refuses anything but blanks behind a document. -/
def expectEnd (s : Bytes) : Except Fault Unit :=
  match skipSpace s with
  | [] => .ok ()
  | t => .error (.next .trailingCharacters t)

/-- Reads a text that is one document as a whole. -/
def readWhole {α : Type} (reader : Reader α) (s : Bytes) : Except Fault α :=
  match reader s with
  | .error e => .error e
  | .ok r =>
    match expectEnd r.rest with
    | .error e => .error e
    | .ok () => .ok r.value

/-- The value that a text is, blanks around it aside. -/
def Value.parse (s : Bytes) : Except Fault Value := readWhole (readValue maxDepth) s

/-- The value at the front of a text; what follows it is not looked at. -/
def Value.parseFront (s : Bytes) : Except Fault Value :=
  match readValue maxDepth s with
  | .error e => .error e
  | .ok r => .ok r.value

end ObserverRelay.Json
