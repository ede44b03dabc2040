import ObserverRelay.Json.Gate
/-!
# Decoders

A decoder says how a value of a certain type is written in a document, and reads it in two
ways: straight from the text, and from a value tree that was read before. Reading from text
judges the parts in the order in which they stand; reading from a tree knows no places.
-/
namespace ObserverRelay.Json

/-- The two ways of reading an `α`. Reading from text is given the depth still allowed. -/
structure Decoder (α : Type) where
  fromText : (depth : Nat) → Reader α
  fromValue : Value → Except Cause α

namespace Decoder
variable {α β σ : Type}

/-- Reads a text that is one document as a whole. -/
def parse (d : Decoder α) (s : Bytes) : Except Fault α := readWhole (d.fromText maxDepth) s

/-- Reads what stands at the front of a text although something else is expected there, and
says what it was. Scalars are taken. -/
def mismatch (expected : String) (s : Bytes) : Fault :=
  let found (what : Found) (rest : Bytes) : Fault := .here (.wrongType what expected) rest
  match s with
  | [] => .next .expectedValue []
  | b :: t =>
    let word (w : Bytes) (what : Found) : Fault :=
      match expectWord w t with
      | .error e => e
      | .ok r => found what r.val
    if b = 0x6E then word wordNull .null
    else if b = 0x74 then word wordTrue (.bool true)
    else if b = 0x66 then word wordFalse (.bool false)
    else if b = 0x2D ∨ isDigit b then
      match readNumber (b :: t) with
      | .error e => e
      | .ok r => found (.ofValue (.number r.value)) r.rest
    else if b = 0x22 then
      match readString t with
      | .error e => e
      | .ok r => found (.string r.value) r.rest
    else if b = 0x5B then found .list (b :: t)
    else if b = 0x7B then found .object (b :: t)
    else .next .expectedValue (b :: t)

/-- Refuses a value because something else is expected. -/
def refuse (expected : String) (v : Value) : Except Cause α :=
  .error (.wrongType (.ofValue v) expected)

/-- A string. -/
def string : Decoder String where
  fromText _ s :=
    match front s with
    | .nothing => .error (.next .endInValue [])
    | .octet b t h =>
      if b = 0x22 then (readString t).within h
      else .error (mismatch "a string" (b :: t))
  fromValue
    | .string s => .ok s
    | v => refuse "a string" v

/-- The natural number that a number is, if it is one below the bound. -/
def naturalBelow (bound : Nat) (expected : String) : Number → Except Cause Nat
  | .integer n =>
    if 0 ≤ n ∧ n < bound then .ok n.toNat else .error (.wrongValue (.integer n) expected)
  | .binary x => .error (.wrongType (.binary x) expected)

/-- A natural number below a bound; `expected` names its type. -/
def natural (bound : Nat) (expected : String) : Decoder Nat where
  fromText _ s :=
    match front s with
    | .nothing => .error (.next .endInValue [])
    | .octet b t h =>
      if b = 0x2D ∨ isDigit b then
        match readNumber (b :: t) with
        | .error e => .error e
        | .ok r =>
          match naturalBelow bound expected r.value with
          | .error cause => .error (.here cause r.rest)
          | .ok n => .ok ((r.map fun _ => n).weaken h)
      else .error (mismatch expected (b :: t))
  fromValue
    | .number n => naturalBelow bound expected n
    | v => refuse expected v

/-- A natural number of 32 bits. -/
def natural32 : Decoder Nat := natural Numeral.bound32 "u32"

/-- A natural number of 64 bits. -/
def natural64 : Decoder Nat := natural Numeral.bound64 "u64"

/-- The decoded value passed on to a function that may refuse it. The place of such a
refusal is left to the surrounding value. -/
def refine (d : Decoder α) (f : α → Except String β) : Decoder β where
  fromText depth s :=
    match d.fromText depth s with
    | .error e => .error e
    | .ok r =>
      match f r.value with
      | .error reason => .error (.floating (.refused reason) r.rest)
      | .ok b => .ok (r.map fun _ => b)
  fromValue v :=
    match d.fromValue v with
    | .error e => .error e
    | .ok a => (f a).mapError .refused

/-- The decoded value passed on to a function. -/
def map (f : α → β) (d : Decoder α) : Decoder β where
  fromText depth s := Outcome.map f (d.fromText depth s)
  fromValue v := (d.fromValue v).map f

/-- A value or `null`. -/
def optional (d : Decoder α) : Decoder (Option α) where
  fromText depth s :=
    match front s with
    | .nothing => Outcome.map some ((d.fromText depth []).weaken (length_nil_le s))
    | .octet b t h =>
      if b = 0x6E then (readWord wordNull none b t).weaken h
      else Outcome.map some ((d.fromText depth (b :: t)).weaken h)
  fromValue
    | .null => .ok none
    | v => (d.fromValue v).map some

/-- Items decoded from a list of values, in order. -/
def itemsFromValues (d : Decoder α) : List Value → Except Cause (List α)
  | [] => .ok []
  | v :: rest => do
    let a ← d.fromValue v
    let as ← itemsFromValues d rest
    return a :: as

/-- A list. -/
def list (d : Decoder α) : Decoder (List α) where
  fromText depth s :=
    match front s with
    | .nothing => .error (.next .endInValue [])
    | .octet b t h =>
      if b = 0x5B then
        match depth with
        | 0 => .error (.next .tooDeep (b :: t))
        | depth + 1 =>
          let step (_ : Nat) (done : List α) : Reader (List α) := fun u =>
            Outcome.map (· :: done) (d.fromText depth u)
          match readItems step [] t with
          | .error e => .error (e.settle leaveList)
          | .ok r => .ok ((r.map List.reverse).within h)
      else .error (mismatch "a sequence" (b :: t))
  fromValue
    | .array items => itemsFromValues d items
    | v => refuse "a sequence" v

/-- An object with any members. -/
def members : Decoder Members where
  fromText depth s :=
    match front s with
    | .nothing => .error (.next .endInValue [])
    | .octet b t h =>
      if b = 0x7B then
        match depth with
        | 0 => .error (.next .tooDeep (b :: t))
        | depth + 1 => (readValueMembers (readValue depth) t).within h
      else .error (mismatch "a map" (b :: t))
  fromValue
    | .object ms => .ok ms
    | v => refuse "a map" v

/-- An object with one member of its own kind, all others kept as they are. A repeated
member of the given name is refused, any other repeated name keeps its first place and its
last value. -/
def withRest (title name : String) (d : Decoder α) : Decoder (α × Members) where
  fromText depth s :=
    match front s with
    | .nothing => .error (.next .endInValue [])
    | .octet b t h =>
      if b = 0x7B then
        match depth with
        | 0 => .error (.next .tooDeep (b :: t))
        | depth + 1 =>
          let check (key : String) (state : Option α × Members) : Option Cause :=
            if key = name ∧ state.1.isSome then some (.repeatedMember name) else none
          let step (key : String) (state : Option α × Members) : Reader (Option α × Members) :=
            fun u =>
              if key = name then Outcome.map (fun a => (some a, state.2)) (d.fromText depth u)
              else
                Outcome.map (fun v => (state.1, Members.assign key v state.2)) (readValue depth u)
          match readMembers check step (none, []) t with
          | .error e => .error (e.settle leaveObject)
          | .ok r =>
            match r.value.1 with
            | none => .error (.here (.missingMember name) r.rest)
            | some a => .ok ((r.map fun _ => (a, r.value.2)).within h)
      else .error (mismatch title (b :: t))
  fromValue
    | .object ms =>
      match Members.get? name ms with
      | none => .error (.missingMember name)
      | some v => (d.fromValue v).map fun a => (a, ms.filter fun m => m.1 ≠ name)
    | v => refuse title v

/-- A member of a record: its name, whether it must be there, whether a draft of the record
has it already, and how it is read into the draft. -/
structure Slot (σ : Type) where
  name : String
  required : Bool
  filled : σ → Bool
  fromText : (depth : Nat) → σ → Reader σ
  fromValue : σ → Value → Except Cause σ

/-- A member that is kept by `put` once it has been read. -/
def Slot.of (name : String) (required : Bool) (get : σ → Option α) (put : α → σ → σ)
    (d : Decoder α) : Slot σ where
  name := name
  required := required
  filled state := (get state).isSome
  fromText depth state s := Outcome.map (fun a => put a state) (d.fromText depth s)
  fromValue state v := (d.fromValue v).map fun a => put a state

/-- A record: what messages call it, its members, the empty draft, and how a draft becomes a
record. -/
structure Shape (σ α : Type) where
  title : String
  slots : List (Slot σ)
  empty : σ
  finish : σ → Except Cause α

/-- The member that was read, or the cause that it is missing. -/
def need (name : String) : Option α → Except Cause α
  | some a => .ok a
  | none => .error (.missingMember name)

namespace Shape

/-- What a list is expected to hold when it is too short for a record. -/
def expectation (shape : Shape σ α) : String :=
  shape.title ++ " with " ++ toString shape.slots.length ++
    (if shape.slots.length = 1 then " element" else " elements")

/-- The first of the remaining members that must be there, given the place of the first. -/
def firstRequired (index : Nat) : List (Slot σ) → Option Nat
  | [] => none
  | slot :: rest => if slot.required then some index else firstRequired (index + 1) rest

/-- Reads members by their place in a list. The answer says whether the closing bracket
has been taken. -/
def slotLoop (shape : Shape σ α) (depth : Nat) (s : Bytes) (index : Nat) (state : σ) (t : Bytes)
    (h : t.length ≤ s.length) : List (Slot σ) → Except Fault (σ × Bool × {u : Bytes // u.length ≤ s.length})
  | [] => .ok (state, false, ⟨t, h⟩)
  | slot :: rest =>
    match nextItem (index == 0) t with
    | .error e => .error e
    | .ok (.done u hu) =>
      match firstRequired index (slot :: rest) with
      | some i => .error (.here (.wrongLength i shape.expectation) u)
      | none => .ok (state, true, ⟨u, le_of_shorter_of_le hu h⟩)
    | .ok (.more u hu) =>
      match slot.fromText depth state u with
      | .error e => .error e
      | .ok ⟨state, v, hv⟩ =>
        slotLoop shape depth s (index + 1) state v (le_of_item hv hu h) rest

/-- Reads a record from the items of a list whose opening bracket has been taken. -/
def readPlaces (shape : Shape σ α) (depth : Nat) (s : Bytes) (b : UInt8) : Outcome (b :: s) α :=
  match shape.slotLoop depth s 0 shape.empty s (length_le_self s) shape.slots with
  | .error e => .error (e.settle leaveList)
  | .ok (state, closed, ⟨u, hu⟩) =>
    match shape.finish state with
    | .error cause => .error ((Fault.floating cause u).settle (if closed then id else leaveList))
    | .ok a =>
      if closed then .ok ⟨a, u, shorter_cons hu⟩
      else
        match closeList u with
        | .error e => .error e
        | .ok r => .ok (((r.map fun _ => a).weaken hu).behind b)

/-- The member of a record with the given name. -/
def slot? (shape : Shape σ α) (name : String) : Option (Slot σ) :=
  shape.slots.find? fun slot => slot.name = name

/-- Reads a record from the members of an object whose opening brace has been taken. Members
of other names are passed over. -/
def readNames (shape : Shape σ α) (depth : Nat) : Reader α := fun s =>
  let check (name : String) (state : σ) : Option Cause :=
    match shape.slot? name with
    | some slot => if slot.filled state then some (.repeatedMember name) else none
    | none => none
  let step (name : String) (state : σ) : Reader σ := fun u =>
    match shape.slot? name with
    | some slot => slot.fromText depth state u
    | none => Outcome.map (fun _ => state) (passValue u)
  match readMembers check step shape.empty s with
  | .error e => .error (e.settle leaveObject)
  | .ok r =>
    match shape.finish r.value with
    | .error cause => .error (.here cause r.rest)
    | .ok a => .ok (r.map fun _ => a)

/-- Reads members by name from the members of an object value. -/
def fromMembers (shape : Shape σ α) (state : σ) : Members → Except Cause σ
  | [] => .ok state
  | (name, v) :: rest =>
    match shape.slot? name with
    | none => fromMembers shape state rest
    | some slot =>
      if slot.filled state then .error (.repeatedMember name)
      else
        match slot.fromValue state v with
        | .error e => .error e
        | .ok state => fromMembers shape state rest

/-- Reads members by their place in a list of values. The answer holds the values left. -/
def fromPlaces (shape : Shape σ α) (index : Nat) (state : σ) :
    List (Slot σ) → List Value → Except Cause (σ × List Value)
  | [], vs => .ok (state, vs)
  | slot :: rest, [] =>
    match firstRequired index (slot :: rest) with
    | some i => .error (.wrongLength i shape.expectation)
    | none => .ok (state, [])
  | slot :: rest, v :: vs =>
    match slot.fromValue state v with
    | .error e => .error e
    | .ok state => fromPlaces shape (index + 1) state rest vs

/-- Reads a record from the items of a list value, all of which must be wanted. -/
def fromItems (shape : Shape σ α) (items : List Value) : Except Cause α :=
  match shape.fromPlaces 0 shape.empty shape.slots items with
  | .error e => .error e
  | .ok (state, left) =>
    match shape.finish state with
    | .error e => .error e
    | .ok a =>
      if left = [] then .ok a
      else .error (.wrongLength items.length "fewer elements in array")

end Shape

/-- A record, written as an object with named members or as a list in the members' order.
Members of other names are passed over; a repeated one of its own is refused. -/
def record (shape : Shape σ α) : Decoder α where
  fromText depth s :=
    match front s with
    | .nothing => .error (.next .endInValue [])
    | .octet b t h =>
      if b = 0x5B then
        match depth with
        | 0 => .error (.next .tooDeep (b :: t))
        | depth + 1 => (shape.readPlaces depth t b).weaken h
      else if b = 0x7B then
        match depth with
        | 0 => .error (.next .tooDeep (b :: t))
        | depth + 1 => (shape.readNames depth t).within h
      else .error (mismatch shape.title (b :: t))
  fromValue
    | .array items => shape.fromItems items
    | .object ms =>
      match shape.fromMembers shape.empty ms with
      | .error e => .error e
      | .ok state => shape.finish state
    | v => refuse shape.title v

end Decoder

end ObserverRelay.Json
