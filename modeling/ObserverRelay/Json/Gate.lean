import ObserverRelay.Json.Reader
/-!
# Passing over JSON

`passValue` takes one value off the front of a text without building it. Nesting has no
limit: the lists and objects still open are kept in a list of frames. Numbers are not held to a
range, strings are not decoded, and escapes are judged by their form alone.
-/
namespace ObserverRelay.Json

/-- A list or an object that is open. -/
inductive Frame
  | list
  | object
  deriving DecidableEq, Repr

/-- A scalar passed over, or a bracket that opens something. -/
inductive Opening
  | scalar
  | opens (frame : Frame)
  deriving DecidableEq, Repr

/-- Passes over a scalar or an opening bracket, blanks before it included. -/
def passOpening : Reader Opening := fun s =>
  match front s with
  | .nothing => .error (.next .endInValue [])
  | .octet b t h =>
    if b = 0x6E then (readWord wordNull Opening.scalar b t).weaken h
    else if b = 0x74 then (readWord wordTrue Opening.scalar b t).weaken h
    else if b = 0x66 then (readWord wordFalse Opening.scalar b t).weaken h
    else if b = 0x2D ∨ isDigit b then
      ((passNumber (b :: t)).map fun _ => Opening.scalar).weaken h
    else if b = 0x22 then ((passString t).map fun _ => Opening.scalar).within h
    else if b = 0x5B then .ok ⟨.opens .list, t, h⟩
    else if b = 0x7B then .ok ⟨.opens .object, t, h⟩
    else .error (.next .expectedValue (b :: t))

/-- Passes over a member's name and colon, blanks before them included. -/
def passName : Reader Unit := fun s =>
  match front s with
  | .nothing => .error (.next .endInObject [])
  | .octet b t h =>
    if b = 0x22 then
      match passString t with
      | .error e => .error e
      | .ok ⟨_, u, hu⟩ =>
        match takeColon u with
        | .error e => .error e
        | .ok ⟨v, hv⟩ => .ok ⟨(), v, shorter_trans hv (shorter_trans hu h)⟩
    else .error (.next .nameNotString (b :: t))

/-- Where the reading of a list or object stands. -/
inductive Stage
  /-- A value is to be passed over. -/
  | value
  /-- The innermost frame may end here; `item` says that a value has just been passed over. -/
  | frame (item : Bool)
  deriving DecidableEq, Repr

/-- What may follow inside a frame: its end, a comma when a value has just ended, or the
first item. -/
def passBetween (frame : Frame) (item : Bool) (s : Bytes) : Except Fault (Upcoming s) :=
  match front s with
  | .nothing =>
    .error (.next (match frame with | .list => .endInList | .object => .endInObject) [])
  | .octet b t h =>
    if item ∧ b = 0x2C then .ok (.more t (le_of_shorter h))
    else if frame = .list ∧ b = 0x5D ∨ frame = .object ∧ b = 0x7D then .ok (.done t h)
    else if item then
      .error (.next (match frame with
        | .list => .expectedListCommaOrEnd
        | .object => .expectedObjectCommaOrEnd) (b :: t))
    else .ok (.more (b :: t) h)

/-- Passes over the rest of a value from `t` on, with the given frames open. -/
def passFrames (s : Bytes) (frames : List Frame) (stage : Stage) (t : Bytes)
    (h : t.length ≤ s.length) (taken : stage = .value ∨ t.length < s.length) :
    Outcome s Unit :=
  match stage, frames, taken with
  | .value, frames, _ =>
    match passOpening t with
    | .error e => .error e
    | .ok ⟨.scalar, u, hu⟩ =>
      passFrames s frames (.frame true) u (le_of_shorter_of_le hu h) (.inr (shorter_of_le hu h))
    | .ok ⟨.opens frame, u, hu⟩ =>
      passFrames s (frame :: frames) (.frame false) u (le_of_shorter_of_le hu h)
        (.inr (shorter_of_le hu h))
  | .frame _, [], taken => .ok ⟨(), t, taken.resolve_left nofun⟩
  | .frame item, frame :: frames, _ =>
    match passBetween frame item t with
    | .error e => .error e
    | .ok (.done u hu) =>
      passFrames s frames (.frame true) u (le_of_shorter_of_le hu h) (.inr (shorter_of_le hu h))
    | .ok (.more u hu) =>
      match frame with
      | .list => passFrames s (.list :: frames) .value u (Nat.le_trans hu h) (.inl rfl)
      | .object =>
        match passName u with
        | .error e => .error e
        | .ok ⟨_, v, hv⟩ =>
          passFrames s (.object :: frames) .value v (le_of_item hv hu h) (.inl rfl)
termination_by 2 * t.length + (match stage with | .value => 0 | .frame _ => 1 : Nat)
decreasing_by
  · exact Nat.lt_of_lt_of_le (Nat.lt_succ_self _) (Nat.mul_le_mul_left 2 hu)
  · exact Nat.lt_of_lt_of_le (Nat.lt_succ_self _) (Nat.mul_le_mul_left 2 hu)
  · exact Nat.succ_lt_succ (Nat.mul_lt_mul_of_pos_left hu Nat.zero_lt_two)
  · exact Nat.lt_succ_of_le (Nat.mul_le_mul_left 2 hu)
  · exact Nat.lt_succ_of_le (Nat.mul_le_mul_left 2 (le_of_shorter (shorter_of_le hv hu)))

/-- Passes over one value, blanks before it included. -/
def passValue : Reader Unit := fun s => passFrames s [] .value s (length_le_self s) (.inl rfl)

/-- Whether a text is one document: its first fault otherwise. -/
def checkDocument (s : Bytes) : Except Fault Unit := readWhole passValue s

end ObserverRelay.Json
