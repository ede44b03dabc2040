import ObserverRelay.Json.Token
/-!
# Lists and objects in a text

The loops over items and members, for any reader of an item or a member's value. The
brackets and commas are judged here, and the loops are left when the closing bracket has
been taken. Depth is counted down: a list or object is entered only while it is not zero.
-/
namespace ObserverRelay.Json

/-- What stands next in a list or object: its end, or something more. -/
inductive Upcoming (s : Bytes)
  | done (rest : Bytes) (shorter : rest.length < s.length)
  | more (rest : Bytes) (noLonger : rest.length ≤ s.length)

namespace Upcoming
variable {s t : Bytes}

/-- What stands next in a shorter part stands next in the whole. -/
def within (next : Upcoming t) (h : t.length < s.length) : Upcoming s :=
  match next with
  | done rest h' => done rest (shorter_trans h' h)
  | more rest h' => more rest (le_of_le_of_shorter h' h)

end Upcoming

/-- Looks for the next item of a list. The comma before it is taken. -/
def nextItem (first : Bool) (s : Bytes) : Except Fault (Upcoming s) :=
  match front s with
  | .nothing => .error (.next .endInList [])
  | .octet b t h =>
    if b = 0x5D then .ok (.done t h)
    else if first then .ok (.more (b :: t) h)
    else if b = 0x2C then
      match front t with
      | .nothing => .error (.next .endInValue [])
      | .octet c u h' =>
        if c = 0x5D then .error (.next .trailingComma (c :: u))
        else .ok ((Upcoming.more (c :: u) h').within h)
    else .error (.next .expectedListCommaOrEnd (b :: t))

/-- Looks for the next name of an object. The comma before it and its opening quote are
taken. -/
def nextName (first : Bool) (s : Bytes) : Except Fault (Upcoming s) :=
  match front s with
  | .nothing => .error (.next .endInObject [])
  | .octet b t h =>
    if b = 0x7D then .ok (.done t h)
    else if first then
      if b = 0x22 then .ok (.more t (le_of_shorter h)) else .error (.next .nameNotString (b :: t))
    else if b = 0x2C then
      match front t with
      | .nothing => .error (.next .endInValue [])
      | .octet c u h' =>
        if c = 0x22 then .ok ((Upcoming.more u (le_of_shorter h')).within h)
        else if c = 0x7D then .error (.next .trailingComma (c :: u))
        else .error (.next .nameNotString (c :: u))
    else .error (.next .expectedObjectCommaOrEnd (b :: t))

/-- Takes the colon behind a member's name. -/
def takeColon (s : Bytes) : Except Fault {t : Bytes // t.length < s.length} :=
  match front s with
  | .nothing => .error (.next .endInObject [])
  | .octet b t h => if b = 0x3A then .ok ⟨t, h⟩ else .error (.next .expectedColon (b :: t))

/-- The end of a list that was left early: a closing bracket is taken if it is there, a comma
and the blanks behind it are passed. -/
def leaveList (s : Bytes) : Bytes :=
  match skipSpace s with
  | 0x5D :: t => t
  | 0x2C :: t => skipSpace t
  | t => t

/-- The end of an object that was left early: a closing brace is taken if it is there. -/
def leaveObject (s : Bytes) : Bytes :=
  match skipSpace s with
  | 0x7D :: t => t
  | t => t

/-- Takes the closing bracket of a list of which no more items are wanted. -/
def closeList (s : Bytes) : Outcome s Unit :=
  match front s with
  | .nothing => .error (.next .endInList [])
  | .octet b t h =>
    if b = 0x5D then .ok ⟨(), t, h⟩
    else if b = 0x2C then
      match skipSpace t with
      | 0x5D :: u => .error (.next .trailingComma (0x5D :: u))
      | u => .error (.next .trailingCharacters u)
    else .error (.next .trailingCharacters (b :: t))

section Loops
variable {σ : Type}

theorem le_of_item {s t u v : Bytes} (hv : v.length < u.length) (hu : u.length ≤ t.length)
    (ht : t.length ≤ s.length) : v.length ≤ s.length :=
  le_of_shorter_of_le hv (Nat.le_trans hu ht)

theorem shorter_of_member {t u v w x : Bytes} (hx : x.length < w.length)
    (hw : w.length < v.length) (hv : v.length < u.length) (hu : u.length ≤ t.length) :
    x.length < t.length := shorter_trans hx (shorter_trans hw (shorter_of_le hv hu))

theorem le_of_member {s t u v w x : Bytes} (hx : x.length < w.length)
    (hw : w.length < v.length) (hv : v.length < u.length) (hu : u.length ≤ t.length)
    (ht : t.length ≤ s.length) : x.length ≤ s.length :=
  le_of_shorter_of_le (shorter_of_member hx hw hv hu) ht

/-- Reads the items of a list from `t` on into a state. `step` reads one item, given its
index and the state so far. -/
def itemLoop (step : Nat → σ → Reader σ) (s : Bytes) (index : Nat) (state : σ) (t : Bytes)
    (h : t.length ≤ s.length) : Outcome s σ :=
  match nextItem (index == 0) t with
  | .error e => .error e
  | .ok (.done rest shorter) => .ok ⟨state, rest, shorter_of_le shorter h⟩
  | .ok (.more u hu) =>
    match step index state u with
    | .error e => .error (e.within (.item index))
    | .ok ⟨state, v, hv⟩ => itemLoop step s (index + 1) state v (le_of_item hv hu h)
termination_by t.length
decreasing_by exact shorter_of_le hv hu

/-- Reads the items of a list whose opening bracket has been taken. -/
def readItems (step : Nat → σ → Reader σ) (start : σ) : Reader σ := fun s =>
  itemLoop step s 0 start s (length_le_self s)

/-- Reads the members of an object from `t` on into a state. `check` judges a name before
its value is read by `step`. -/
def memberLoop (check : String → σ → Option Cause) (step : String → σ → Reader σ) (s : Bytes)
    (first : Bool) (state : σ) (t : Bytes) (h : t.length ≤ s.length) : Outcome s σ :=
  match nextName first t with
  | .error e => .error e
  | .ok (.done rest shorter) => .ok ⟨state, rest, shorter_of_le shorter h⟩
  | .ok (.more u hu) =>
    match readString u with
    | .error e => .error e
    | .ok ⟨name, v, hv⟩ =>
      match check name state with
      | some cause => .error (.floating cause v)
      | none =>
        match takeColon v with
        | .error e => .error e
        | .ok ⟨w, hw⟩ =>
          match step name state w with
          | .error e => .error (e.within (.member name))
          | .ok ⟨state, x, hx⟩ =>
            memberLoop check step s false state x (le_of_member hx hw hv hu h)
termination_by t.length
decreasing_by exact shorter_of_member hx hw hv hu

/-- Reads the members of an object whose opening brace has been taken. -/
def readMembers (check : String → σ → Option Cause) (step : String → σ → Reader σ)
    (start : σ) : Reader σ := fun s =>
  memberLoop check step s true start s (length_le_self s)

end Loops

end ObserverRelay.Json
