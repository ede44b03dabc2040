import ObserverRelay.Number.Binary64
/-!
# JSON values

A value tree whose objects keep their members in order of first appearance. Assigning to a
name that is already there changes the member in place; removing one moves the last member
into the gap.
-/
namespace ObserverRelay.Json

/-- A number: an integer that fits in 64 bits, signed or unsigned, or a binary number. -/
inductive Number
  | integer (n : Int)
  | binary (x : Binary64)
  deriving DecidableEq, Repr

/-- A JSON value. -/
inductive Value
  | null
  | bool (b : Bool)
  | number (n : Number)
  | string (s : String)
  | array (items : List Value)
  | object (members : List (String × Value))

/-- The members of an object in order. -/
abbrev Members := List (String × Value)

namespace Value

mutual

/-- Whether two values are equal, decided along their nesting. -/
def decEq : (v w : Value) → Decidable (v = w)
  | .null, w =>
    match w with
    | .null => isTrue rfl
    | .bool _ | .number _ | .string _ | .array _ | .object _ => isFalse nofun
  | .bool b, w =>
    match w with
    | .bool c => decidable_of_iff (b = c) (by simp)
    | .null | .number _ | .string _ | .array _ | .object _ => isFalse nofun
  | .number n, w =>
    match w with
    | .number m => decidable_of_iff (n = m) (by simp)
    | .null | .bool _ | .string _ | .array _ | .object _ => isFalse nofun
  | .string s, w =>
    match w with
    | .string t => decidable_of_iff (s = t) (by simp)
    | .null | .bool _ | .number _ | .array _ | .object _ => isFalse nofun
  | .array vs, w =>
    match w with
    | .array ws =>
      haveI := decEqItems vs ws
      decidable_of_iff (vs = ws) (by simp)
    | .null | .bool _ | .number _ | .string _ | .object _ => isFalse nofun
  | .object ms, w =>
    match w with
    | .object ns =>
      haveI := decEqMembers ms ns
      decidable_of_iff (ms = ns) (by simp)
    | .null | .bool _ | .number _ | .string _ | .array _ => isFalse nofun

/-- The same for the items of lists. -/
def decEqItems : (vs ws : List Value) → Decidable (vs = ws)
  | [], [] => isTrue rfl
  | [], _ :: _ | _ :: _, [] => isFalse nofun
  | v :: vs, w :: ws =>
    haveI := decEq v w
    haveI := decEqItems vs ws
    decidable_of_iff (v = w ∧ vs = ws) (by simp)

/-- The same for the members of objects. -/
def decEqMembers : (ms ns : Members) → Decidable (ms = ns)
  | [], [] => isTrue rfl
  | [], _ :: _ | _ :: _, [] => isFalse nofun
  | (k, v) :: ms, (l, w) :: ns =>
    haveI := decEq v w
    haveI := decEqMembers ms ns
    decidable_of_iff ((k = l ∧ v = w) ∧ ms = ns) (by simp)

end

instance : DecidableEq Value := decEq

end Value

namespace Members

/-- The value of the member with the given name. -/
def get? (name : String) : Members → Option Value
  | [] => none
  | (k, v) :: rest => if k = name then some v else get? name rest

/-- The names in order. -/
def names (ms : Members) : List String := ms.map Prod.fst

/-- The members with one assigned: in place if its name is there, else at the end. -/
def assign (name : String) (value : Value) : Members → Members
  | [] => [(name, value)]
  | (k, v) :: rest => if k = name then (k, value) :: rest else (k, v) :: assign name value rest

/-- The members after assigning a list of them one after the other. -/
def assignAll (ms : Members) (more : Members) : Members :=
  more.foldl (fun acc m => assign m.1 m.2 acc) ms

/-- The members with the last one moved into the place of the named one. -/
def remove (name : String) (ms : Members) : Members :=
  match ms.findIdx? (fun m => m.1 = name) with
  | none => ms
  | some i =>
    match ms.getLast? with
    | none => ms
    | some last => (ms.set i last).dropLast

@[simp] theorem get?_assign_self (name : String) (v : Value) (ms : Members) :
    get? name (assign name v ms) = some v := by
  induction ms with
  | nil => simp [assign, get?]
  | cons m ms ih =>
    obtain ⟨k, w⟩ := m
    by_cases h : k = name <;> simp [assign, get?, h, ih]

theorem get?_assign_of_ne {name other : String} (h : other ≠ name) (v : Value) (ms : Members) :
    get? other (assign name v ms) = get? other ms := by
  induction ms with
  | nil => simp [assign, get?, Ne.symm h]
  | cons m ms ih =>
    obtain ⟨k, w⟩ := m
    by_cases hk : k = name
    · simp [assign, get?, hk, Ne.symm h]
    · by_cases ho : k = other
      · subst ho; simp [assign, get?, hk]
      · simp [assign, get?, hk, ho, ih]

/-- Assigning to a name that is there keeps the names; else it adds one at the end. -/
theorem names_assign (name : String) (v : Value) (ms : Members) :
    names (assign name v ms) = if name ∈ names ms then names ms else names ms ++ [name] := by
  induction ms with
  | nil => simp [assign, names]
  | cons m ms ih =>
    obtain ⟨k, w⟩ := m
    by_cases hk : k = name
    · subst hk; simp [assign, names]
    · have hk' : ¬ name = k := fun h => hk h.symm
      simp only [names] at ih
      simp only [assign, hk, if_false, names, List.map_cons, ih, List.mem_cons, hk', false_or]
      by_cases hm : name ∈ List.map Prod.fst ms <;> simp [hm]

theorem remove_of_not_mem {name : String} {ms : Members} (h : name ∉ names ms) :
    remove name ms = ms := by
  have : ms.findIdx? (fun m => m.1 = name) = none := by
    rw [List.findIdx?_eq_none_iff]
    intro m hm
    simp only [decide_eq_false_iff_not]
    intro e
    exact h (e ▸ List.mem_map_of_mem hm)
  simp [remove, this]

end Members

namespace Value

/-- The member of an object with the given name. -/
def get? (name : String) : Value → Option Value
  | object ms => Members.get? name ms
  | _ => none

/-- An integer as a value. -/
def ofInt (n : Int) : Value := number (.integer n)

/-- A natural number as a value. -/
def ofNat (n : Nat) : Value := ofInt n

/-- A list of texts as a value. -/
def ofTexts (ss : List String) : Value := array (ss.map string)

end Value

end ObserverRelay.Json
