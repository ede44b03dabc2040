import ObserverRelay.Json.Fault
import ObserverRelay.Text.Hex
/-!
# The tokens of JSON

Readers that take one token off the front of a text. A reader's answer says what is left
and that this is shorter than what was given, so a loop over tokens ends.
-/
namespace ObserverRelay.Json

/-- What a reader took off the front of `s`. -/
structure Taken (s : Bytes) (α : Type) where
  value : α
  rest : Bytes
  shorter : rest.length < s.length

/-- The outcome of reading off the front of `s`. -/
abbrev Outcome (s : Bytes) (α : Type) := Except Fault (Taken s α)

/-- A reader takes a value off the front of any text. -/
abbrev Reader (α : Type) := (s : Bytes) → Outcome s α

section Lengths
variable {s t u : Bytes}

theorem length_le_self (s : Bytes) : s.length ≤ s.length := Nat.le_refl _

theorem length_nil_le (s : Bytes) : ([] : Bytes).length ≤ s.length := Nat.zero_le _

theorem le_of_shorter (h : t.length < s.length) : t.length ≤ s.length := Nat.le_of_lt h

theorem shorter_cons {b : UInt8} (h : t.length ≤ s.length) : t.length < (b :: s).length :=
  Nat.lt_succ_of_le h

theorem le_cons {b : UInt8} (h : t.length ≤ s.length) : t.length ≤ (b :: s).length :=
  Nat.le_succ_of_le h

theorem shorter_tail (b : UInt8) (s : Bytes) : s.length < (b :: s).length := Nat.lt_succ_self _

theorem shorter_of_cons {b : UInt8} (h : (b :: t).length < s.length) : t.length < s.length :=
  Nat.lt_of_succ_lt h

theorem shorter_of_le (h : u.length < t.length) (h' : t.length ≤ s.length) :
    u.length < s.length := Nat.lt_of_lt_of_le h h'

theorem shorter_trans (h : u.length < t.length) (h' : t.length < s.length) :
    u.length < s.length := Nat.lt_trans h h'

theorem le_of_shorter_of_le (h : u.length < t.length) (h' : t.length ≤ s.length) :
    u.length ≤ s.length := le_of_shorter (shorter_of_le h h')

theorem le_of_shorter_of_shorter (h : u.length < t.length) (h' : t.length < s.length) :
    u.length ≤ s.length := le_of_shorter (shorter_trans h h')

theorem le_of_le_of_shorter (h : u.length ≤ t.length) (h' : t.length < s.length) :
    u.length ≤ s.length := Nat.le_trans h (le_of_shorter h')

end Lengths

namespace Taken
variable {s t : Bytes} {α β : Type}

/-- The first octet taken, with a value for it. -/
def first (value : α) (b : UInt8) (rest : Bytes) : Taken (b :: rest) α :=
  ⟨value, rest, shorter_tail b rest⟩

/-- What was taken off the front of a later part was taken off the whole. -/
def weaken (r : Taken t α) (h : t.length ≤ s.length) : Taken s α :=
  ⟨r.value, r.rest, Nat.lt_of_lt_of_le r.shorter h⟩

/-- What was taken off the front of a shorter part was taken off the whole. -/
def within (r : Taken t α) (h : t.length < s.length) : Taken s α := r.weaken (le_of_shorter h)

/-- What was taken behind an octet was taken together with it. -/
def behind (r : Taken t α) (b : UInt8) : Taken (b :: t) α :=
  r.within (shorter_tail b t)

/-- The taken value changed. -/
def map (f : α → β) (r : Taken s α) : Taken s β := ⟨f r.value, r.rest, r.shorter⟩

@[simp] theorem value_weaken (h : t.length ≤ s.length) (r : Taken t α) :
    (r.weaken h).value = r.value := rfl

@[simp] theorem rest_weaken (h : t.length ≤ s.length) (r : Taken t α) :
    (r.weaken h).rest = r.rest := rfl

@[simp] theorem value_within (h : t.length < s.length) (r : Taken t α) :
    (r.within h).value = r.value := rfl

@[simp] theorem rest_within (h : t.length < s.length) (r : Taken t α) :
    (r.within h).rest = r.rest := rfl

@[simp] theorem value_behind (b : UInt8) (r : Taken t α) : (r.behind b).value = r.value := rfl

@[simp] theorem rest_behind (b : UInt8) (r : Taken t α) : (r.behind b).rest = r.rest := rfl

@[simp] theorem value_map (f : α → β) (r : Taken s α) : (r.map f).value = f r.value := rfl

@[simp] theorem rest_map (f : α → β) (r : Taken s α) : (r.map f).rest = r.rest := rfl

end Taken

namespace Outcome
variable {s t : Bytes} {α β : Type}

/-- The outcome at a later part of the text, seen from the whole. -/
def weaken (r : Outcome t α) (h : t.length ≤ s.length) : Outcome s α :=
  match r with
  | .ok r => .ok (r.weaken h)
  | .error e => .error e

/-- The outcome at a shorter part of the text, seen from the whole. -/
def within (r : Outcome t α) (h : t.length < s.length) : Outcome s α := r.weaken (le_of_shorter h)

/-- The outcome behind an octet, seen from before it. -/
def behind (r : Outcome t α) (b : UInt8) : Outcome (b :: t) α :=
  r.within (shorter_tail b t)

/-- The outcome with the taken value changed. -/
def map (f : α → β) : Outcome s α → Outcome s β
  | .ok r => .ok (r.map f)
  | .error e => .error e

end Outcome

/-- White space between tokens: space, tab, line feed, carriage return. -/
def isSpace (b : UInt8) : Bool := b == 0x20 || b == 0x09 || b == 0x0A || b == 0x0D

/-- The text from its first token on. -/
def skipSpace (s : Bytes) : Bytes := s.dropWhile isSpace

theorem length_skipSpace_le (s : Bytes) : (skipSpace s).length ≤ s.length :=
  (List.dropWhile_suffix isSpace).length_le

/-- What a text holds from its first token on: nothing, or an octet and what follows it. -/
inductive Front (s : Bytes)
  | nothing
  | octet (b : UInt8) (rest : Bytes) (shorter : rest.length < s.length)

theorem shorter_of_skipSpace {s rest : Bytes} {b : UInt8} (h : skipSpace s = b :: rest) :
    rest.length < s.length := by
  have := length_skipSpace_le s
  rw [h] at this
  exact this

/-- The front of a text, white space passed over. -/
def front (s : Bytes) : Front s :=
  match h : skipSpace s with
  | [] => .nothing
  | b :: rest => .octet b rest (shorter_of_skipSpace h)

theorem front_eq_octet_iff {s rest : Bytes} {b : UInt8} {h : rest.length < s.length} :
    front s = .octet b rest h ↔ skipSpace s = b :: rest := by
  unfold front
  split
  next h => simp [h]
  next h => simp [h]

/-- An ASCII digit. -/
def isDigit (b : UInt8) : Bool := 0x30 ≤ b && b ≤ 0x39

/-- The value of an octet that is a digit. -/
def digitValue (b : UInt8) : Nat := b.toNat - 0x30

/-- The text behind its leading digits. -/
def skipDigits (s : Bytes) : Bytes := s.dropWhile isDigit

theorem length_skipDigits_le (s : Bytes) : (skipDigits s).length ≤ s.length :=
  (List.dropWhile_suffix isDigit).length_le

theorem skipDigits_shorter_cons (b : UInt8) (t : Bytes) :
    (skipDigits t).length < (b :: t).length := shorter_cons (length_skipDigits_le t)

theorem skipDigits_shorter {s t : Bytes} (h : t.length < s.length) :
    (skipDigits t).length < s.length := Nat.lt_of_le_of_lt (length_skipDigits_le t) h

/-- The rest of a word whose first letter has been seen. The text left when it does not
follow is behind the first octet that differs. -/
def expectWord : (word : Bytes) → (s : Bytes) →
    Except Fault {t : Bytes // t.length ≤ s.length}
  | [], s => .ok ⟨s, length_le_self s⟩
  | _ :: _, [] => .error (.here .endInValue [])
  | w :: word, b :: s =>
    if w = b then
      match expectWord word s with
      | .ok ⟨t, h⟩ => .ok ⟨t, le_cons h⟩
      | .error e => .error e
    else .error (.here .expectedWord s)

/-- The letters that follow `n`, `t` and `f` in the three words. -/
def wordNull : Bytes := [0x75, 0x6C, 0x6C]

/-- The letters that follow the first one of `true`. -/
def wordTrue : Bytes := [0x72, 0x75, 0x65]

/-- The letters that follow the first one of `false`. -/
def wordFalse : Bytes := [0x61, 0x6C, 0x73, 0x65]

/-- The number of the four hexadecimal digits behind `\u`. -/
def readHex4 : Reader Nat
  | a :: b :: c :: d :: rest =>
    match Hex.digit? a, Hex.digit? b, Hex.digit? c, Hex.digit? d with
    | some va, some vb, some vc, some vd =>
      .ok ((((Taken.first (((va * 16 + vb) * 16 + vc) * 16 + vd) d rest).behind c).behind b).behind a)
    | _, _, _, _ => .error (.here .badEscape rest)
  | _ => .error (.here .endInString [])

/-- The octets of a code point that is no surrogate. -/
def codePoint (n : Nat) : Bytes := String.utf8EncodeChar (Char.ofNat n)

/-- A letter that stands for one octet when it follows a backslash. -/
def shortEscape? (b : UInt8) : Option UInt8 :=
  if b = 0x22 then some 0x22
  else if b = 0x5C then some 0x5C
  else if b = 0x2F then some 0x2F
  else if b = 0x62 then some 0x08
  else if b = 0x66 then some 0x0C
  else if b = 0x6E then some 0x0A
  else if b = 0x72 then some 0x0D
  else if b = 0x74 then some 0x09
  else none

/-- The second half of a code point whose first half was the surrogate `high`. -/
def readLowSurrogate (high : Nat) : Reader Bytes
  | [] => .error (.here .endInString [])
  | a :: rest =>
    if a ≠ 0x5C then .error (.here .unfinishedSurrogate rest)
    else
      match rest with
      | [] => .error (.here .endInString [])
      | b :: rest =>
        if b ≠ 0x75 then .error (.here .unfinishedSurrogate rest)
        else
          match readHex4 rest with
          | .error e => .error e
          | .ok r =>
            if r.value < 0xDC00 ∨ 0xDFFF < r.value then .error (.here .loneSurrogate r.rest)
            else
              .ok (((r.map fun low =>
                codePoint ((high - 0xD800) * 0x400 + (low - 0xDC00) + 0x10000)).behind b).behind a)

/-- The octets that an escape stands for; the backslash has been taken. -/
def readEscape : Reader Bytes
  | [] => .error (.here .endInString [])
  | b :: rest =>
    match shortEscape? b with
    | some c => .ok (.first [c] b rest)
    | none =>
      if b ≠ 0x75 then .error (.here .badEscape rest)
      else
        match readHex4 rest with
        | .error e => .error e
        | .ok r =>
          if 0xDC00 ≤ r.value ∧ r.value ≤ 0xDFFF then .error (.here .loneSurrogate r.rest)
          else if 0xD800 ≤ r.value ∧ r.value ≤ 0xDBFF then
            match readLowSurrogate r.value r.rest with
            | .error e => .error e
            | .ok q => .ok ((q.within r.shorter).behind b)
          else .ok ((r.map codePoint).behind b)

/-- The octets of a string up to its closing quote, escapes resolved. `done` holds those
already read, the last one first. -/
def scanString (s : Bytes) (done : Bytes) (t : Bytes) (h : t.length ≤ s.length) :
    Outcome s Bytes :=
  match t, h with
  | [], _ => .error (.here .endInString [])
  | b :: rest, h =>
    if b = 0x22 then .ok ⟨done.reverse, rest, h⟩
    else if b = 0x5C then
      match readEscape rest with
      | .error e => .error e
      | .ok ⟨bs, u, hu⟩ =>
        scanString s (bs.reverse ++ done) u (le_of_shorter_of_shorter hu h)
    else if b < 0x20 then .error (.here .controlCharacter rest)
    else scanString s (b :: done) rest (le_of_shorter h)
termination_by t.length
decreasing_by
  · exact shorter_cons (le_of_shorter hu)
  · exact shorter_tail b rest

/-- The text of a string whose opening quote has been taken. A string that is not UTF-8 is
refused behind its first octet that spells nothing. -/
def readString : Reader String := fun s =>
  match scanString s [] s (length_le_self s) with
  | .error e => .error e
  | .ok r =>
    match Bytes.text? r.value with
    | some text => .ok ⟨text, r.rest, r.shorter⟩
    | none => .error (.here .badCodePoint (s.drop (Bytes.wellFormedLength s + 1)))

/-- An escape passed over: its form is judged, what it stands for is not. -/
def passEscape : Reader Unit
  | [] => .error (.here .endInString [])
  | b :: rest =>
    match shortEscape? b with
    | some _ => .ok (.first () b rest)
    | none =>
      if b ≠ 0x75 then .error (.here .badEscape rest)
      else
        match readHex4 rest with
        | .error e => .error e
        | .ok r => .ok ((r.map fun _ => ()).behind b)

/-- The rest of a string passed over from `t` on. -/
def scanPastString (s : Bytes) (t : Bytes) (h : t.length ≤ s.length) : Outcome s Unit :=
  match t, h with
  | [], _ => .error (.here .endInString [])
  | b :: rest, h =>
    if b = 0x22 then .ok ⟨(), rest, h⟩
    else if b = 0x5C then
      match passEscape rest with
      | .error e => .error e
      | .ok ⟨_, u, hu⟩ => scanPastString s u (le_of_shorter_of_shorter hu h)
    else if b < 0x20 then .error (.here .controlCharacter (b :: rest))
    else scanPastString s rest (le_of_shorter h)
termination_by t.length
decreasing_by
  · exact shorter_cons (le_of_shorter hu)
  · exact shorter_tail b rest

/-- A string passed over, from behind its opening quote. -/
def passString : Reader Unit := fun s => scanPastString s s (length_le_self s)

end ObserverRelay.Json
