/-!
# Octets and the text they spell

A body, a file or a percent-decoded piece is a list of octets; only some lists spell a
text. `Bytes.ofText` writes a text in UTF-8, `Bytes.text?` reads it back and refuses
everything else, and `Bytes.lossyText` reads any list by putting U+FFFD in the place of
each stretch that spells nothing.
-/
namespace ObserverRelay

/-- A sequence of octets, as it travels in a message or lies in a file. -/
abbrev Bytes := List UInt8

namespace Bytes

/-- The UTF-8 octets of a text. -/
def ofText (s : String) : Bytes := s.toByteArray.data.toList

/-- The text that the octets spell, if they are well-formed UTF-8. -/
def text? (bs : Bytes) : Option String := String.fromUTF8? ⟨bs.toArray⟩

@[simp] theorem text?_ofText (s : String) : text? (ofText s) = some s := by
  have h : (⟨s.toByteArray.data.toList.toArray⟩ : ByteArray) = s.toByteArray := by simp
  simp only [text?, ofText, String.fromUTF8?, h]
  rw [dif_pos s.isValidUTF8]
  rfl

theorem ofText_of_text? {bs : Bytes} {s : String} (h : text? bs = some s) : ofText s = bs := by
  simp only [text?, String.fromUTF8?] at h
  split at h
  · cases h; simp [ofText, String.fromUTF8]
  · cases h

theorem ofText_injective {s t : String} (h : ofText s = ofText t) : s = t := by
  simpa using congrArg text? h

theorem ofText_append (s t : String) : ofText (s ++ t) = ofText s ++ ofText t := by
  simp [ofText]

/-- The octets of a text are those of its characters, one after the other. -/
theorem ofText_ofList (cs : List Char) :
    ofText (String.ofList cs) = cs.flatMap String.utf8EncodeChar := by
  simp [ofText, List.utf8Encode, String.toByteArray_ofList]

/-- A character that has begun: how many octets it still needs, the range of the next one,
and the bits collected so far. -/
structure Partial where
  missing : Nat
  low : UInt8
  high : UInt8
  bits : Nat

/-- What an octet begins: a character of its own, a longer one, or nothing. -/
inductive Beginning
  | whole (c : Char)
  | longer (p : Partial)
  | nothing

/-- The character that an octet begins. The second octet is held to the range that rules
out overlong forms, surrogates and code points past U+10FFFF. -/
def begins (a : UInt8) : Beginning :=
  let part (missing : Nat) (low high : UInt8) (lead : Nat) : Beginning :=
    .longer ⟨missing, low, high, a.toNat - lead⟩
  if a < 0x80 then .whole (Char.ofNat a.toNat)
  else if a < 0xC2 then .nothing
  else if a < 0xE0 then part 1 0x80 0xBF 0xC0
  else if a == 0xE0 then part 2 0xA0 0xBF 0xE0
  else if a == 0xED then part 2 0x80 0x9F 0xE0
  else if a < 0xF0 then part 2 0x80 0xBF 0xE0
  else if a == 0xF0 then part 3 0x90 0xBF 0xF0
  else if a < 0xF4 then part 3 0x80 0xBF 0xF0
  else if a == 0xF4 then part 3 0x80 0x8F 0xF0
  else .nothing

/-- The character that stands for a stretch of octets which spells nothing. -/
def replacement : Char := '\uFFFD'

/-- The characters of a list of octets, each ill-formed stretch replaced by one U+FFFD. A
stretch is as long as it could still have become a character. -/
def repairedChars : Option Partial → Bytes → List Char
  | none, [] => []
  | some _, [] => [replacement]
  | none, a :: rest =>
    match begins a with
    | .whole c => c :: repairedChars none rest
    | .longer p => repairedChars (some p) rest
    | .nothing => replacement :: repairedChars none rest
  | some p, a :: rest =>
    if p.low ≤ a ∧ a ≤ p.high then
      let bits := p.bits * 64 + (a.toNat - 0x80)
      if p.missing ≤ 1 then Char.ofNat bits :: repairedChars none rest
      else repairedChars (some ⟨p.missing - 1, 0x80, 0xBF, bits⟩) rest
    else
      match begins a with
      | .whole c => replacement :: c :: repairedChars none rest
      | .longer q => replacement :: repairedChars (some q) rest
      | .nothing => replacement :: replacement :: repairedChars none rest

/-- How many octets are well formed from the front on. `start` is where the character that has
begun stands, `here` the place reached. -/
def wellFormedFrom (start here : Nat) : Option Partial → Bytes → Nat
  | none, [] => here
  | some _, [] => start
  | none, a :: rest =>
    match begins a with
    | .whole _ => wellFormedFrom here (here + 1) none rest
    | .longer p => wellFormedFrom here (here + 1) (some p) rest
    | .nothing => here
  | some p, a :: rest =>
    if p.low ≤ a ∧ a ≤ p.high then
      if p.missing ≤ 1 then wellFormedFrom start (here + 1) none rest
      else wellFormedFrom start (here + 1) (some ⟨p.missing - 1, 0x80, 0xBF, p.bits⟩) rest
    else start

/-- The number of octets before the first stretch that spells nothing. -/
def wellFormedLength (bs : Bytes) : Nat := wellFormedFrom 0 0 none bs

/-- The text of any list of octets: itself if well formed, else with every ill-formed
stretch replaced. -/
def lossyText (bs : Bytes) : String :=
  (text? bs).getD (String.ofList (repairedChars none bs))

@[simp] theorem lossyText_ofText (s : String) : lossyText (ofText s) = s := by
  simp [lossyText]

end Bytes

end ObserverRelay
