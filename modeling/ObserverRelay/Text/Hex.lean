import ObserverRelay.Text.Bytes
/-!
# Hexadecimal digits

Octets written as pairs of lower-case digits, and texts read back in either case. An odd
number of digits is reported before a bad one.
-/
namespace ObserverRelay.Hex

/-- The lower-case digit of a number below sixteen. -/
def digitChar (n : Nat) : Char :=
  if n < 10 then Char.ofNat ('0'.toNat + n) else Char.ofNat ('a'.toNat + (n - 10))

/-- The value of a digit, given as the octet that spells it. -/
def digit? (b : UInt8) : Option Nat :=
  if 0x30 ≤ b ∧ b ≤ 0x39 then some (b.toNat - 0x30)
  else if 0x61 ≤ b ∧ b ≤ 0x66 then some (b.toNat - 0x61 + 10)
  else if 0x41 ≤ b ∧ b ≤ 0x46 then some (b.toNat - 0x41 + 10)
  else none

/-- The two digits of an octet, the high one first. -/
def pair (b : UInt8) : List Char := [digitChar (b.toNat / 16), digitChar (b.toNat % 16)]

/-- The digits of a list of octets. -/
def encodeChars (bs : Bytes) : List Char := bs.flatMap pair

/-- The octets written in lower-case digits, two for each. -/
def encode (bs : Bytes) : String := String.ofList (encodeChars bs)

@[simp] theorem encodeChars_nil : encodeChars [] = [] := rfl

@[simp] theorem encodeChars_cons (b : UInt8) (bs : Bytes) :
    encodeChars (b :: bs) = pair b ++ encodeChars bs := rfl

@[simp] theorem encodeChars_append (bs cs : Bytes) :
    encodeChars (bs ++ cs) = encodeChars bs ++ encodeChars cs := by
  simp [encodeChars]

@[simp] theorem length_encodeChars (bs : Bytes) : (encodeChars bs).length = 2 * bs.length := by
  induction bs with
  | nil => rfl
  | cons b rest ih => simp only [encodeChars_cons, pair, List.length_append, ih,
      List.length_cons, List.length_nil]; omega

/-- Digits are spelt by one octet each, and that octet has the digit's value. -/
theorem digit?_digitChar {n : Nat} (h : n < 16) :
    String.utf8EncodeChar (digitChar n) = [(digitChar n).toUInt8] ∧
      digit? (digitChar n).toUInt8 = some n := by
  revert n
  decide +kernel

theorem ofText_encode (bs : Bytes) :
    Bytes.ofText (encode bs) = (encodeChars bs).map Char.toUInt8 := by
  rw [encode, Bytes.ofText_ofList]
  induction bs with
  | nil => rfl
  | cons b rest ih =>
    have hb := b.toNat_lt
    rw [encodeChars_cons, List.flatMap_append, List.map_append, ih]
    simp [pair, (digit?_digitChar (n := b.toNat / 16) (by omega)).1,
      (digit?_digitChar (n := b.toNat % 16) (by omega)).1]

/-- Why a text is no list of octets in digits. -/
inductive Refusal
  | oddLength
  | badDigit (octet : UInt8) (index : Nat)
  deriving DecidableEq, Repr

/-- The octets that pairs of digits spell; `index` is the place of the first of them. -/
def decodePairs (index : Nat) : Bytes → Except Refusal Bytes
  | hi :: lo :: rest =>
    match digit? hi, digit? lo with
    | none, _ => .error (.badDigit hi index)
    | some _, none => .error (.badDigit lo (index + 1))
    | some h, some l => (decodePairs (index + 2) rest).map (UInt8.ofNat (h * 16 + l) :: ·)
  | [_] => .error .oddLength
  | [] => .ok []

/-- The octets that a text spells in digits of either case. -/
def decode (s : String) : Except Refusal Bytes :=
  let digits := Bytes.ofText s
  if digits.length % 2 = 1 then .error .oddLength else decodePairs 0 digits

theorem decodePairs_encodeChars (bs : Bytes) (index : Nat) :
    decodePairs index ((encodeChars bs).map Char.toUInt8) = .ok bs := by
  induction bs generalizing index with
  | nil => rfl
  | cons b rest ih =>
    have hb := b.toNat_lt
    have hi := (digit?_digitChar (n := b.toNat / 16) (by omega)).2
    have lo := (digit?_digitChar (n := b.toNat % 16) (by omega)).2
    have hs : b.toNat / 16 * 16 + b.toNat % 16 = b.toNat := by omega
    simp [pair, decodePairs, hi, lo, ih, hs, Except.map]

/-- Octets that are written in digits are read back. -/
@[simp] theorem decode_encode (bs : Bytes) : decode (encode bs) = .ok bs := by
  simp [decode, ofText_encode, decodePairs_encodeChars]

end ObserverRelay.Hex
