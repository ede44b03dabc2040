/-!
# Decimal numerals

Texts that name a natural number below a bound: an optional plus sign and one or more
ASCII digits. The characters are judged from left to right, so of a bad digit and a number
that grows too large the earlier one is reported.
-/
namespace ObserverRelay.Numeral

/-- Why a text names no number of the asked range. -/
inductive Refusal
  | empty
  | badDigit
  | tooLarge
  | tooSmall
  deriving DecidableEq, Repr

/-- The wording of a refusal. -/
def Refusal.message : Refusal → String
  | .empty => "cannot parse integer from empty string"
  | .badDigit => "invalid digit found in string"
  | .tooLarge => "number too large to fit in target type"
  | .tooSmall => "number too small to fit in target type"

/-- The value of an ASCII digit. -/
def digit? (c : Char) : Option Nat :=
  if '0' ≤ c ∧ c ≤ '9' then some (c.toNat - '0'.toNat) else none

/-- The number that digits below `bound` continue from `acc`. -/
def readDigits (bound : Nat) (acc : Nat) : List Char → Except Refusal Nat
  | [] => .ok acc
  | c :: cs =>
    match digit? c with
    | none => .error .badDigit
    | some d => if acc * 10 + d < bound then readDigits bound (acc * 10 + d) cs else .error .tooLarge

/-- One or more digits that name a number below `bound`. -/
def readUnsigned (bound : Nat) : List Char → Except Refusal Nat
  | [] => .error .badDigit
  | cs => readDigits bound 0 cs

/-- The number below `bound` that a text names. -/
def read (bound : Nat) (s : String) : Except Refusal Nat :=
  match s.toList with
  | [] => .error .empty
  | '+' :: cs => readUnsigned bound cs
  | cs => readUnsigned bound cs

theorem readDigits_append (bound acc : Nat) (cs ds : List Char) :
    readDigits bound acc (cs ++ ds) = (readDigits bound acc cs).bind (readDigits bound · ds) := by
  induction cs generalizing acc with
  | nil => rfl
  | cons c cs ih =>
    simp only [List.cons_append, readDigits]
    split
    · rfl
    · split
      · exact ih _
      · rfl

theorem digit?_digitChar {d : Nat} (h : d < 10) : digit? (Nat.digitChar d) = some d := by
  revert d
  decide

/-- Digits that name a number below the bound are read as that number. -/
theorem readDigits_toDigits {bound n : Nat} (h : n < bound) :
    readDigits bound 0 (Nat.toDigits 10 n) = .ok n := by
  induction n using Nat.strongRecOn with
  | ind n ih =>
    rw [Nat.toDigits_eq_if (by omega)]
    split
    next hn => simp [readDigits, digit?_digitChar hn, h]
    next hn =>
      have hs : n / 10 * 10 + n % 10 = n := by omega
      rw [readDigits_append, ih (n / 10) (by omega) (by omega)]
      simp [Except.bind, readDigits, digit?_digitChar (d := n % 10) (by omega), hs, h]

theorem toDigits_ne_nil (n : Nat) : Nat.toDigits 10 n ≠ [] := by
  rw [Nat.toDigits_eq_if (by omega)]
  split <;> simp

theorem not_mem_toDigits {c : Char} (hc : digit? c = none) (n : Nat) : c ∉ Nat.toDigits 10 n := by
  induction n using Nat.strongRecOn with
  | ind n ih =>
    have hd (d : Nat) (h : d < 10) : c ≠ Nat.digitChar d := by
      intro e
      rw [e, digit?_digitChar h] at hc
      cases hc
    rw [Nat.toDigits_eq_if (by omega)]
    split
    next hn => simp [hd n hn]
    next hn => simp [ih (n / 10) (by omega), hd (n % 10) (by omega)]

/-- A number below the bound is read back from its digits. -/
theorem read_toDigits {bound n : Nat} (h : n < bound) :
    read bound (String.ofList (Nat.toDigits 10 n)) = .ok n := by
  have hplus := not_mem_toDigits (c := '+') (by decide) n
  have hread := readDigits_toDigits h
  have hne := toDigits_ne_nil n
  simp only [read, String.toList_ofList]
  generalize Nat.toDigits 10 n = cs at *
  split
  · exact absurd rfl hne
  · exact absurd (List.mem_cons_self ..) hplus
  · cases cs with
    | nil => exact absurd rfl hne
    | cons c cs => exact hread

/-- The number of at least `-low` and below `high` that a text names; a minus sign is allowed. -/
def readSigned (low high : Nat) (s : String) : Except Refusal Int :=
  match s.toList with
  | '-' :: cs =>
    match readUnsigned (low + 1) cs with
    | .ok n => .ok (-(n : Int))
    | .error .tooLarge => .error .tooSmall
    | .error e => .error e
  | _ => (read high s).map Int.ofNat

/-- One more than the largest number of 32 bits. -/
def bound32 : Nat := UInt32.size

/-- One more than the largest number of 64 bits. -/
def bound64 : Nat := UInt64.size

/-- One more than the largest number of 128 bits. -/
def bound128 : Nat := 0x100000000000000000000000000000000

/-- The magnitude of the least integer of 64 bits; the largest one is one less. -/
def signedBound64 : Nat := 0x8000000000000000

end ObserverRelay.Numeral
