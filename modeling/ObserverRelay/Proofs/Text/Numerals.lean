import ObserverRelay.Text.Numeral
import Mathlib.Data.List.Basic
/-!
# Which texts are numerals

A text names a natural number if it is one or more ASCII digits, possibly behind a plus sign, that
denote the number. Zeros in front change nothing. Such a text is read if the number is below the
bound; the bound is tested after each digit, which is enough since more digits never make the
number smaller.

## Main statements

* `read_eq_ok_iff`: what is read from a text.
* `canonical_toDigits`: how a number is written.
-/
namespace ObserverRelay.Numeral

variable {bound acc n : Nat} {c : Char} {cs : List Char} {s : String}

/-- Digits that denote a number. -/
structure Denotes (cs : List Char) (n : Nat) : Prop where
  nonempty : cs ≠ []
  digits : ∀ c ∈ cs, c.isDigit
  value : Nat.ofDigitChars 10 cs 0 = n

/-- A text that names a number. -/
inductive Names (s : String) (n : Nat) : Prop
  | plain (digits : Denotes s.toList n)
  | plus {cs : List Char} (sign : s.toList = '+' :: cs) (digits : Denotes cs n)

/-! ## Reading -/

theorem digit?_eq (c : Char) : digit? c = if c.isDigit then some (c.toNat - '0'.toNat) else none := by
  have range : ('0' ≤ c ∧ c ≤ '9') ↔ c.isDigit := by
    simp [Char.isDigit, Char.le_def]
  simp only [digit?, range]

theorem le_ofDigitChars (acc : Nat) (cs : List Char) : acc ≤ Nat.ofDigitChars 10 cs acc := by
  induction cs generalizing acc with
  | nil => simp
  | cons c cs ih =>
    rw [Nat.ofDigitChars_cons]
    exact Nat.le_trans (by omega) (ih _)

/-- That all beginnings of the digits are below the bound follows from the end. -/
theorem readDigits_eq_ok_iff (below : acc < bound) :
    readDigits bound acc cs = .ok n ↔
      (∀ c ∈ cs, c.isDigit) ∧ Nat.ofDigitChars 10 cs acc = n ∧ n < bound := by
  induction cs generalizing acc with
  | nil =>
    simp only [readDigits, Except.ok.injEq, List.not_mem_nil, Nat.ofDigitChars_nil]
    constructor
    · rintro rfl
      exact ⟨by simp, rfl, below⟩
    · exact fun h => h.2.1
  | cons c cs ih =>
    rw [readDigits, digit?_eq, List.forall_mem_cons, Nat.ofDigitChars_cons, Nat.mul_comm 10]
    cases digit : c.isDigit with
    | false => simp
    | true =>
      simp only [if_true, true_and]
      by_cases fits : acc * 10 + (c.toNat - '0'.toNat) < bound
      · rw [if_pos fits, ih fits]
      · rw [if_neg fits]
        constructor
        · intro read
          cases read
        · rintro ⟨-, value, small⟩
          rw [← value] at small
          exact absurd (Nat.lt_of_le_of_lt (le_ofDigitChars _ cs) small) fits

theorem readUnsigned_eq_ok_iff (positive : 0 < bound) :
    readUnsigned bound cs = .ok n ↔ Denotes cs n ∧ n < bound := by
  cases cs with
  | nil => exact iff_of_false nofun fun h => h.1.nonempty rfl
  | cons c cs =>
    rw [readUnsigned, readDigits_eq_ok_iff positive]
    · constructor
      · rintro ⟨digits, value, small⟩
        exact ⟨⟨List.cons_ne_nil c cs, digits, value⟩, small⟩
      · rintro ⟨⟨-, digits, value⟩, small⟩
        exact ⟨digits, value, small⟩
    · exact nofun

/-- A number below the bound is read from the texts that name it, and no other text is read. -/
theorem read_eq_ok_iff (positive : 0 < bound) : read bound s = .ok n ↔ Names s n ∧ n < bound := by
  unfold read
  split
  next empty =>
    refine iff_of_false nofun fun h => ?_
    cases h.1 with
    | plain digits => exact digits.nonempty empty
    | plus sign => cases sign.symm.trans empty
  next cs signed =>
    rw [readUnsigned_eq_ok_iff positive]
    constructor
    · exact fun h => ⟨.plus signed h.1, h.2⟩
    · rintro ⟨names, small⟩
      cases names with
      | plain digits =>
        have digit := digits.digits '+' (by rw [signed]; exact List.mem_cons_self)
        exact absurd digit (by decide)
      | plus sign digits =>
        obtain rfl := (List.cons.inj (signed.symm.trans sign)).2
        exact ⟨digits, small⟩
  next noSign =>
    rw [readUnsigned_eq_ok_iff positive]
    constructor
    · exact fun h => ⟨.plain h.1, h.2⟩
    · rintro ⟨names, small⟩
      cases names with
      | plain digits => exact ⟨digits, small⟩
      | plus sign => exact absurd sign (noSign _)

/-! ## Writing -/

/-- Digits that denote a number, with no zero in front of others. -/
structure Canonical (cs : List Char) (n : Nat) : Prop extends Denotes cs n where
  noZeros : cs.head? = some '0' → cs = ['0']

theorem eq_zero_of_head?_toDigits (zero : (Nat.toDigits 10 n).head? = some '0') : n = 0 := by
  induction n using Nat.strongRecOn with
  | ind n ih =>
    rw [Nat.toDigits_eq_if (by decide)] at zero
    split at zero
    next small =>
      have same : Nat.digitChar n = '0' := by simpa using zero
      have digit := digit?_digitChar small
      rw [same] at digit
      exact (Option.some.inj digit).symm
    next large =>
      rw [List.head?_append_of_ne_nil _ Nat.toDigits_ne_nil] at zero
      have front := ih (n / 10) (by omega) zero
      omega

theorem canonical_toDigits (n : Nat) : Canonical (Nat.toDigits 10 n) n where
  nonempty := Nat.toDigits_ne_nil
  digits _ digit := Nat.isDigit_of_mem_toDigits (by decide) (by decide) digit
  value := Nat.ofDigitChars_ten_toDigits
  noZeros zero := by
    rw [eq_zero_of_head?_toDigits zero]
    rfl

end ObserverRelay.Numeral
