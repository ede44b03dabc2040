import ObserverRelay.Proofs.Text.Ascii
import ObserverRelay.Text.Blank
import ObserverRelay.Text.Hex
/-!
# Which texts are hexadecimal

Digits are read in either case and written in lower case, two for each octet. So a text is read as
the octets that it spells once its letters are lowered. Any other text is refused for its length, if
that is odd, and else for the first octet that is no digit.

## Main statements

* `exists_encodeChars_iff`: what octets are written as.
* `decode_eq_ok_iff`, `exists_decode_iff`: which texts are read, and as what.
* `decode_eq_error_iff`: what the others are refused for.
-/
namespace ObserverRelay.Hex

open Bytes

variable {b : UInt8} {c : Char} {n i : Nat} {s bs : Bytes} {cs : List Char} {t : String}

/-! ## Digits -/

/-- A hexadecimal digit in lower case. -/
def IsLowerDigit (c : Char) : Prop := '0' ≤ c ∧ c ≤ '9' ∨ 'a' ≤ c ∧ c ≤ 'f'

/-- A hexadecimal digit of either case. -/
def IsDigit (c : Char) : Prop := IsLowerDigit c ∨ 'A' ≤ c ∧ c ≤ 'F'

instance (c : Char) : Decidable (IsLowerDigit c) :=
  inferInstanceAs (Decidable (_ ∧ _ ∨ _ ∧ _))

instance (c : Char) : Decidable (IsDigit c) := inferInstanceAs (Decidable (_ ∨ _ ∧ _))

theorem IsDigit.lt (digit : IsDigit c) : c.toNat < 0x80 := by
  have bound : c ≤ 'f' := by
    obtain (⟨-, small⟩ | ⟨-, small⟩) | ⟨-, small⟩ := digit
    · exact Char.le_trans small (by decide)
    · exact small
    · exact Char.le_trans small (by decide)
  exact Nat.lt_of_le_of_lt (UInt32.le_iff_toNat_le.mp bound) (by decide)

theorem exists_eq_ofNat (small : c.toNat < 0x80) : ∃ k < 0x80, c = Char.ofNat k :=
  ⟨c.toNat, small, (Char.ofNat_toNat c).symm⟩

theorem toLower_of_le (large : 0x80 ≤ c.toNat) : c.toLower = c := by
  delta Char.toLower
  split
  next upper =>
    have bound : c.toNat ≤ 90 := UInt32.le_iff_toNat_le.mp upper.2
    omega
  next => rfl

/-- The digits of either case are those that are digits once they are lowered. -/
theorem isLowerDigit_toLower_iff : IsLowerDigit c.toLower ↔ IsDigit c := by
  by_cases small : c.toNat < 0x80
  · have all : ∀ k < 0x80, IsLowerDigit (Char.ofNat k).toLower ↔ IsDigit (Char.ofNat k) := by
      decide +kernel
    obtain ⟨k, below, rfl⟩ := exists_eq_ofNat small
    exact all k below
  · rw [toLower_of_le (Nat.le_of_not_lt small)]
    exact iff_of_false (fun digit => small (IsDigit.lt (.inl digit))) fun digit => small digit.lt

theorem isLowerDigit_digitChar (small : n < 16) : IsLowerDigit (digitChar n) := by
  have all : ∀ n < 16, IsLowerDigit (digitChar n) := by decide +kernel
  exact all n small

theorem isLowerDigit_iff : IsLowerDigit c ↔ ∃ n < 16, c = digitChar n := by
  constructor
  · intro digit
    have all : ∀ k < 0x80, IsLowerDigit (Char.ofNat k) → ∃ n < 16, Char.ofNat k = digitChar n := by
      decide +kernel
    obtain ⟨k, small, rfl⟩ := exists_eq_ofNat (IsDigit.lt (.inl digit))
    exact all k small digit
  · rintro ⟨n, small, rfl⟩
    exact isLowerDigit_digitChar small

theorem digitChar_injective {m : Nat} (hm : m < 16) (hn : n < 16)
    (same : digitChar m = digitChar n) : m = n := by
  have value := (digit?_digitChar hm).2
  rw [same, (digit?_digitChar hn).2] at value
  exact (Option.some.inj value).symm

/-- An octet has the value of the digit that its character is in lower case. -/
theorem digit?_eq_some_iff :
    digit? b = some n ↔ n < 16 ∧ (Char.ofNat b.toNat).toLower = digitChar n := by
  have value : ∀ k < 256, ∀ n ∈ digit? (UInt8.ofNat k),
      n < 16 ∧ (Char.ofNat k).toLower = digitChar n := by
    decide +kernel
  have digit : ∀ k < 256, IsDigit (Char.ofNat k) → (digit? (UInt8.ofNat k)).isSome = true := by
    decide +kernel
  constructor
  · intro found
    refine value b.toNat b.toNat_lt n ?_
    rwa [UInt8.ofNat_toNat]
  · rintro ⟨small, lower⟩
    have some := digit b.toNat b.toNat_lt
      (isLowerDigit_toLower_iff.mp (lower ▸ isLowerDigit_digitChar small))
    rw [UInt8.ofNat_toNat] at some
    obtain ⟨m, found⟩ := Option.isSome_iff_exists.mp some
    obtain ⟨small', lower'⟩ := value b.toNat b.toNat_lt m (by rwa [UInt8.ofNat_toNat])
    rw [found, digitChar_injective small' small (lower'.symm.trans lower)]

theorem exists_digit?_iff : (∃ n, digit? b = some n) ↔ IsDigit (Char.ofNat b.toNat) := by
  rw [← isLowerDigit_toLower_iff, isLowerDigit_iff]
  exact exists_congr fun n => digit?_eq_some_iff

theorem digit?_eq_none_iff : digit? b = none ↔ ¬IsDigit (Char.ofNat b.toNat) := by
  rw [← exists_digit?_iff, ← Option.isSome_iff_exists, Option.not_isSome_iff_eq_none]

/-- A character that is a digit once it is lowered is one octet, with the digit's value. -/
theorem digit?_toUInt8 (small : n < 16) (lower : c.toLower = digitChar n) :
    c.toNat < 0x80 ∧ digit? c.toUInt8 = some n := by
  have ascii : c.toNat < 0x80 :=
    (isLowerDigit_toLower_iff.mp (lower ▸ isLowerDigit_digitChar small)).lt
  refine ⟨ascii, digit?_eq_some_iff.mpr ⟨small, ?_⟩⟩
  rw [toNat_toUInt8 ascii, Char.ofNat_toNat, lower]

/-! ## What is written -/

/-- The octet that two digits are is written as these digits. -/
theorem encodeChars_ofNat {h l : Nat} (high : h < 16) (low : l < 16) (bs : Bytes) :
    encodeChars (UInt8.ofNat (h * 16 + l) :: bs) =
      digitChar h :: digitChar l :: encodeChars bs := by
  have value : (UInt8.ofNat (h * 16 + l)).toNat = h * 16 + l :=
    UInt8.toNat_ofNat_of_lt' (by simp only [UInt8.size]; omega)
  have quotient : (h * 16 + l) / 16 = h := by omega
  have remainder : (h * 16 + l) % 16 = l := by omega
  rw [encodeChars_cons, pair, value, quotient, remainder]
  rfl

/-- Octets are written as lower-case digits, two for each, and any such digits are octets. -/
theorem exists_encodeChars_iff :
    (∃ bs, bs.length = n ∧ cs = encodeChars bs) ↔
      cs.length = 2 * n ∧ ∀ c ∈ cs, IsLowerDigit c := by
  constructor
  · rintro ⟨bs, rfl, rfl⟩
    refine ⟨length_encodeChars bs, fun c mem => ?_⟩
    obtain ⟨b, -, mem⟩ := List.mem_flatMap.mp mem
    have := b.toNat_lt
    rw [pair, List.mem_cons, List.mem_singleton] at mem
    obtain rfl | rfl := mem
    · exact isLowerDigit_digitChar (by omega)
    · exact isLowerDigit_digitChar (by omega)
  · rintro ⟨length, digits⟩
    induction n generalizing cs with
    | zero => exact ⟨[], rfl, List.eq_nil_of_length_eq_zero length⟩
    | succ n ih =>
      obtain ⟨c, later, rfl⟩ := List.exists_cons_of_length_eq_add_one length
      obtain ⟨d, cs, rfl⟩ := List.exists_cons_of_length_eq_add_one (Nat.succ.inj length)
      obtain ⟨high, digits⟩ := List.forall_mem_cons.mp digits
      obtain ⟨low, others⟩ := List.forall_mem_cons.mp digits
      obtain ⟨h, smallHigh, rfl⟩ := isLowerDigit_iff.mp high
      obtain ⟨l, smallLow, rfl⟩ := isLowerDigit_iff.mp low
      obtain ⟨bs, rfl, rfl⟩ := ih (Nat.add_right_cancel (m := 2) length) others
      exact ⟨UInt8.ofNat (h * 16 + l) :: bs, rfl, (encodeChars_ofNat smallHigh smallLow bs).symm⟩

/-! ## What is read -/

/-- Characters that are written octets once they are lowered are digits, and so one octet each. -/
theorem isDigit_of_map_toLower (lower : cs.map Char.toLower = encodeChars bs) :
    cs.length = 2 * bs.length ∧ ∀ c ∈ cs, IsDigit c := by
  obtain ⟨length, digits⟩ := exists_encodeChars_iff.mp ⟨bs, rfl, lower⟩
  rw [List.length_map] at length
  rw [List.forall_mem_map] at digits
  exact ⟨length, fun c mem => isLowerDigit_toLower_iff.mp (digits c mem)⟩

theorem length_ofChars (digits : ∀ c ∈ cs, IsDigit c) : (ofChars cs).length = cs.length := by
  rw [ofChars_eq_map fun c mem => (digits c mem).lt, List.length_map]

theorem decodePairs_ofChars (lower : cs.map Char.toLower = encodeChars bs) :
    decodePairs i (ofChars cs) = .ok bs := by
  induction bs generalizing cs i with
  | nil =>
    obtain rfl := List.map_eq_nil_iff.mp lower
    rfl
  | cons b bs ih =>
    have bound := b.toNat_lt
    obtain ⟨c, later, rfl, first, lower⟩ := List.map_eq_cons_iff.mp lower
    obtain ⟨d, others, rfl, second, lower⟩ := List.map_eq_cons_iff.mp lower
    obtain ⟨ascii, high⟩ := digit?_toUInt8 (by omega) first
    obtain ⟨ascii', low⟩ := digit?_toUInt8 (by omega) second
    have whole : b.toNat / 16 * 16 + b.toNat % 16 = b.toNat := by omega
    rw [ofChars_cons_of_lt ascii, ofChars_cons_of_lt ascii', decodePairs, high, low, ih lower]
    simp only [Except.map, whole, UInt8.ofNat_toNat]

/-- What is read as octets is written like them once it is lowered. -/
theorem exists_chars_of_decodePairs (read : decodePairs i s = .ok bs) :
    ∃ cs, s = ofChars cs ∧ cs.map Char.toLower = encodeChars bs := by
  fun_induction decodePairs i s generalizing bs with
  | case1 => cases read
  | case2 => cases read
  | case3 i hi lo rest h l low high ih =>
    cases later : decodePairs (i + 2) rest with
    | error => simp [later, Except.map] at read
    | ok octets =>
      obtain rfl : UInt8.ofNat (h * 16 + l) :: octets = bs := by
        simpa [later, Except.map] using read
      obtain ⟨cs, rfl, lower⟩ := ih later
      obtain ⟨smallHigh, upper⟩ := digit?_eq_some_iff.mp high
      obtain ⟨smallLow, lower'⟩ := digit?_eq_some_iff.mp low
      have hiAscii := (exists_digit?_iff.mp ⟨h, high⟩).lt
      have loAscii := (exists_digit?_iff.mp ⟨l, low⟩).lt
      refine ⟨Char.ofNat hi.toNat :: Char.ofNat lo.toNat :: cs, ?_, ?_⟩
      · rw [ofChars_cons_of_lt hiAscii, ofChars_cons_of_lt loAscii, toUInt8_ofNat_octet,
          toUInt8_ofNat_octet]
      · rw [List.map_cons, List.map_cons, upper, lower', lower,
          encodeChars_ofNat smallHigh smallLow]
  | case4 => cases read
  | case5 =>
    cases read
    exact ⟨[], rfl, rfl⟩

/-- A text is read as the octets that it is written like once it is lowered. -/
theorem decode_eq_ok_iff : decode t = .ok bs ↔ Text.asciiLower t = encode bs := by
  rw [decode, Text.asciiLower, encode, String.ofList_inj]
  constructor
  · intro read
    split at read
    next => cases read
    next =>
      obtain ⟨cs, whole, lower⟩ := exists_chars_of_decodePairs read
      rw [← ofText_ofList_eq] at whole
      obtain rfl := ofText_injective whole
      rwa [String.toList_ofList]
  · intro lower
    obtain ⟨length, digits⟩ := isDigit_of_map_toLower lower
    have even : (ofText t).length % 2 ≠ 1 := by
      rw [ofText_eq, length_ofChars digits]
      omega
    rw [if_neg even, ofText_eq]
    exact decodePairs_ofChars lower

/-- Exactly the texts that are twice as many digits are read as that many octets. -/
theorem exists_decode_iff :
    (∃ bs, bs.length = n ∧ decode t = .ok bs) ↔
      t.toList.length = 2 * n ∧ ∀ c ∈ t.toList, IsDigit c := by
  simp only [decode_eq_ok_iff, Text.asciiLower, encode, String.ofList_inj, exists_encodeChars_iff,
    List.length_map, List.forall_mem_map, isLowerDigit_toLower_iff]

/-! ## What is refused -/

/-- What keeps octets from being pairs of digits: that they are odd in number, and else the first of
them that is no digit. -/
inductive Flaw (s : Bytes) : Refusal → Prop
  | oddLength (odd : s.length % 2 = 1) : Flaw s .oddLength
  | badDigit {front rest : Bytes} {b : UInt8} (even : s.length % 2 = 0)
      (whole : s = front ++ b :: rest) (digits : ∀ a ∈ front, IsDigit (Char.ofNat a.toNat))
      (other : ¬IsDigit (Char.ofNat b.toNat)) : Flaw s (.badDigit b front.length)

/-- Digits in front of an octet that is none are read in pairs, and either of a pair may be it. -/
theorem decodePairs_of_badDigit (i : Nat) {front rest : Bytes}
    (even : (front ++ b :: rest).length % 2 = 0)
    (digits : ∀ a ∈ front, IsDigit (Char.ofNat a.toNat)) (other : ¬IsDigit (Char.ofNat b.toNat)) :
    decodePairs i (front ++ b :: rest) = .error (.badDigit b (i + front.length)) := by
  have noDigit := digit?_eq_none_iff.mpr other
  match front with
  | [] =>
    match rest with
    | [] => simp at even
    | lo :: rest => simp only [List.nil_append, decodePairs, noDigit, List.length_nil, Nat.add_zero]
  | [hi] =>
    obtain ⟨h, high⟩ := exists_digit?_iff.mpr (digits hi List.mem_cons_self)
    simp only [List.cons_append, List.nil_append, decodePairs, high, noDigit, List.length_singleton]
  | hi :: lo :: front =>
    obtain ⟨high, later⟩ := List.forall_mem_cons.mp digits
    obtain ⟨low, others⟩ := List.forall_mem_cons.mp later
    obtain ⟨h, high⟩ := exists_digit?_iff.mpr high
    obtain ⟨l, low⟩ := exists_digit?_iff.mpr low
    have even' : (front ++ b :: rest).length % 2 = 0 := by
      simp only [List.cons_append, List.length_cons] at even
      omega
    have places : i + 2 + front.length = i + (hi :: lo :: front).length := by
      simp only [List.length_cons]
      omega
    have refused := decodePairs_of_badDigit (i + 2) even' others other
    simp only [List.cons_append, decodePairs, high, low, refused, Except.map, places]

theorem exists_badDigit_of_decodePairs {r : Refusal} (even : s.length % 2 = 0)
    (refused : decodePairs i s = .error r) :
    ∃ front b rest, s = front ++ b :: rest ∧ (∀ a ∈ front, IsDigit (Char.ofNat a.toNat)) ∧
      ¬IsDigit (Char.ofNat b.toNat) ∧ r = .badDigit b (i + front.length) := by
  fun_induction decodePairs i s with
  | case1 i hi lo rest noDigit =>
    cases refused
    exact ⟨[], hi, lo :: rest, rfl, List.forall_mem_nil _, digit?_eq_none_iff.mp noDigit, rfl⟩
  | case2 i hi lo rest h noDigit high =>
    cases refused
    exact ⟨[hi], lo, rest, rfl, List.forall_mem_singleton.mpr (exists_digit?_iff.mp ⟨h, high⟩),
      digit?_eq_none_iff.mp noDigit, rfl⟩
  | case3 i hi lo rest h l low high ih =>
    cases later : decodePairs (i + 2) rest with
    | ok => simp [later, Except.map] at refused
    | error r' =>
      obtain rfl : r' = r := by simpa [later, Except.map] using refused
      have even' : rest.length % 2 = 0 := by
        simp only [List.length_cons] at even
        omega
      obtain ⟨front, b, rest, rfl, digits, other, rfl⟩ := ih even' later
      refine ⟨hi :: lo :: front, b, rest, rfl, ?_, other, ?_⟩
      · exact List.forall_mem_cons.mpr ⟨exists_digit?_iff.mp ⟨h, high⟩,
          List.forall_mem_cons.mpr ⟨exists_digit?_iff.mp ⟨l, low⟩, digits⟩⟩
      · simp only [List.length_cons]
        congr 1
        omega
  | case4 => simp at even
  | case5 => cases refused

/-- A text that is not read is refused for what its octets lack. -/
theorem decode_eq_error_iff {r : Refusal} : decode t = .error r ↔ Flaw (ofText t) r := by
  rw [decode]
  constructor
  · intro refused
    split at refused
    next odd =>
      cases refused
      exact .oddLength odd
    next notOdd =>
      have even : (ofText t).length % 2 = 0 := by omega
      obtain ⟨front, b, rest, whole, digits, other, rfl⟩ :=
        exists_badDigit_of_decodePairs even refused
      rw [Nat.zero_add]
      exact .badDigit even whole digits other
  · intro flaw
    cases flaw with
    | oddLength odd => rw [if_pos odd]
    | badDigit even whole digits other =>
      have notOdd : ¬(ofText t).length % 2 = 1 := by omega
      rw [if_neg notOdd, whole, decodePairs_of_badDigit 0 (whole ▸ even) digits other, Nat.zero_add]

end ObserverRelay.Hex
