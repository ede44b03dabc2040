import ObserverRelay.Proofs.Text.Ascii
import ObserverRelay.Url.Percent
/-!
# Escapes and what they stand for

What is written with escapes holds none of the characters that are to be escaped, and it is read
back, if the sign of an escape is itself escaped. What is read behind an octet that belongs to no
escape does not depend on what stands before it.

## Main statements

* `not_mem_percentEncode`: characters of the set do not occur.
* `percentDecode_percentEncode`: octets are read back.
* `decodes_iff`: what escapes stand for, octet by octet.
* `percentDecode_append_cons`: texts can be cut where no escape goes on.
-/
namespace ObserverRelay.Url

open Bytes

variable {set : EncodeSet} {b : UInt8} {c : Char}

/-! ## Characters of escapes -/

/-- The characters of which escapes consist. -/
def escapeSigns : List Char :=
  ['%', '0', '1', '2', '3', '4', '5', '6', '7', '8', '9', 'A', 'B', 'C', 'D', 'E', 'F']

theorem mem_escapeSigns (mem : c ∈ escapeOctet b) : c ∈ escapeSigns := by
  have digit : ∀ n < 16, upperDigit n ∈ escapeSigns := by decide
  have bound := b.toNat_lt
  simp only [escapeOctet, List.mem_cons, List.not_mem_nil, or_false] at mem
  rcases mem with rfl | rfl | rfl
  · decide
  · exact digit _ (by omega)
  · exact digit _ (by omega)

theorem ofChars_escapeOctet (b : UInt8) : ofChars (escapeOctet b) = (escapeOctet b).map Char.toUInt8 := by
  have ascii : ∀ c ∈ escapeSigns, c.toNat < 0x80 := by simp [escapeSigns]
  exact ofChars_eq_map fun c mem => ascii c (mem_escapeSigns mem)

/-! ## Writing -/

theorem percentEncode_cons (b : UInt8) (bs : Bytes) :
    percentEncode set (b :: bs) =
      (if set b then escapeOctet b else [Char.ofNat b.toNat]) ++ percentEncode set bs := rfl

/-- A character that does not belong to an escape stands for its own octet, which needs none. -/
theorem of_mem_percentEncode {bs : Bytes} (noSign : c ∉ escapeSigns)
    (mem : c ∈ percentEncode set bs) : set c.toUInt8 = false ∧ c.toUInt8 ∈ bs := by
  induction bs with
  | nil => cases mem
  | cons b bs ih =>
    rw [percentEncode_cons, List.mem_append] at mem
    rcases mem with here | later
    · by_cases inside : set b = true
      · rw [if_pos inside] at here
        exact absurd (mem_escapeSigns here) noSign
      · rw [if_neg inside, List.mem_singleton] at here
        rw [here, toUInt8_ofNat_octet]
        exact ⟨by simpa using inside, List.mem_cons_self⟩
    · obtain ⟨outside, later⟩ := ih later
      exact ⟨outside, List.mem_cons_of_mem b later⟩

/-- What is to be escaped does not occur as it is. -/
theorem not_mem_percentEncode (noSign : c ∉ escapeSigns) (escaped : set c.toUInt8 = true)
    (bs : Bytes) : c ∉ percentEncode set bs := by
  intro mem
  obtain ⟨outside, -⟩ := of_mem_percentEncode noSign mem
  rw [escaped] at outside
  cases outside

/-- What does not occur among characters does not occur among their escapes. -/
theorem not_mem_encodeChars {cs : List Char} (noSign : c ∉ escapeSigns) (ascii : c.toNat < 0x80)
    (absent : c ∉ cs) : c ∉ encodeChars set cs := by
  intro mem
  obtain ⟨-, octet⟩ := of_mem_percentEncode noSign mem
  rw [ofText_ofList_eq, mem_ofChars_iff ascii] at octet
  exact absent octet

/-! ## Reading -/

/-- Octets are read back if the sign of an escape is in the set, and all octets beyond ASCII. -/
theorem percentDecode_percentEncode (wide : ∀ b, set b = false → b.toNat < 0x80)
    (sign : set 0x25 = true) (bs rest : Bytes) :
    percentDecode (ofChars (percentEncode set bs) ++ rest) = bs ++ percentDecode rest := by
  induction bs with
  | nil => rfl
  | cons b bs ih =>
    rw [percentEncode_cons, ofChars_append, List.append_assoc]
    by_cases inside : set b = true
    · rw [if_pos inside, ofChars_escapeOctet, percentDecode_escapeOctet, ih]
      rfl
    · have other : b ≠ 0x25 := by
        rintro rfl
        exact inside sign
      rw [if_neg inside, ofChars_octet (wide b (by simpa using inside)), List.singleton_append,
        percentDecode_cons_of_ne other, ih]
      rfl

theorem percentDecode_of_not_mem {bs : Bytes} (noSign : 0x25 ∉ bs) : percentDecode bs = bs := by
  induction bs with
  | nil => rfl
  | cons b bs ih =>
    rw [percentDecode_cons_of_ne (List.ne_of_not_mem_cons noSign).symm,
      ih (List.not_mem_of_not_mem_cons noSign)]

/-- An octet that two digits do not follow is read as it is. -/
theorem percentDecode_cons_of_noDigits {a : UInt8} {rest : Bytes}
    (noDigits : ∀ c d t, rest = c :: d :: t → Hex.digit? c = none ∨ Hex.digit? d = none) :
    percentDecode (a :: rest) = a :: percentDecode rest := by
  by_cases sign : a = 0x25
  · match rest with
    | [] | [_] => rfl
    | c :: d :: t =>
      rw [percentDecode, if_pos sign]
      rcases noDigits c d t rfl with none | none
      · simp [none]
      · cases Hex.digit? c <;> simp [none]
  · exact percentDecode_cons_of_ne sign rest

/-- An octet is no escape: it is not its sign, or two digits do not follow. -/
def NoEscape (b : UInt8) (rest : Bytes) : Prop :=
  b = 0x25 → ∀ c d t, rest = c :: d :: t → Hex.digit? c = none ∨ Hex.digit? d = none

/-- Octets with each escape replaced by the octet that it stands for, and all else as it is. -/
inductive Decodes : Bytes → Bytes → Prop
  | done : Decodes [] []
  | escape {a b : UInt8} {h l : Nat} {s t : Bytes} (high : Hex.digit? a = some h)
      (low : Hex.digit? b = some l) (more : Decodes s t) :
      Decodes (0x25 :: a :: b :: s) (UInt8.ofNat (h * 16 + l) :: t)
  | plain {b : UInt8} {s t : Bytes} (noEscape : NoEscape b s) (more : Decodes s t) :
      Decodes (b :: s) (b :: t)

theorem decodes_percentDecode (s : Bytes) : Decodes s (percentDecode s) := by
  fun_induction percentDecode s with
  | case1 => exact .done
  | case2 a => exact .plain (fun _ _ _ _ => nofun) .done
  | case3 a b =>
    have last : Decodes [b] [b] := .plain (fun _ _ _ _ => nofun) .done
    exact .plain (fun _ _ _ _ => nofun) last
  | case4 b c rest h l low high ih => exact .escape high low ih
  | case5 b c rest noPair ih =>
    refine .plain (fun _ _ _ _ same => ?_) ih
    cases same
    cases high : Hex.digit? b with
    | none => exact .inl rfl
    | some h =>
      cases low : Hex.digit? c with
      | none => exact .inr rfl
      | some l => exact (noPair h l high low).elim
  | case6 a b c rest other ih => exact .plain (fun sign => absurd sign other) ih

/-- Escapes are resolved as they stand, and what is no escape is kept. -/
theorem decodes_iff {s t : Bytes} : Decodes s t ↔ percentDecode s = t := by
  constructor
  · intro h
    induction h with
    | done => rfl
    | escape high low _ ih => simp only [percentDecode, if_true, high, low, ih]
    | @plain b s _ noEscape _ ih =>
      by_cases sign : b = 0x25
      · rw [percentDecode_cons_of_noDigits (noEscape sign), ih]
      · rw [percentDecode_cons_of_ne sign, ih]
  · rintro rfl
    exact decodes_percentDecode s

/-- An octet that is neither the sign of an escape nor a digit belongs to no escape. -/
theorem percentDecode_append_cons (noSign : b ≠ 0x25) (noDigit : Hex.digit? b = none)
    (before after : Bytes) :
    percentDecode (before ++ b :: after) = percentDecode before ++ b :: percentDecode after := by
  have here := percentDecode_cons_of_ne noSign after
  fun_induction percentDecode before with
  | case1 => exact here
  | case2 a =>
    have step : percentDecode (a :: b :: after) = a :: percentDecode (b :: after) :=
      percentDecode_cons_of_noDigits fun c d t same => .inl (by cases same; exact noDigit)
    rw [List.singleton_append, step, here, List.singleton_append]
  | case3 a c =>
    have step : percentDecode (a :: c :: b :: after) = a :: percentDecode (c :: b :: after) :=
      percentDecode_cons_of_noDigits fun _ _ _ same => .inr (by cases same; exact noDigit)
    have step' : percentDecode (c :: b :: after) = c :: percentDecode (b :: after) :=
      percentDecode_cons_of_noDigits fun _ _ _ same => .inl (by cases same; exact noDigit)
    rw [List.cons_append, List.singleton_append, step, step', here]
    rfl
  | case4 c d rest h l first second ih =>
    simp only [List.cons_append, percentDecode, if_true, first, second, ih]
  | case5 c d rest noPair ih =>
    have step : percentDecode (0x25 :: c :: d :: (rest ++ b :: after)) =
        0x25 :: percentDecode (c :: d :: (rest ++ b :: after)) := by
      refine percentDecode_cons_of_noDigits fun _ _ _ same => ?_
      cases same
      cases high : Hex.digit? c with
      | none => exact .inl rfl
      | some h =>
        cases low : Hex.digit? d with
        | none => exact .inr rfl
        | some l => exact (noPair h l high low).elim
    rw [List.cons_append, List.cons_append, List.cons_append, step]
    exact congrArg _ ih
  | case6 a c d rest other ih =>
    rw [List.cons_append, List.cons_append, List.cons_append, percentDecode_cons_of_ne other]
    exact congrArg _ ih

end ObserverRelay.Url
