import ObserverRelay.Proofs.Text.Ascii
import ObserverRelay.Text.Base64
import Mathlib.Data.List.Basic
/-!
# Which texts are base64

Three octets are the 24 bits of four symbols. The bits of a last group of one or two octets are
followed by zeros up to the end of a symbol, and padding fills the group up to four places. So
octets have one spelling, and this is the only text that is read as them.

## Main statements

* `eq_encode_of_decode`: what is read as octets is what they are written as.
* `decode_eq_ok_iff`: the texts that are read.
* `Standard.not_flawed`: texts that are refused.
-/
namespace ObserverRelay.Base64

open Bytes

variable {bs s : Bytes} {cs : List Char} {c : Char} {n : Nat}

/-! ## Spellings -/

/-- The symbols, in the order of their numbers. -/
def alphabet : List Char :=
  "ABCDEFGHIJKLMNOPQRSTUVWXYZabcdefghijklmnopqrstuvwxyz0123456789+/".toList

/-- The character is the symbol of the number. -/
def IsSymbol (c : Char) (n : Nat) : Prop := alphabet[n]? = some c

/-- The characters are the padded standard spelling of the octets, bit by bit. -/
inductive Standard : Bytes → List Char → Prop
  | none : Standard [] []
  | one {a : UInt8} {c d : Char} {w x : Nat} (first : IsSymbol c w) (second : IsSymbol d x)
      (bits : w * 64 + x = a.toNat * 16) : Standard [a] [c, d, '=', '=']
  | two {a b : UInt8} {c d e : Char} {w x y : Nat} (first : IsSymbol c w) (second : IsSymbol d x)
      (third : IsSymbol e y) (bits : (w * 64 + x) * 64 + y = (a.toNat * 256 + b.toNat) * 4) :
      Standard [a, b] [c, d, e, '=']
  | three {a b c : UInt8} {d e f g : Char} {w x y z : Nat} {bs : Bytes} {cs : List Char}
      (first : IsSymbol d w) (second : IsSymbol e x) (third : IsSymbol f y) (fourth : IsSymbol g z)
      (bits : ((w * 64 + x) * 64 + y) * 64 + z = (a.toNat * 256 + b.toNat) * 256 + c.toNat)
      (more : Standard bs cs) : Standard (a :: b :: c :: bs) (d :: e :: f :: g :: cs)

theorem isSymbol_iff : IsSymbol c n ↔ n < 64 ∧ c = Char.ofNat (symbol n).toNat := by
  have all : ∀ n < 64, alphabet[n]? = some (Char.ofNat (symbol n).toNat) := by decide +kernel
  have length : alphabet.length = 64 := by decide
  rw [IsSymbol]
  constructor
  · intro at_
    have small : n < 64 := length ▸ (List.getElem?_eq_some_iff.mp at_).1
    exact ⟨small, Option.some.inj (at_.symm.trans (all n small))⟩
  · rintro ⟨small, rfl⟩
    exact all n small

/-- A symbol is one octet. -/
theorem IsSymbol.ofChars (h : IsSymbol c n) (cs : List Char) :
    ofChars (c :: cs) = symbol n :: Bytes.ofChars cs := by
  obtain ⟨small, rfl⟩ := isSymbol_iff.mp h
  have ascii : (Char.ofNat (symbol n).toNat).toNat < 0x80 := by
    rw [toNat_ofNat_octet]
    exact symbol_lt n
  rw [ofChars_cons_of_lt ascii, toUInt8_ofNat_octet]

theorem ofChars_padding (cs : List Char) : ofChars ('=' :: cs) = padding :: Bytes.ofChars cs :=
  ofChars_cons_of_lt (by decide) cs

theorem Standard.ofChars_eq (h : Standard bs cs) : ofChars cs = encode bs := by
  induction h with
  | none => rfl
  | @one a c d w x first second bits =>
    have := (isSymbol_iff.mp first).1
    have := (isSymbol_iff.mp second).1
    have high : a.toNat / 4 = w := by omega
    have low : a.toNat % 4 * 16 = x := by omega
    rw [first.ofChars, second.ofChars, ofChars_padding, ofChars_padding, encode, high, low]
    rfl
  | @two a b c d e w x y first second third bits =>
    have := a.toNat_lt
    have := b.toNat_lt
    have := (isSymbol_iff.mp first).1
    have := (isSymbol_iff.mp second).1
    have := (isSymbol_iff.mp third).1
    have high : a.toNat / 4 = w := by omega
    have middle : a.toNat % 4 * 16 + b.toNat / 16 = x := by omega
    have low : b.toNat % 16 * 4 = y := by omega
    rw [first.ofChars, second.ofChars, third.ofChars, ofChars_padding, encode, high, middle, low]
    rfl
  | @three a b c d e f g w x y z bs cs first second third fourth bits more ih =>
    have := a.toNat_lt
    have := b.toNat_lt
    have := c.toNat_lt
    have := (isSymbol_iff.mp first).1
    have := (isSymbol_iff.mp second).1
    have := (isSymbol_iff.mp third).1
    have := (isSymbol_iff.mp fourth).1
    have top : a.toNat / 4 = w := by omega
    have high : a.toNat % 4 * 16 + b.toNat / 16 = x := by omega
    have low : b.toNat % 16 * 4 + c.toNat / 64 = y := by omega
    have bottom : c.toNat % 64 = z := by omega
    rw [first.ofChars, second.ofChars, third.ofChars, fourth.ofChars, ih, encode, top, high, low,
      bottom]

/-- Every list of octets has a spelling. -/
theorem exists_standard (bs : Bytes) : ∃ cs, Standard bs cs := by
  have symbol {n : Nat} (small : n < 64) : IsSymbol (Char.ofNat (symbol n).toNat) n :=
    isSymbol_iff.mpr ⟨small, rfl⟩
  fun_induction encode bs with
  | case1 a b c rest ih =>
    have := a.toNat_lt
    have := b.toNat_lt
    have := c.toNat_lt
    obtain ⟨cs, more⟩ := ih
    exact ⟨_, .three (w := a.toNat / 4) (x := a.toNat % 4 * 16 + b.toNat / 16)
      (y := b.toNat % 16 * 4 + c.toNat / 64) (z := c.toNat % 64) (symbol (by omega))
      (symbol (by omega)) (symbol (by omega)) (symbol (by omega)) (by omega) more⟩
  | case2 a b =>
    have := a.toNat_lt
    have := b.toNat_lt
    exact ⟨_, .two (w := a.toNat / 4) (x := a.toNat % 4 * 16 + b.toNat / 16)
      (y := b.toNat % 16 * 4) (symbol (by omega)) (symbol (by omega)) (symbol (by omega)) (by omega)⟩
  | case3 a =>
    have := a.toNat_lt
    exact ⟨_, .one (w := a.toNat / 4) (x := a.toNat % 4 * 16) (symbol (by omega))
      (symbol (by omega)) (by omega)⟩
  | case4 => exact ⟨[], .none⟩

/-! ## Reading -/

theorem symbol_of_value? {b : UInt8} (h : value? b = some n) : n < 64 ∧ symbol n = b := by
  have all : ∀ k < 256, (value? (UInt8.ofNat k)).all fun n => n < 64 ∧ symbol n = UInt8.ofNat k := by
    decide +kernel
  have here := all b.toNat b.toNat_lt
  rw [UInt8.ofNat_toNat, h] at here
  simpa using here

theorem symbol_of_valueAt {b : UInt8} {offset : Nat} (h : valueAt b offset = .ok n) :
    n < 64 ∧ symbol n = b := by
  rw [valueAt] at h
  split at h
  next found =>
    obtain rfl := Except.ok.inj h
    exact symbol_of_value? found
  next => cases h

/-- The numbers of a last group are those of its symbols, and only padding follows these. -/
theorem group_of_lastNumbers_go {offset i : Nat} {padFrom : Option Nat} {group : Bytes}
    {numbers : List Nat} (h : lastNumbers.go offset i padFrom group = .ok numbers) :
    ∃ k, group = numbers.map symbol ++ List.replicate k padding ∧ (∀ n ∈ numbers, n < 64) ∧
      (padFrom.isSome → numbers = []) := by
  induction group generalizing i padFrom numbers with
  | nil =>
    obtain rfl := Except.ok.inj h
    exact ⟨0, rfl, by simp, fun _ => rfl⟩
  | cons b group ih =>
    simp only [lastNumbers.go] at h
    split at h
    next pad =>
      split at h
      next => cases h
      next =>
        obtain ⟨k, rfl, -, none⟩ := ih h
        obtain rfl := none rfl
        exact ⟨k + 1, by rw [pad]; rfl, by simp, fun _ => rfl⟩
    next =>
      cases padFrom with
      | some j => cases h
      | none =>
        cases value : valueAt b (offset + i) with
        | error e => simp [value] at h
        | ok n =>
          obtain ⟨small, rfl⟩ := symbol_of_valueAt value
          simp only [value] at h
          cases later : lastNumbers.go offset (i + 1) none group with
          | error e => simp [later, Except.map] at h
          | ok ns =>
            obtain rfl : n :: ns = numbers := by simpa [later, Except.map] using h
            obtain ⟨k, rfl, smalls, -⟩ := ih later
            exact ⟨k, rfl, List.forall_mem_cons.mpr ⟨small, smalls⟩, by simp⟩

section Groups
variable {a b c d offset : Nat} (ha : a < 64) (hb : b < 64) (hc : c < 64) (hd : d < 64)

theorem toNat_octet (h : n < 256) : (UInt8.ofNat n).toNat = n := UInt8.toNat_ofNat_of_lt' h

include ha hb hc hd in
theorem encode_octets (rest : Bytes) : encode (octets a b c d ++ rest) =
    symbol a :: symbol b :: symbol c :: symbol d :: encode rest := by
  have first : (a * 4 + b / 16) / 4 = a := by omega
  have second : (a * 4 + b / 16) % 4 * 16 + (b % 16 * 16 + c / 4) / 16 = b := by omega
  have third : (b % 16 * 16 + c / 4) % 16 * 4 + (c % 4 * 64 + d) / 64 = c := by omega
  have fourth : (c % 4 * 64 + d) % 64 = d := by omega
  simp only [octets, List.cons_append, List.nil_append, encode]
  rw [toNat_octet (by omega), toNat_octet (by omega), toNat_octet (by omega), first, second, third,
    fourth]

include ha hb hc in
theorem encode_two (noRest : c % 4 = 0) :
    encode [UInt8.ofNat (a * 4 + b / 16), UInt8.ofNat (b % 16 * 16 + c / 4)] =
      [symbol a, symbol b, symbol c, padding] := by
  have first : (a * 4 + b / 16) / 4 = a := by omega
  have second : (a * 4 + b / 16) % 4 * 16 + (b % 16 * 16 + c / 4) / 16 = b := by omega
  have third : (b % 16 * 16 + c / 4) % 16 * 4 = c := by omega
  rw [encode, toNat_octet (by omega), toNat_octet (by omega), first, second, third]

include ha hb in
theorem encode_one (noRest : b % 16 = 0) :
    encode [UInt8.ofNat (a * 4 + b / 16)] = [symbol a, symbol b, padding, padding] := by
  have first : (a * 4 + b / 16) / 4 = a := by omega
  have second : (a * 4 + b / 16) % 4 * 16 = b := by omega
  rw [encode, toNat_octet (by omega), first, second]

end Groups

/-- A last group is read as what it is the spelling of. -/
theorem eq_encode_of_decodeLast {offset : Nat} {group : Bytes} (short : group.length ≤ 4)
    (h : decodeLast offset group = .ok bs) : group = encode bs := by
  rw [decodeLast] at h
  split at h
  next => cases h
  next numbers read =>
    obtain ⟨k, rfl, small, -⟩ := group_of_lastNumbers_go read
    simp only [List.length_append, List.length_map, List.length_replicate] at short h
    split at h
    next =>
      split at h
      next nothing =>
        obtain rfl := Except.ok.inj h
        exact nothing.2
      next => cases h
    next => cases h
    next a b =>
      simp only [List.forall_mem_cons] at small
      split at h
      next => cases h
      next whole =>
        split at h
        next => cases h
        next noRest =>
          obtain rfl := Except.ok.inj h
          obtain rfl : k = 2 := by simpa [Nat.add_comm] using whole
          rw [encode_one small.1 small.2.1 (not_not.mp noRest)]
          rfl
    next a b c =>
      simp only [List.forall_mem_cons] at small
      split at h
      next => cases h
      next whole =>
        split at h
        next => cases h
        next noRest =>
          obtain rfl := Except.ok.inj h
          obtain rfl : k = 1 := by simpa [Nat.add_comm] using whole
          rw [encode_two small.1 small.2.1 small.2.2.1 (not_not.mp noRest)]
          rfl
    next a b c d more =>
      simp only [List.forall_mem_cons] at small
      obtain rfl := Except.ok.inj h
      obtain ⟨rfl, rfl⟩ : more = [] ∧ k = 0 := by
        simp only [List.length_cons] at short
        exact ⟨List.length_eq_zero_iff.mp (by omega), by omega⟩
      have whole := encode_octets small.1 small.2.1 small.2.2.1 small.2.2.2.1 []
      rw [List.append_nil] at whole
      exact whole.symm

theorem bind_eq_ok_iff {ε α β : Type} {x : Except ε α} {f : α → Except ε β} {b : β} :
    x >>= f = .ok b ↔ ∃ a, x = .ok a ∧ f a = .ok b := by
  cases x <;> simp [bind, Except.bind]

theorem eq_encode_of_decodeGroups {offset : Nat} (h : decodeGroups offset s = .ok bs) :
    s = encode bs := by
  fun_induction decodeGroups offset s generalizing bs with
  | case1 offset a b c d e rest ih =>
    obtain ⟨na, first, h⟩ := bind_eq_ok_iff.mp h
    obtain ⟨nb, second, h⟩ := bind_eq_ok_iff.mp h
    obtain ⟨nc, third, h⟩ := bind_eq_ok_iff.mp h
    obtain ⟨nd, fourth, h⟩ := bind_eq_ok_iff.mp h
    obtain ⟨tail, later, whole⟩ := bind_eq_ok_iff.mp h
    obtain ⟨ha, rfl⟩ := symbol_of_valueAt first
    obtain ⟨hb, rfl⟩ := symbol_of_valueAt second
    obtain ⟨hc, rfl⟩ := symbol_of_valueAt third
    obtain ⟨hd, rfl⟩ := symbol_of_valueAt fourth
    obtain rfl := Except.ok.inj whole
    rw [encode_octets ha hb hc hd, ih later]
  | case2 offset group short =>
    refine eq_encode_of_decodeLast ?_ h
    match group, short with
    | [], _ | [_], _ | [_, _], _ | [_, _, _], _ | [_, _, _, _], _ => simp
    | a :: b :: c :: d :: e :: rest, short => exact (short a b c d e rest rfl).elim

/-- What is read as octets is what these are written as. -/
theorem eq_encode_of_decode (h : decode s = .ok bs) : s = encode bs := by
  rw [decode] at h
  split at h
  next =>
    split at h
    next => cases h
    next => exact eq_encode_of_decodeGroups h
  next none =>
    obtain rfl := Except.ok.inj h
    exact List.getLast?_eq_none_iff.mp none

/-- The texts that are read as octets are their padded standard spellings. -/
theorem decode_eq_ok_iff {x : String} : decode (ofText x) = .ok bs ↔ Standard bs x.toList := by
  constructor
  · intro read
    obtain ⟨cs, standard⟩ := exists_standard bs
    have same : ofText x = ofText (String.ofList cs) := by
      rw [eq_encode_of_decode read, ofText_ofList_eq, standard.ofChars_eq]
    have inverse := congrArg lossyText same
    rw [lossyText_ofText, lossyText_ofText] at inverse
    rwa [inverse, String.toList_ofList]
  · intro standard
    rw [ofText_eq, standard.ofChars_eq, decode_encode]

/-! ## Texts that are refused -/

/-- What keeps a text from being the padded standard spelling of anything. -/
inductive Flawed (cs : List Char) : Prop
  /-- A character that is no symbol, such as one of another alphabet or white space. -/
  | foreign {c : Char} (mem : c ∈ cs) (noSymbol : c ∉ alphabet) (noPadding : c ≠ '=')
  /-- Symbols or padding too few or too many for whole groups. -/
  | unfinished (length : ¬4 ∣ cs.length)
  /-- Padding in more than two places. -/
  | padded (many : 2 < cs.count '=')
  /-- Something else behind padding. -/
  | behind {pre post : List Char} {c : Char} (text : cs = pre ++ '=' :: c :: post)
      (noPadding : c ≠ '=')
  /-- Bits in the second symbol of the last group that belong to no octet. -/
  | spareSecond {pre : List Char} {c d : Char} {x : Nat} (text : cs = pre ++ [c, d, '=', '='])
      (symbol : IsSymbol d x) (spare : x % 16 ≠ 0)
  /-- Bits in the third symbol of the last group that belong to no octet. -/
  | spareThird {pre : List Char} {c d e : Char} {y : Nat} (text : cs = pre ++ [c, d, e, '='])
      (symbol : IsSymbol e y) (spare : y % 4 ≠ 0)

/-- A last group that is not full, if there is one. -/
inductive Remainder : List Char → Prop
  | none : Remainder []
  | one {c d : Char} {w x : Nat} (first : IsSymbol c w) (second : IsSymbol d x)
      (noSpare : x % 16 = 0) : Remainder [c, d, '=', '=']
  | two {c d e : Char} {w x y : Nat} (first : IsSymbol c w) (second : IsSymbol d x)
      (third : IsSymbol e y) (noSpare : y % 4 = 0) : Remainder [c, d, e, '=']

theorem IsSymbol.mem (h : IsSymbol c n) : c ∈ alphabet := List.mem_of_getElem? h

theorem IsSymbol.ne_padding (h : IsSymbol c n) : c ≠ '=' := by
  have noSymbol : '=' ∉ alphabet := by decide
  rintro rfl
  exact noSymbol h.mem

theorem IsSymbol.unique {m : Nat} (h : IsSymbol c m) (h' : IsSymbol c n) : m = n := by
  obtain ⟨small, rfl⟩ := isSymbol_iff.mp h
  obtain ⟨small', same⟩ := isSymbol_iff.mp h'
  have octet := congrArg Char.toUInt8 same
  rw [toUInt8_ofNat_octet, toUInt8_ofNat_octet] at octet
  have value := (value?_symbol small).1
  rw [octet, (value?_symbol small').1] at value
  exact (Option.some.inj value).symm

/-- A spelling is full groups of symbols and a remainder. -/
theorem Standard.exists_remainder (h : Standard bs cs) : ∃ full rest, cs = full ++ rest ∧
    (∀ c ∈ full, c ∈ alphabet) ∧ 4 ∣ full.length ∧ Remainder rest := by
  induction h with
  | none => exact ⟨[], [], rfl, nofun, by decide, .none⟩
  | @one a c d w x first second bits =>
    exact ⟨[], _, rfl, nofun, by decide, .one first second (by omega)⟩
  | @two a b c d e w x y first second third bits =>
    exact ⟨[], _, rfl, nofun, by decide, .two first second third (by omega)⟩
  | three first second third fourth bits more ih =>
    obtain ⟨full, rest, rfl, symbols, length, remainder⟩ := ih
    refine ⟨_ :: _ :: _ :: _ :: full, rest, rfl, ?_, ?_, remainder⟩
    · simp only [List.forall_mem_cons]
      exact ⟨first.mem, second.mem, third.mem, fourth.mem, symbols⟩
    · simp only [List.length_cons]
      omega

namespace Remainder
variable {rest pre post : List Char}

theorem mem (h : Remainder rest) : ∀ c ∈ rest, c ∈ alphabet ∨ c = '=' := by
  cases h with
  | none => exact nofun
  | one first second => simp [first.mem, second.mem]
  | two first second third => simp [first.mem, second.mem, third.mem]

theorem length (h : Remainder rest) : 4 ∣ rest.length := by
  cases h <;> simp

theorem count_le (h : Remainder rest) : rest.count '=' ≤ 2 := by
  cases h with
  | none => simp
  | one first second => simp [first.ne_padding, second.ne_padding]
  | two first second third => simp [first.ne_padding, second.ne_padding, third.ne_padding]

/-- Behind padding stands padding only. -/
theorem eq_padding (h : Remainder rest) (text : rest = pre ++ '=' :: c :: post) : c = '=' := by
  cases h with
  | none => simp at text
  | one first second =>
    rcases pre with _ | ⟨p, _ | ⟨q, _ | ⟨r, pre⟩⟩⟩
    · exact absurd (List.cons.inj text).1 first.ne_padding
    · exact absurd (List.cons.inj (List.cons.inj text).2).1 second.ne_padding
    · simp at text
      exact text.2.2.1.symm
    · have length := congrArg List.length text
      simp at length
      omega
  | two first second third =>
    rcases pre with _ | ⟨p, _ | ⟨q, _ | ⟨r, pre⟩⟩⟩
    · exact absurd (List.cons.inj text).1 first.ne_padding
    · exact absurd (List.cons.inj (List.cons.inj text).2).1 second.ne_padding
    · exact absurd (List.cons.inj (List.cons.inj (List.cons.inj text).2).2).1 third.ne_padding
    · have length := congrArg List.length text
      simp at length
      omega

end Remainder

/-- A spelling has no flaw. -/
theorem Standard.not_flawed (h : Standard bs cs) : ¬Flawed cs := by
  obtain ⟨full, rest, rfl, symbols, length, remainder⟩ := h.exists_remainder
  have noPadding : '=' ∉ full := fun mem => absurd (symbols _ mem) (by decide)
  intro flawed
  cases flawed with
  | foreign mem noSymbol other =>
    rcases List.mem_append.mp mem with mem | mem
    · exact noSymbol (symbols _ mem)
    · exact (remainder.mem _ mem).elim noSymbol other
  | unfinished broken =>
    rw [List.length_append] at broken
    exact broken (Nat.dvd_add length remainder.length)
  | padded many =>
    rw [List.count_append, List.count_eq_zero.mpr noPadding, Nat.zero_add] at many
    exact absurd remainder.count_le (Nat.not_le_of_lt many)
  | behind text other =>
    rcases List.append_eq_append_iff.mp text with ⟨more, -, last⟩ | ⟨more, rfl, last⟩
    · exact other (remainder.eq_padding last)
    · cases more with
      | nil => exact other (remainder.eq_padding (last.symm.trans (List.nil_append _).symm))
      | cons p more =>
        obtain rfl := (List.cons.inj last).1
        exact noPadding (by simp)
  | spareSecond text symbol spare =>
    cases remainder with
    | none =>
      rw [List.append_nil] at text
      exact noPadding (by simp [text])
    | one first second noSpare =>
      have same := List.append_inj_right' text rfl
      simp only [List.cons.injEq, and_true] at same
      obtain ⟨rfl, rfl⟩ := same
      exact spare (second.unique symbol ▸ noSpare)
    | two first second third =>
      have same := List.append_inj_right' text rfl
      simp only [List.cons.injEq, and_true] at same
      exact third.ne_padding same.2.2
  | spareThird text symbol spare =>
    cases remainder with
    | none =>
      rw [List.append_nil] at text
      exact noPadding (by simp [text])
    | one first second noSpare =>
      have same := List.append_inj_right' text rfl
      simp only [List.cons.injEq, and_true] at same
      exact symbol.ne_padding same.2.2.symm
    | two first second third noSpare =>
      have same := List.append_inj_right' text rfl
      simp only [List.cons.injEq, and_true] at same
      obtain ⟨rfl, rfl, rfl⟩ := same
      exact spare (third.unique symbol ▸ noSpare)

end ObserverRelay.Base64
