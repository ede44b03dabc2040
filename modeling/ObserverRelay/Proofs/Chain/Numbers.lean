import Mathlib.Data.List.Induction
import Mathlib.Data.Nat.Digits.Defs
import Mathlib.Data.String.Basic
import ObserverRelay.Chain.Argument
import ObserverRelay.Proofs.Text.Hexadecimal
/-!
# Numbers and arguments in digits

A number is written in base 256 with as few octets as it needs, and each octet in two digits. So a
number has one text, and numbers are in the order of their texts if shorter texts come before longer
ones. Other arguments are octets in digits as well, so that the sign between pieces is never part of
an argument.

## Main statements

* `unsignedOctets_eq_dropWhile`: the octets of a number are those of a fixed width without the zeros
  in front.
* `canonical_iff`: the only text of a number.
* `precedes_iff`: the order of numbers and of their texts.
* `numbers_canonical`: this, and what it means for arguments.
-/
namespace ObserverRelay.Chain

variable {m n k : Nat} {b : UInt8} {bs : Bytes} {s : String}

/-! ## Octets -/

/-- The lowest octets of a number, the highest of them first. -/
def lowOctets : Nat → Nat → Bytes
  | 0, _ => []
  | k + 1, n => lowOctets k (n / 256) ++ [UInt8.ofNat (n % 256)]

theorem toNat_ofNat_mod (n : Nat) : (UInt8.ofNat (n % 256)).toNat = n % 256 :=
  UInt8.toNat_ofNat_of_lt' (Nat.mod_lt n (by decide))

theorem unsignedOctets_ne_nil (positive : n ≠ 0) : unsignedOctets n ≠ [] := by
  rw [unsignedOctets_of_pos positive]
  exact List.append_ne_nil_of_right_ne_nil _ (List.cons_ne_nil _ _)

/-- The octets of a number are as many as are needed, those of any sufficient width without the
zeros in front. -/
theorem unsignedOctets_eq_dropWhile (fits : n < 256 ^ k) :
    unsignedOctets n = (lowOctets k n).dropWhile (· == 0) := by
  induction k generalizing n with
  | zero =>
    obtain rfl : n = 0 := by simpa using fits
    exact unsignedOctets_zero
  | succ k ih =>
    have front := ih (Nat.div_lt_of_lt_mul (Nat.mul_comm _ 256 ▸ pow_succ 256 k ▸ fits))
    rw [lowOctets, List.dropWhile_append, ← front]
    by_cases zero : n = 0
    · subst zero
      rw [Nat.zero_div, unsignedOctets_zero]
      rfl
    · rw [unsignedOctets_of_pos zero]
      by_cases high : n / 256 = 0
      · -- The last octet is the first one that counts.
        have last : (UInt8.ofNat (n % 256) == 0) = false := by
          rw [beq_eq_false_iff_ne, ne_eq, ← UInt8.toNat_inj, toNat_ofNat_mod, UInt8.toNat_zero]
          omega
        rw [high, unsignedOctets_zero, List.dropWhile_cons_of_neg (by simp [last])]
        rfl
      · rw [if_neg (by simpa using unsignedOctets_ne_nil high)]

theorem unsignedValue_concat (bs : Bytes) (b : UInt8) :
    unsignedValue (bs ++ [b]) = unsignedValue bs * 256 + b.toNat := by
  simp [unsignedValue]

theorem unsignedValue_eq_ofDigits (bs : Bytes) :
    unsignedValue bs = Nat.ofDigits 256 (bs.map UInt8.toNat).reverse := by
  induction bs using List.reverseRecOn with
  | nil => rfl
  | append_singleton bs b ih =>
    rw [unsignedValue_concat, List.map_append, List.map_singleton, List.reverse_concat,
      Nat.ofDigits_cons, ih, Nat.mul_comm, Nat.add_comm]

/-- Octets without a zero in front are those of their number. -/
theorem unsignedOctets_unsignedValue (minimal : bs.head? ≠ some 0) :
    unsignedOctets (unsignedValue bs) = bs := by
  induction bs using List.reverseRecOn with
  | nil => exact unsignedOctets_zero
  | append_singleton bs b ih =>
    have bound := b.toNat_lt
    have front : unsignedOctets (unsignedValue bs) = bs :=
      ih fun zero => minimal (by rw [List.head?_append, zero]; rfl)
    have positive : unsignedValue (bs ++ [b]) ≠ 0 := by
      intro zero
      rw [unsignedValue_concat] at zero
      have low : b = 0 := UInt8.toNat_inj.mp (Nat.eq_zero_of_add_eq_zero_left zero)
      have high : unsignedValue bs = 0 := by omega
      rw [high, unsignedOctets_zero] at front
      rw [← front, low] at minimal
      exact minimal rfl
    have quotient : unsignedValue (bs ++ [b]) / 256 = unsignedValue bs := by
      rw [unsignedValue_concat]
      omega
    have remainder : unsignedValue (bs ++ [b]) % 256 = b.toNat := by
      rw [unsignedValue_concat]
      omega
    rw [unsignedOctets_of_pos positive, quotient, remainder, front, UInt8.ofNat_toNat]

theorem unsignedOctets_eq_iff :
    unsignedOctets n = bs ↔ bs.head? ≠ some 0 ∧ unsignedValue bs = n := by
  constructor
  · rintro rfl
    exact ⟨head?_unsignedOctets_ne_zero n, unsignedValue_unsignedOctets n⟩
  · rintro ⟨minimal, rfl⟩
    exact unsignedOctets_unsignedValue minimal

/-! ## Texts -/

/-- Lower-case digits, an even number of them. -/
structure InPairs (s : String) : Prop where
  even : s.length % 2 = 0
  digits : ∀ c ∈ s.toList, Hex.IsLowerDigit c

/-- Digits in pairs that are a number in base 256, the highest place first and none of them
superfluous. -/
structure Canonical (s : String) (n : Nat) : Prop extends InPairs s where
  noZeros : ¬['0', '0'] <+: s.toList
  value : ∃ bs, Hex.decode s = .ok bs ∧ Nat.ofDigits 256 (bs.map UInt8.toNat).reverse = n

/-- Such digits are what octets are written as. -/
theorem inPairs_iff : InPairs s ↔ ∃ bs, s = Hex.encode bs := by
  have spelled (bs : Bytes) : s = Hex.encode bs ↔ s.toList = Hex.encodeChars bs := by
    rw [← String.toList_inj, Hex.encode, String.toList_ofList]
  simp only [spelled]
  constructor
  · rintro ⟨even, digits⟩
    rw [← String.length_toList] at even
    have length : s.toList.length = 2 * (s.toList.length / 2) := by omega
    obtain ⟨bs, -, same⟩ := Hex.exists_encodeChars_iff.mpr ⟨length, digits⟩
    exact ⟨bs, same⟩
  · rintro ⟨bs, same⟩
    obtain ⟨length, digits⟩ := Hex.exists_encodeChars_iff.mp ⟨bs, rfl, same⟩
    rw [String.length_toList] at length
    exact ⟨by omega, digits⟩

/-- Digits begin with two zeros exactly if the first octet is zero. -/
theorem zeros_prefix_iff : ['0', '0'] <+: Hex.encodeChars bs ↔ bs.head? = some 0 := by
  have zeros : ['0', '0'] = Hex.pair 0 := by decide
  cases bs with
  | nil => simp [zeros, Hex.pair]
  | cons b bs =>
    rw [zeros, Hex.encodeChars_cons, List.head?_cons, Option.some.injEq]
    constructor
    · rintro ⟨rest, same⟩
      have bound := b.toNat_lt
      obtain ⟨first, later⟩ := List.cons.inj (List.append_inj_left same rfl)
      have high := Hex.digitChar_injective (by decide) (by omega) first
      have low := Hex.digitChar_injective (by decide) (by omega) (List.cons.inj later).1
      rw [UInt8.toNat_zero] at high low
      rw [← UInt8.toNat_inj, UInt8.toNat_zero]
      omega
    · rintro rfl
      exact List.prefix_append _ _

/-- A number has one text in canonical form, the one that is written. -/
theorem canonical_iff : Canonical s n ↔ s = encodeUnsigned n := by
  have minimal (bs : Bytes) : ¬['0', '0'] <+: (Hex.encode bs).toList ↔ bs.head? ≠ some 0 := by
    rw [Hex.encode, String.toList_ofList, zeros_prefix_iff]
  constructor
  · rintro ⟨pairs, noZeros, bs, read, value⟩
    obtain ⟨bs', rfl⟩ := inPairs_iff.mp pairs
    obtain rfl := Except.ok.inj ((Hex.decode_encode bs').symm.trans read)
    rw [← unsignedValue_eq_ofDigits] at value
    rw [encodeUnsigned, unsignedOctets_eq_iff.mpr ⟨(minimal _).mp noZeros, value⟩]
  · rintro rfl
    refine ⟨inPairs_iff.mpr ⟨_, rfl⟩, (minimal _).mpr (head?_unsignedOctets_ne_zero n), _,
      Hex.decode_encode _, ?_⟩
    rw [← unsignedValue_eq_ofDigits, unsignedValue_unsignedOctets]

theorem encodeUnsigned_injective : Function.Injective encodeUnsigned := by
  intro m n same
  have read := Hex.decode_encode (unsignedOctets m)
  rw [← encodeUnsigned, same, encodeUnsigned, Hex.decode_encode] at read
  rw [← unsignedValue_unsignedOctets m, ← Except.ok.inj read, unsignedValue_unsignedOctets]

theorem encodeUnsigned_eq_empty_iff : encodeUnsigned n = "" ↔ n = 0 := by
  have zero : encodeUnsigned 0 = "" := by rw [encodeUnsigned, unsignedOctets_zero]; rfl
  rw [← zero]
  exact encodeUnsigned_injective.eq_iff

/-! ## Order -/

/-- A text is shorter than another one, or as long and earlier in the order of characters. -/
def Precedes (s t : String) : Prop := s.length < t.length ∨ s.length = t.length ∧ s < t

theorem Precedes.asymm {t : String} (before : Precedes s t) : ¬Precedes t s := by
  rintro (shorter' | ⟨same', earlier'⟩)
  · obtain shorter | ⟨same, -⟩ := before <;> omega
  · obtain shorter | ⟨-, earlier⟩ := before
    · omega
    · exact String.lt_asymm earlier earlier'

theorem append_lt_append {xs ys : List Char} (less : xs < ys) (length : xs.length = ys.length)
    (us vs : List Char) : xs ++ us < ys ++ vs := by
  induction xs generalizing ys with
  | nil =>
    obtain rfl := List.eq_nil_of_length_eq_zero length.symm
    exact absurd less (List.lt_irrefl [])
  | cons x xs ih =>
    cases ys with
    | nil => cases length
    | cons y ys =>
      rw [List.cons_append, List.cons_append, List.cons_lt_cons_iff]
      obtain first | ⟨same, later⟩ := List.cons_lt_cons_iff.mp less
      · exact .inl first
      · exact .inr ⟨same, ih later (Nat.succ.inj length)⟩

theorem digitChar_lt_digitChar {h l : Nat} (less : h < l) (small : l < 16) :
    Hex.digitChar h < Hex.digitChar l := by
  have all : ∀ l < 16, ∀ h < l, Hex.digitChar h < Hex.digitChar l := by decide +kernel
  exact all l small h less

theorem pair_lt_pair {b c : UInt8} (less : b < c) : Hex.pair b < Hex.pair c := by
  have bound := c.toNat_lt
  have less : b.toNat < c.toNat := UInt8.lt_iff_toNat_lt.mp less
  rw [Hex.pair, Hex.pair, List.cons_lt_cons_iff]
  by_cases high : b.toNat / 16 = c.toNat / 16
  · refine .inr ⟨by rw [high], List.cons_lt_cons_iff.mpr (.inl ?_)⟩
    exact digitChar_lt_digitChar (by omega) (by omega)
  · exact .inl (digitChar_lt_digitChar (by omega) (by omega))

theorem length_encodeUnsigned (n : Nat) :
    (encodeUnsigned n).length = 2 * (unsignedOctets n).length := by
  rw [encodeUnsigned, Hex.encode, String.length_ofList, Hex.length_encodeChars]

theorem precedes_encodeUnsigned_iff : Precedes (encodeUnsigned m) (encodeUnsigned n) ↔
    (unsignedOctets m).length < (unsignedOctets n).length ∨
      (unsignedOctets m).length = (unsignedOctets n).length ∧
        Hex.encodeChars (unsignedOctets m) < Hex.encodeChars (unsignedOctets n) := by
  have order : encodeUnsigned m < encodeUnsigned n ↔
      Hex.encodeChars (unsignedOctets m) < Hex.encodeChars (unsignedOctets n) := by
    rw [String.lt_iff_toList_lt, encodeUnsigned, encodeUnsigned, Hex.encode, Hex.encode,
      String.toList_ofList, String.toList_ofList]
  rw [Precedes, length_encodeUnsigned, length_encodeUnsigned, order,
    Nat.mul_lt_mul_left (by decide), Nat.mul_right_inj (by decide)]

/-- A larger number either differs from a smaller one in the octets before the last, which decide
then, or in the last one alone. -/
theorem precedes_of_lt (less : m < n) : Precedes (encodeUnsigned m) (encodeUnsigned n) := by
  rw [precedes_encodeUnsigned_iff]
  induction n using Nat.strongRecOn generalizing m with
  | ind n ih =>
    have positive : n ≠ 0 := by omega
    by_cases zero : m = 0
    · subst zero
      rw [unsignedOctets_zero]
      exact .inl (List.length_pos_of_ne_nil (unsignedOctets_ne_nil positive))
    · rw [unsignedOctets_of_pos zero, unsignedOctets_of_pos positive]
      simp only [List.length_append, List.length_singleton, Hex.encodeChars_append]
      by_cases front : m / 256 = n / 256
      · have last : UInt8.ofNat (m % 256) < UInt8.ofNat (n % 256) := by
          rw [UInt8.lt_iff_toNat_lt, toNat_ofNat_mod, toNat_ofNat_mod]
          omega
        rw [front]
        exact .inr ⟨rfl, List.append_left_lt (pair_lt_pair last)⟩
      · have smaller : m / 256 < n / 256 := by omega
        obtain shorter | ⟨length, earlier⟩ := ih (n / 256) (by omega) smaller
        · exact .inl (by omega)
        · refine .inr ⟨by rw [length], append_lt_append earlier ?_ _ _⟩
          rw [Hex.length_encodeChars, Hex.length_encodeChars, length]

/-- Numbers are in the order of their texts. -/
theorem precedes_iff : Precedes (encodeUnsigned m) (encodeUnsigned n) ↔ m < n := by
  constructor
  · intro before
    obtain less | rfl | greater := Nat.lt_trichotomy m n
    · exact less
    · exact absurd before before.asymm
    · exact absurd (precedes_of_lt greater) before.asymm
  · exact precedes_of_lt

/-! ## Arguments -/

/-- Every argument is octets in digits. -/
theorem Argument.exists_hex_eq (a : Argument) : ∃ bs, a.hex = Hex.encode bs := by
  cases a with
  | word n => exact ⟨_, rfl⟩
  | big n => exact ⟨_, rfl⟩
  | flag b =>
    cases b with
    | true => exact ⟨[1], by decide⟩
    | false => exact ⟨[], rfl⟩
  | octets bs => exact ⟨bs, rfl⟩
  | text s => exact ⟨_, rfl⟩
  | address a => exact ⟨a.key, rfl⟩

theorem InPairs.not_mem_sign (pairs : InPairs s) : '@' ∉ s.toList :=
  fun mem => absurd (pairs.digits '@' mem) (by decide)

/-- A number has one canonical text, the one that is written, and a number of 128 bits is written as
its sixteen octets without the zeros in front. The text is empty for zero alone, differs for
different numbers, and comes before another one exactly if the number is smaller. A word and an
amount are written alike exactly if they are one number. All arguments are lower-case digits in
pairs, so none holds the sign between pieces. -/
theorem numbers_canonical :
    (∀ n s, Canonical s n ↔ s = encodeUnsigned n) ∧
      (∀ v : Amount, encodeUnsigned v.toNat =
        Hex.encode ((lowOctets 16 v.toNat).dropWhile (· == 0))) ∧
      (∀ n, encodeUnsigned n = "" ↔ n = 0) ∧
      (∀ m n, encodeUnsigned m = encodeUnsigned n ↔ m = n) ∧
      (∀ m n, m < n ↔ Precedes (encodeUnsigned m) (encodeUnsigned n)) ∧
      (∀ (n : UInt64) (v : Amount),
        (Argument.word n).hex = (Argument.big v).hex ↔ n.toNat = v.toNat) ∧
      ∀ a : Argument, InPairs a.hex ∧ '@' ∉ a.hex.toList := by
  refine ⟨fun n s => canonical_iff, fun v => ?_, fun n => encodeUnsigned_eq_empty_iff,
    fun m n => encodeUnsigned_injective.eq_iff, fun m n => precedes_iff.symm,
    fun n v => encodeUnsigned_injective.eq_iff, fun a => ?_⟩
  · have fits : v.toNat < 256 ^ 16 := v.toNat_lt
    rw [encodeUnsigned, unsignedOctets_eq_dropWhile fits]
  · have pairs := inPairs_iff.mpr a.exists_hex_eq
    exact ⟨pairs, pairs.not_mem_sign⟩

end ObserverRelay.Chain
