import ObserverRelay.Proofs.Chain.Readings
import ObserverRelay.Proofs.Text.Numerals
import ObserverRelay.Proofs.Text.Symbols
/-!
# The languages of data and of amounts

Data is read from its padded standard spelling in base64 and from no other string, so it is written
again as it was read. An amount is read from the numerals that name it, with or without a plus sign
and with any zeros in front; it is written in digits alone, without either.

## Main statements

* `fromValue_dataDecoder_iff`, `fromValue_amountDecoder_iff`: the strings that are read.
* `readsData_and_readsAmount`: the two languages, and what becomes of a string that is read.
-/
namespace ObserverRelay.Chain

open Json

variable {s : String} {data : Bytes} {a : Amount}

namespace Amount

theorem ofNat?_eq_some_iff {n : Nat} : ofNat? n = some a ↔ a.toNat = n := by
  constructor
  · intro fits
    rw [ofNat?] at fits
    split at fits
    next => rw [← Option.some.inj fits]
    next => cases fits
  · rintro rfl
    exact ofNat?_toNat a

/-- An amount is read from each text that names it. -/
theorem read_eq_ok_iff : read s = .ok a ↔ Numeral.Names s a.toNat := by
  have positive : 0 < Numeral.bound128 := by decide
  rw [read]
  constructor
  · intro taken
    split at taken
    next => cases taken
    next n named =>
      split at taken
      next b fits =>
        obtain rfl := Except.ok.inj taken
        rw [ofNat?_eq_some_iff.mp fits]
        exact ((Numeral.read_eq_ok_iff positive).mp named).1
      next => cases taken
  · intro names
    simp only [(Numeral.read_eq_ok_iff positive).mpr ⟨names, a.toNat_lt⟩, ofNat?_toNat]

end Amount

namespace Transaction

theorem mapError_eq_ok_iff {ε ε' α : Type} {f : ε → ε'} {x : Except ε α} {a : α} :
    x.mapError f = .ok a ↔ x = .ok a := by
  cases x <;> simp [Except.mapError]

/-! ## Data -/

theorem fromValue_dataDecoder_iff :
    dataDecoder.fromValue (.string s) = .ok data ↔ Base64.Standard data s.toList := by
  rw [dataDecoder, Decoder.fromValue_refine_iff]
  simp only [Decoder.string, mapError_eq_ok_iff, Except.ok.injEq, exists_eq_left',
    Base64.decode_eq_ok_iff]

/-- Data is written as the string that it is read from. -/
theorem lossyText_encode_of_fromValue (read : dataDecoder.fromValue (.string s) = .ok data) :
    Bytes.lossyText (Base64.encode data) = s := by
  have standard := fromValue_dataDecoder_iff.mp read
  rw [← standard.ofChars_eq, ← Bytes.ofText_eq, Bytes.lossyText_ofText]

/-- What the decoder of data makes of a string. -/
structure ReadsData (s : String) : Prop where
  exact : ∀ data, dataDecoder.fromValue (.string s) = .ok data ↔ Base64.Standard data s.toList
  refused : Base64.Flawed s.toList → ∃ cause, dataDecoder.fromValue (.string s) = .error cause
  written : ∀ data, dataDecoder.fromValue (.string s) = .ok data →
    Bytes.lossyText (Base64.encode data) = s ∧
      dataMember data = if data = [] then [] else [("data", .string s)]
  unique : ∀ data t, dataDecoder.fromValue (.string s) = .ok data →
    dataDecoder.fromValue (.string t) = .ok data → s = t
  /-- The same from each text of the string. -/
  text : ∀ body, Spells TextAt body (.string s) → ∀ data,
    dataDecoder.parse body = .ok data ↔ dataDecoder.fromValue (.string s) = .ok data

theorem readsData (s : String) : ReadsData s where
  exact data := fromValue_dataDecoder_iff
  refused flawed := by
    cases read : dataDecoder.fromValue (.string s) with
    | ok data => exact absurd flawed (fromValue_dataDecoder_iff.mp read).not_flawed
    | error cause => exact ⟨cause, rfl⟩
  written data read := by
    have same := lossyText_encode_of_fromValue read
    exact ⟨same, by rw [dataMember, same]⟩
  unique data t read read' := by
    rw [← lossyText_encode_of_fromValue read, lossyText_encode_of_fromValue read']
  text body spelled data := (agrees_dataDecoder maxDepth _).parse_iff spelled (.string s)

/-! ## Amounts -/

theorem fromValue_amountDecoder_iff :
    amountDecoder.fromValue (.string s) = .ok a ↔ Numeral.Names s a.toNat := by
  rw [amountDecoder, Decoder.fromValue_refine_iff]
  simp only [Decoder.string, mapError_eq_ok_iff, Except.ok.injEq, exists_eq_left',
    Amount.read_eq_ok_iff]

/-- What the decoder of amounts makes of a string. -/
structure ReadsAmount (s : String) : Prop where
  exact : ∀ n, (∃ a, amountDecoder.fromValue (.string s) = .ok a ∧ a.toNat = n) ↔
    Numeral.Names s n ∧ n < 2 ^ 128
  written : ∀ a, amountDecoder.fromValue (.string s) = .ok a →
    Numeral.Canonical a.text.toList a.toNat
  /-- The same from each text of the string. -/
  text : ∀ body, Spells TextAt body (.string s) → ∀ a,
    amountDecoder.parse body = .ok a ↔ amountDecoder.fromValue (.string s) = .ok a

theorem readsAmount (s : String) : ReadsAmount s where
  exact n := by
    constructor
    · rintro ⟨a, read, rfl⟩
      exact ⟨fromValue_amountDecoder_iff.mp read, a.toNat_lt⟩
    · rintro ⟨names, small⟩
      exact ⟨⟨n, small⟩, fromValue_amountDecoder_iff.mpr names, rfl⟩
  written a _ := by
    rw [Amount.text, String.toList_ofList]
    exact Numeral.canonical_toDigits a.toNat
  text body spelled a := (agrees_amountDecoder maxDepth _).parse_iff spelled (.string s)

/-- A string is read as data exactly if it is the padded standard base64 of the data, and as an
amount exactly if it names the amount, a number below 2¹²⁸, in digits that may follow a plus sign.
Data is written again as the string it was read from, which is the only one; an amount is written
in digits without sign or zeros in front. -/
theorem readsData_and_readsAmount (s : String) : ReadsData s ∧ ReadsAmount s :=
  ⟨readsData s, readsAmount s⟩

end Transaction

end ObserverRelay.Chain
