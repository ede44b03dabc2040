import ObserverRelay.Chain.Address
import ObserverRelay.Proofs.Text.Hexadecimal
import ObserverRelay.Proofs.Text.Trimming
/-!
# Which names and keys are addresses

An address is made of a name that is not blank and of a key of 64 hexadecimal digits in either case.
The name is kept as it is, and the key is written in lower case. Of several faults the first one
counts, and a fault of the key counts before one of the name.

## Main statements

* `ofHex_eq_ok_iff`, `exists_ofHex_iff`: which address is made, and of what.
* `ofHex_eq_error_iff`: what everything else is refused for.
* `addresses_exact`: this, and that an address is made again of what it shows of itself.
-/
namespace ObserverRelay.Chain.Address

variable {a b : Address} {name digits : String} {key : Bytes} {fault : AddressFault}

/-- The text of a key: 64 hexadecimal digits of either case. -/
structure IsKey (digits : String) : Prop where
  length : digits.toList.length = 64
  digits : ∀ c ∈ digits.toList, Hex.IsDigit c

/-- A name in which something can be seen. -/
def IsName (name : String) : Prop := ∃ c ∈ name.toList, Text.isBlank c = false

/-- A fault of name and key, everything that is looked at before it being in order. -/
inductive FirstFault (name digits : String) : AddressFault → Prop
  | notHex {refusal : Hex.Refusal} (flaw : Hex.Flaw (Bytes.ofText digits) refusal) :
      FirstFault name digits (.notHex digits refusal)
  | wrongLength {octets : Nat} (length : digits.toList.length = 2 * octets)
      (hex : ∀ c ∈ digits.toList, Hex.IsDigit c) (other : octets ≠ 32) :
      FirstFault name digits (.wrongLength octets)
  | blankName (key : IsKey digits) (blank : ∀ c ∈ name.toList, Text.isBlank c = true) :
      FirstFault name digits .blankName

theorem isName_iff : IsName name ↔ Text.trim name ≠ "" := by
  rw [ne_eq, Text.trim_eq_empty_iff]
  simp [IsName]

/-- The parts of an address make it, and no other parts do. -/
theorem new_eq_ok_iff : new name key = .ok a ↔ a.bech32 = name ∧ a.key = key := by
  constructor
  · intro made
    rw [new] at made
    split at made
    next =>
      split at made
      next => cases made
      next => cases made; exact ⟨rfl, rfl⟩
    next => cases made
  · rintro ⟨rfl, rfl⟩
    rw [new, dif_pos a.key_length, dif_neg a.named]

/-- An address is made of its name and of the digits that are those of its key in lower case. -/
theorem ofHex_eq_ok_iff :
    ofHex name digits = .ok a ↔ a.bech32 = name ∧ a.hex = Text.asciiLower digits := by
  have read : Hex.decode digits = .ok a.key ↔ a.hex = Text.asciiLower digits := by
    rw [Hex.decode_eq_ok_iff, hex, eq_comm]
  rw [← read, ofHex]
  cases decoded : Hex.decode digits with
  | error refusal => simp
  | ok key => simp only [new_eq_ok_iff, Except.ok.injEq, eq_comm (a := key)]

theorem isKey_iff : IsKey digits ↔ ∃ key, key.length = 32 ∧ Hex.decode digits = .ok key := by
  rw [Hex.exists_decode_iff]
  exact ⟨fun key => ⟨key.length, key.digits⟩, fun key => ⟨key.1, key.2⟩⟩

theorem exists_ofHex_of (key : IsKey digits) (shown : IsName name) :
    ∃ a, ofHex name digits = .ok a := by
  obtain ⟨octets, length, decoded⟩ := isKey_iff.mp key
  refine ⟨⟨name, octets, isName_iff.mp shown, length⟩, ?_⟩
  rw [ofHex, decoded]
  exact new_eq_ok_iff.mpr ⟨rfl, rfl⟩

theorem exists_ofHex_iff : (∃ a, ofHex name digits = .ok a) ↔ IsKey digits ∧ IsName name := by
  constructor
  · rintro ⟨a, made⟩
    obtain ⟨rfl, same⟩ := ofHex_eq_ok_iff.mp made
    have decoded := Hex.decode_eq_ok_iff.mpr same.symm
    exact ⟨isKey_iff.mpr ⟨a.key, a.key_length, decoded⟩, isName_iff.mpr a.named⟩
  · exact fun ⟨key, shown⟩ => exists_ofHex_of key shown

/-! ## Faults -/

theorem FirstFault.ofHex (first : FirstFault name digits fault) :
    ofHex name digits = .error fault := by
  cases first with
  | notHex flaw => rw [Address.ofHex, Hex.decode_eq_error_iff.mpr flaw]
  | wrongLength length hex other =>
    obtain ⟨key, rfl, decoded⟩ := Hex.exists_decode_iff.mpr ⟨length, hex⟩
    simp only [Address.ofHex, decoded, new, dif_neg other]
  | blankName key blank =>
    obtain ⟨octets, length, decoded⟩ := isKey_iff.mp key
    simp only [Address.ofHex, decoded, new, dif_pos length,
      dif_pos (Text.trim_eq_empty_iff.mpr blank)]

theorem made_or_fault (name digits : String) :
    (IsKey digits ∧ IsName name) ∨ ∃ fault, FirstFault name digits fault := by
  cases decoded : Hex.decode digits with
  | error refusal => exact .inr ⟨_, .notHex (Hex.decode_eq_error_iff.mp decoded)⟩
  | ok octets =>
    by_cases length : octets.length = 32
    · have key := isKey_iff.mpr ⟨octets, length, decoded⟩
      by_cases shown : IsName name
      · exact .inl ⟨key, shown⟩
      · rw [isName_iff, not_not, Text.trim_eq_empty_iff] at shown
        exact .inr ⟨_, .blankName key shown⟩
    · obtain ⟨double, hex⟩ := Hex.exists_decode_iff.mp ⟨octets, rfl, decoded⟩
      exact .inr ⟨_, .wrongLength double hex length⟩

theorem ofHex_eq_error_iff : ofHex name digits = .error fault ↔ FirstFault name digits fault := by
  constructor
  · intro refused
    obtain ⟨key, shown⟩ | ⟨fault', first⟩ := made_or_fault name digits
    · obtain ⟨a, made⟩ := exists_ofHex_of key shown
      cases made.symm.trans refused
    · cases first.ofHex.symm.trans refused
      exact first
  · exact FirstFault.ofHex

/-! ## Addresses -/

/-- An address is made again of its name and the digits of its key. -/
theorem ofHex_hex (a : Address) : ofHex a.bech32 a.hex = .ok a := by
  rw [ofHex, hex, Hex.decode_encode]
  exact new_eq_ok_iff.mpr ⟨rfl, rfl⟩

theorem eq_iff : a = b ↔ a.bech32 = b.bech32 ∧ a.hex = b.hex := by
  constructor
  · rintro rfl
    exact ⟨rfl, rfl⟩
  · rintro ⟨name, digits⟩
    have made := ofHex_hex a
    rw [name, digits, ofHex_hex] at made
    exact (Except.ok.inj made).symm

/-- A name and a text make an address exactly if the text is 64 hexadecimal digits and the name is
not blank. The address shows the name as it was given and the digits in lower case; it is made again
of both, and so is equal to another one exactly if both parts are. All other names and texts are
refused as no address, for their first fault. -/
theorem addresses_exact (name digits : String) :
    ((∃ a, ofHex name digits = .ok a) ↔ IsKey digits ∧ IsName name) ∧
      (∀ a, ofHex name digits = .ok a ↔
        a.bech32 = name ∧ a.text = name ∧ a.hex = Text.asciiLower digits) ∧
      (∀ a : Address, ofHex a.bech32 a.hex = .ok a) ∧
      (∀ a b : Address, a = b ↔ a.bech32 = b.bech32 ∧ a.hex = b.hex) ∧
      ∀ fault, (ofHex name digits = .error fault ↔ FirstFault name digits fault) ∧
        fault.message = "invalid address: " ++ fault.reason := by
  refine ⟨exists_ofHex_iff, fun a => ?_, ofHex_hex, fun a b => eq_iff, fun fault => ?_⟩
  · rw [ofHex_eq_ok_iff]
    exact ⟨fun ⟨shown, key⟩ => ⟨shown, shown, key⟩, fun ⟨shown, _, key⟩ => ⟨shown, key⟩⟩
  · exact ⟨ofHex_eq_error_iff, rfl⟩

/-- Of a blank name and three letters that are no digits, the first fault is that they are three. -/
example : ofHex " " "xyz" = .error (.notHex "xyz" .oddLength) := by decide +kernel

end ObserverRelay.Chain.Address
