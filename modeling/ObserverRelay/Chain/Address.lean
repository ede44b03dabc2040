import ObserverRelay.Text.Blank
import ObserverRelay.Text.Hex
import ObserverRelay.Text.Quoted
/-!
# Addresses

An account has a name in bech32 and a public key of 32 octets. The name is kept as it was
given; it is not derived from the key.
-/
namespace ObserverRelay.Chain

/-- An account's address: its name in bech32, which is never blank, and its public key. -/
structure Address where
  bech32 : String
  key : Bytes
  named : Text.trim bech32 ≠ ""
  key_length : key.length = 32

/-- Why a name and a key make no address. -/
inductive AddressFault
  /-- The text of the key is not hexadecimal. -/
  | notHex (text : String) (refusal : Hex.Refusal)
  /-- The key has another length than 32 octets. -/
  | wrongLength (octets : Nat)
  /-- The name is blank. -/
  | blankName
  deriving DecidableEq, Repr

/-- The wording of a refusal to read hexadecimal digits. An octet is shown as the character
of its number. -/
def hexRefusalMessage : Hex.Refusal → String
  | .oddLength => "Odd number of digits"
  | .badDigit b i =>
    "Invalid character " ++ Text.quotedChar (Char.ofNat b.toNat) ++ " at position " ++ toString i

/-- What is wrong with the parts of an address. -/
def AddressFault.reason : AddressFault → String
  | .notHex text refusal => text ++ ": " ++ hexRefusalMessage refusal
  | .wrongLength n => "expected 32 bytes, got " ++ toString n
  | .blankName => "empty bech32 string"

/-- The wording of a fault in an address. -/
def AddressFault.message (f : AddressFault) : String := "invalid address: " ++ f.reason

namespace Address

@[ext] theorem ext {a b : Address} (name : a.bech32 = b.bech32) (key : a.key = b.key) : a = b := by
  cases a; cases b; cases name; cases key; rfl

instance : DecidableEq Address := fun a b =>
  decidable_of_iff (a.bech32 = b.bech32 ∧ a.key = b.key)
    ⟨fun h => ext h.1 h.2, fun h => h ▸ ⟨rfl, rfl⟩⟩

/-- The address of a name and a key. The key is judged first. -/
def new (bech32 : String) (key : Bytes) : Except AddressFault Address :=
  if hk : key.length = 32 then
    if hn : Text.trim bech32 = "" then .error .blankName else .ok ⟨bech32, key, hn, hk⟩
  else .error (.wrongLength key.length)

/-- The address of a name and the hexadecimal digits of a key. -/
def ofHex (bech32 digits : String) : Except AddressFault Address :=
  match Hex.decode digits with
  | .error refusal => .error (.notHex digits refusal)
  | .ok key => new bech32 key

/-- The key in lower-case hexadecimal digits. -/
def hex (a : Address) : String := Hex.encode a.key

/-- The address as text: its name, as it was given. -/
def text (a : Address) : String := a.bech32

/-- The receiver of new contracts, whose key is all zeros. -/
def deployTarget : Address where
  bech32 := "erd1qqqqqqqqqqqqqqqqqqqqqqqqqqqqqqqqqqqqqqqqqqqqqqqqqqqq6gq4hu"
  key := List.replicate 32 0
  named := by decide +kernel
  key_length := by decide

end Address

end ObserverRelay.Chain
