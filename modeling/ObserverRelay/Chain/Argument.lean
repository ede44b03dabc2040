import ObserverRelay.Chain.Address
import ObserverRelay.Chain.Amount
/-!
# Arguments of contracts and token transfers

Arguments travel as hexadecimal digits between `@` signs. A number is written with as few
octets as it needs, so zero is the empty text.
-/
namespace ObserverRelay.Chain

/-- The octets of a number, the highest first and none of them superfluous. -/
def unsignedOctets (n : Nat) : Bytes :=
  if n = 0 then [] else unsignedOctets (n / 256) ++ [UInt8.ofNat (n % 256)]

/-- The number that octets are, the highest octet first. -/
def unsignedValue (bs : Bytes) : Nat := bs.foldl (fun n b => n * 256 + b.toNat) 0

/-- The octets of a number are that number. -/
@[simp] theorem unsignedValue_unsignedOctets (n : Nat) :
    unsignedValue (unsignedOctets n) = n := by
  fun_induction unsignedOctets n with
  | case1 => rfl
  | case2 n hn ih =>
    simp only [unsignedValue, List.foldl_append, List.foldl_cons, List.foldl_nil] at ih ⊢
    rw [ih, UInt8.toNat_ofNat_of_lt' (by simp [UInt8.size]; omega)]
    omega

theorem unsignedOctets_zero : unsignedOctets 0 = [] := by
  rw [unsignedOctets, if_pos rfl]

theorem unsignedOctets_of_pos {n : Nat} (h : n ≠ 0) :
    unsignedOctets n = unsignedOctets (n / 256) ++ [UInt8.ofNat (n % 256)] := by
  rw [unsignedOctets, if_neg h]

/-- No octet of a number is superfluous: the first one is not zero. -/
theorem head?_unsignedOctets_ne_zero (n : Nat) : (unsignedOctets n).head? ≠ some 0 := by
  induction n using Nat.strongRecOn with
  | ind n ih =>
    by_cases hn : n = 0
    · simp [hn, unsignedOctets_zero]
    · rw [unsignedOctets_of_pos hn]
      by_cases hq : n / 256 = 0
      · rw [hq, unsignedOctets_zero]
        intro h
        have h := congrArg UInt8.toNat (Option.some.inj h)
        rw [UInt8.toNat_ofNat_of_lt' (by simp [UInt8.size]; omega)] at h
        exact hn (by simp only [UInt8.toNat_zero] at h; omega)
      · have hne : unsignedOctets (n / 256) ≠ [] := by
          rw [unsignedOctets_of_pos hq]; simp
        obtain ⟨b, bs, hb⟩ := List.exists_cons_of_ne_nil hne
        have := ih (n / 256) (by omega)
        rw [hb] at this ⊢
        exact this

/-- A number in hexadecimal digits, two for each octet it needs. -/
def encodeUnsigned (n : Nat) : String := Hex.encode (unsignedOctets n)

/-- An argument of a contract. -/
inductive Argument
  | word (n : UInt64)
  | big (n : Amount)
  | flag (b : Bool)
  | octets (bs : Bytes)
  | text (s : String)
  | address (a : Address)
  deriving DecidableEq

/-- An argument in hexadecimal digits. -/
def Argument.hex : Argument → String
  | word n => encodeUnsigned n.toNat
  | big n => encodeUnsigned n.toNat
  | flag b => if b then "01" else ""
  | octets bs => Hex.encode bs
  | text s => Hex.encode (Bytes.ofText s)
  | address a => a.hex

/-- The identifier under which native currency travels among tokens. -/
def nativeToken : String := "EGLD-000000"

/-- An amount of a token. The nonce tells apart the items of one collection and is zero for
tokens whose units are all alike. -/
structure Transfer where
  token : String
  nonce : UInt64
  amount : Amount
  deriving DecidableEq, Repr

namespace Transfer

/-- An amount of a token whose units are all alike. -/
def fungible (token : String) (amount : Amount) : Transfer := ⟨token, 0, amount⟩

/-- An amount of native currency. -/
def native (amount : Amount) : Transfer := fungible nativeToken amount

/-- Whether all units of the token are alike. -/
def isFungible (t : Transfer) : Bool := t.nonce == 0

end Transfer

end ObserverRelay.Chain
