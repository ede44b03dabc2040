import ObserverRelay.Text.Numeral
/-!
# Amounts

Amounts of native currency and of tokens, in the smallest unit: natural numbers of 128 bits.
-/
namespace ObserverRelay.Chain

/-- A natural number of 128 bits. -/
structure Amount where
  toNat : Nat
  toNat_lt : toNat < Numeral.bound128
  deriving DecidableEq, Repr

namespace Amount

@[ext] theorem ext {a b : Amount} (h : a.toNat = b.toNat) : a = b := by
  cases a; cases b; cases h; rfl

/-- Nothing. -/
def zero : Amount := ⟨0, by decide⟩

/-- The number as an amount, if it has no more than 128 bits. -/
def ofNat? (n : Nat) : Option Amount :=
  if h : n < Numeral.bound128 then some ⟨n, h⟩ else none

@[simp] theorem ofNat?_toNat (a : Amount) : ofNat? a.toNat = some a := by
  simp [ofNat?, a.toNat_lt]

/-- The amount in decimal digits. -/
def text (a : Amount) : String := String.ofList (Nat.toDigits 10 a.toNat)

/-- The amount that a text names in decimal digits. -/
def read (s : String) : Except Numeral.Refusal Amount :=
  match Numeral.read Numeral.bound128 s with
  | .error e => .error e
  | .ok n =>
    match ofNat? n with
    | some a => .ok a
    | none => .error .tooLarge

/-- An amount is read back from its digits. -/
@[simp] theorem read_text (a : Amount) : read a.text = .ok a := by
  simp [read, text, Numeral.read_toDigits a.toNat_lt]

end Amount

end ObserverRelay.Chain
