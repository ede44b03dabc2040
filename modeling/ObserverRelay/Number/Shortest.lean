import ObserverRelay.Number.Binary64
/-!
# The fewest digits that read back

Around every number lies the interval of the reals that round to it; its ends belong to it
exactly when the significand is even. The shortest decimal of the interval, and of equally
short ones the nearest to the number, is the number's decimal form.
-/
namespace ObserverRelay

/-- A decimal `digits · 10 ^ exponent`. -/
structure Decimal where
  digits : Nat
  exponent : Int
  deriving DecidableEq, Repr

namespace Binary64

/-- The interval of a number, and the number itself, in quarter units: lower end, number,
upper end. The interval below a power of two is half as wide. -/
def quarterBounds (x : Binary64) : Nat × Nat × Nat :=
  let m := x.significand * 4
  let below := if x.significand = significandBound / 2 ∧ 0 < x.scale then 1 else 2
  ((m - below) <<< x.scale, m <<< x.scale, (m + 2) <<< x.scale)

/-- Whether `digits · 10 ^ exponent` lies in the interval of the number. -/
def roundsTo (x : Binary64) (d : Decimal) : Bool :=
  let (lower, _, upper) := x.quarterBounds
  let quarters := 4 * unitsPerOne
  let up := if 0 ≤ d.exponent then tenTo d.exponent.toNat else 1
  let down := if 0 ≤ d.exponent then 1 else tenTo (-d.exponent).toNat
  let point := d.digits * up * quarters
  let lo := lower * down
  let hi := upper * down
  if x.significand % 2 = 0 then decide (lo ≤ point) && decide (point ≤ hi)
  else decide (lo < point) && decide (point < hi)

/-- The two neighbours of a number on the grid of multiples of `10 ^ exponent`, the nearer
one first, the even one at a tie. -/
def neighbours (x : Binary64) (exponent : Int) : List Decimal :=
  let num := x.units * (if 0 ≤ exponent then 1 else tenTo (-exponent).toNat)
  let den := unitsPerOne * (if 0 ≤ exponent then tenTo exponent.toNat else 1)
  let k := num / den
  let r := num % den
  if 2 * r < den ∨ (2 * r = den ∧ k % 2 = 0) then [⟨k, exponent⟩, ⟨k + 1, exponent⟩]
  else [⟨k + 1, exponent⟩, ⟨k, exponent⟩]

/-- The number of decimal digits of a natural number other than zero. -/
def digitCount (n : Nat) : Nat := (Nat.toDigits 10 n).length

/-- The exponent of the leading decimal digit of a number other than zero. -/
def leadingExponent (x : Binary64) : Int :=
  if unitsPerOne ≤ x.units then (digitCount (x.units / unitsPerOne) : Int) - 1
  else
    let inverse := (unitsPerOne + x.units - 1) / x.units
    let guess := digitCount inverse
    if unitsPerOne ≤ x.units * tenTo (guess - 1) then -((guess : Int) - 1) else -(guess : Int)

/-- The first decimal that reads back, on grids of ever more digits. -/
def firstHit (x : Binary64) (lead : Int) : (grids : Nat) → (digits : Nat) → Decimal
  | 0, digits => (neighbours x (lead - digits)).headD ⟨0, 0⟩
  | grids + 1, digits =>
    match (neighbours x (lead - digits)).find? x.roundsTo with
    | some d => d
    | none => firstHit x lead grids (digits + 1)

/-- The shortest decimal of the magnitude of a number other than zero. Seventeen digits
always suffice. -/
def shortest (x : Binary64) : Decimal := firstHit x x.leadingExponent 17 0

end Binary64

namespace Decimal

/-- The decimal without trailing zeros in its digits. -/
def trimZeros (fuel : Nat) (d : Decimal) : Decimal :=
  match fuel with
  | 0 => d
  | fuel + 1 =>
    if d.digits ≠ 0 ∧ d.digits % 10 = 0 then trimZeros fuel ⟨d.digits / 10, d.exponent + 1⟩ else d

end Decimal

/-- How a decimal is laid out: positional while its point lies within these bounds of the
first digit, and else with an exponent. -/
structure DecimalLayout where
  /-- The point may stand at most this many places before the first digit. -/
  maxLeadingZeros : Nat
  /-- The point may stand at most this many places after the first digit. -/
  maxWholeDigits : Nat

/-- The layout of numbers in documents: `0.00001` and `1000000000000000.0` are the last ones
written positionally. -/
def DecimalLayout.document : DecimalLayout := ⟨4, 16⟩

/-- The characters of a decimal. Positional numbers have a point and a digit after it; an
exponent has a sign. -/
def DecimalLayout.write (layout : DecimalLayout) (d : Decimal) : List Char :=
  let digits := Nat.toDigits 10 d.digits
  let point : Int := digits.length + d.exponent
  if 0 ≤ d.exponent ∧ point ≤ layout.maxWholeDigits then
    digits ++ List.replicate d.exponent.toNat '0' ++ ['.', '0']
  else if 0 < point ∧ point ≤ layout.maxWholeDigits then
    digits.take point.toNat ++ ['.'] ++ digits.drop point.toNat
  else if -(layout.maxLeadingZeros : Int) ≤ point ∧ point ≤ 0 then
    ['0', '.'] ++ List.replicate (-point).toNat '0' ++ digits
  else
    let e := point - 1
    let mark := if e < 0 then ['e', '-'] else ['e', '+']
    let mantissa := match digits with
      | [] => []
      | [c] => [c]
      | c :: cs => c :: '.' :: cs
    mantissa ++ mark ++ Nat.toDigits 10 e.natAbs

/-- The characters of a number in a document. -/
def Binary64.write (x : Binary64) : List Char :=
  let sign := if x.negative then ['-'] else []
  if x.isZero then sign ++ ['0', '.', '0']
  else sign ++ DecimalLayout.document.write (x.shortest.trimZeros 20)

end ObserverRelay
