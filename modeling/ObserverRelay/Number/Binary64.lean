/-!
# Binary numbers of double precision

A finite number is a sign and a magnitude `significand · 2 ^ scale / 2 ^ 1074`, with a
significand below `2 ^ 53` that is at least `2 ^ 52` unless the scale is zero, and a scale of
at most 2045. Products and quotients are formed exactly and rounded once, to the nearest
number, a tie to the even significand.
-/
namespace ObserverRelay

/-- Ten to a power. -/
def tenTo (k : Nat) : Nat := Nat.pow 10 k

/-- A finite binary number of double precision. -/
structure Binary64 where
  negative : Bool
  significand : Nat
  scale : Nat
  deriving DecidableEq, Repr

namespace Binary64

/-- One more than the largest significand. -/
def significandBound : Nat := 0x20000000000000

/-- The largest scale of a finite number. -/
def maxScale : Nat := 2045

/-- The magnitude is counted in units of `1 / unitsPerOne`. -/
def unitsPerOne : Nat := 1 <<< 1074

/-- The quotient rounded to the nearest natural number, a tie to the even one. -/
def divEven (num den : Nat) : Nat :=
  let q := num / den
  let r := num % den
  if 2 * r < den then q
  else if den < 2 * r then q + 1
  else if q % 2 = 0 then q else q + 1

/-- The number nearest to `num / den`, or `none` when that is past the largest one. -/
def ofRatio? (negative : Bool) (num den : Nat) : Option Binary64 :=
  let units := num * unitsPerOne
  let scale := Nat.log2 (units / den) + 1 - 53
  let m := divEven units (den <<< scale)
  let rounded : Binary64 :=
    if m = significandBound then ⟨negative, m / 2, scale + 1⟩ else ⟨negative, m, scale⟩
  if rounded.scale ≤ maxScale then some rounded else none

/-- Zero, of either sign. -/
def zero (negative : Bool) : Binary64 := ⟨negative, 0, 0⟩

/-- Whether the number is zero, of either sign. -/
def isZero (x : Binary64) : Bool := x.significand == 0

/-- The magnitude in units. -/
def units (x : Binary64) : Nat := x.significand <<< x.scale

/-- The number with the opposite sign. -/
def negate (x : Binary64) : Binary64 := { x with negative := !x.negative }

/-- The magnitude's product, or `none` when it is past the largest number. -/
def mul? (x y : Binary64) : Option Binary64 :=
  ofRatio? (x.negative != y.negative) (x.units * y.units) (unitsPerOne * unitsPerOne)

/-- The quotient by a number other than zero. -/
def div? (x y : Binary64) : Option Binary64 :=
  ofRatio? (x.negative != y.negative) x.units y.units

/-- The natural number rounded; those of 64 bits always fit. -/
def ofNat (n : Nat) : Binary64 := (ofRatio? false n 1).getD (zero false)

/-- The power of ten rounded; exponents up to 308 fit. -/
def powerOfTen (k : Nat) : Binary64 := ofNat (tenTo k)

end Binary64

end ObserverRelay
