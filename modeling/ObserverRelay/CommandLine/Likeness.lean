/-!
# Likeness of words

How alike two words are, on a scale from zero to one, by the measure of Jaro: characters match
if they are equal and not farther apart than half the longer word, and those that match in
another order count less. The measure is kept as a fraction.
-/
namespace ObserverRelay.CommandLine

/-- A number from zero to one as a fraction. -/
structure Likeness where
  numerator : Nat
  denominator : Nat
  deriving DecidableEq, Repr

namespace Likeness

/-- Not alike at all. -/
def none : Likeness := ⟨0, 1⟩

/-- Alike in everything. -/
def full : Likeness := ⟨1, 1⟩

/-- Whether one likeness is at least another one. -/
def atLeast (x y : Likeness) : Bool := y.numerator * x.denominator ≤ x.numerator * y.denominator

/-- Whether a likeness is above a number of tenths. -/
def aboveTenths (x : Likeness) (n : Nat) : Bool := n * x.denominator < 10 * x.numerator

/-- The place in a word at which a character finds its match: the first one in reach that is
still free. -/
def match? (word : List Char) (reach : Nat) (taken : List Nat) (i : Nat) (c : Char) : Option Nat :=
  (List.range word.length).find? fun j =>
    i ≤ j + reach && j ≤ i + reach && word[j]? == some c && !taken.contains j

/-- The characters of a word that find a match in another, and the places of the matches in
the order of finding. -/
def pairUp (word : List Char) (reach : Nat) :
    (i : Nat) → (taken : List Nat) → List Char → List Char × List Nat
  | _, taken, [] => ([], taken)
  | i, taken, c :: rest =>
    match match? word reach taken i c with
    | .none => pairUp word reach (i + 1) taken rest
    | some j =>
      let (cs, all) := pairUp word reach (i + 1) (taken ++ [j]) rest
      (c :: cs, all)

/-- The likeness of two words. -/
def of (a b : List Char) : Likeness :=
  if a = [] ∧ b = [] then full
  else
    let reach := max a.length b.length / 2 - 1
    let (found, places) := pairUp b reach 0 [] a
    let inPlace := (List.range b.length).filter places.contains |>.filterMap fun j => b[j]?
    let moved := ((found.zip inPlace).filter fun p => p.1 ≠ p.2).length / 2
    let m := found.length
    if m = 0 then none
    else
      ⟨m * m * (a.length + b.length) + (m - moved) * a.length * b.length,
        3 * m * a.length * b.length⟩

end Likeness

/-- The word most like a given one among several, if any is like it for more than seven
tenths. Of equals the last one counts. -/
def mostLike? (word : String) (among : List String) : Option String :=
  let better (best : Option (Likeness × String)) (s : String) : Option (Likeness × String) :=
    let x := Likeness.of word.toList s.toList
    if ¬x.aboveTenths 7 then best
    else
      match best with
      | none => some (x, s)
      | some (y, _) => if x.atLeast y then some (x, s) else best
  (among.foldl better none).map Prod.snd

end ObserverRelay.CommandLine
