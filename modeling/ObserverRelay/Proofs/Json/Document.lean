import ObserverRelay.Proofs.Json.Grammar
import Mathlib.Algebra.Field.Rat
/-!
# Documents and their texts

A document is what a text says before anything is made of it: numbers digit by digit, objects
with every member in its place, repeated names included. `DocumentAt K s d t` says that the
octets `s` begin with a text of the document `d` and that `t` is what follows. How strings are
spelled is the parameter `K`: `TextAt` resolves their escapes, `FormAt` judges their form alone.

Nothing here mentions a reader. A number, like a run of digits, goes on as long as it can, so
that the text that follows a document is determined.

## Main statements

* `Document.induction`: documents by their parts.
-/
namespace ObserverRelay.Json

variable {α β : Type} {s t u : Bytes}

/-! ## Numbers -/

/-- The number that decimal digits name. -/
def natural (ds : Bytes) : Nat := ds.foldl (fun n b => n * 10 + digitValue b) 0

/-- A number as it is written. -/
structure Literal where
  negative : Bool
  /-- The digits before the point. -/
  whole : Bytes
  /-- The digits behind the point; none if there is no point. -/
  fraction : Bytes
  /-- The power of ten that is written behind the digits, if any. -/
  exponent : Option Int
  deriving DecidableEq, Repr

namespace Literal

/-- All digits in a row, as a number. -/
def significand (l : Literal) : Nat := natural (l.whole ++ l.fraction)

/-- The power of ten by which the significand is to be multiplied. -/
def scale (l : Literal) : Int := l.exponent.getD 0 - l.fraction.length

/-- The number that is written. -/
def value (l : Literal) : ℚ := (if l.negative then -1 else 1) * l.significand * 10 ^ l.scale

end Literal

/-- A run of digits, as long as it goes on. -/
structure DigitsAt (s ds t : Bytes) : Prop where
  text : s = ds ++ t
  nonempty : ds ≠ []
  digits : ∀ b ∈ ds, isDigit b = true
  stops : ∀ b ∈ t.head?, isDigit b = false

/-- A point and digits, or nothing. -/
inductive FractionAt : Bytes → Bytes → Bytes → Prop
  | none {s : Bytes} (noPoint : s.head? ≠ some 0x2E) : FractionAt s [] s
  | digits {s ds t : Bytes} (digits : DigitsAt s ds t) : FractionAt (0x2E :: s) ds t

/-- A mark, possibly a sign, and digits, or nothing. -/
inductive ExponentAt : Bytes → Option Int → Bytes → Prop
  | none {s : Bytes} (noMark : s.head? ≠ some 0x65 ∧ s.head? ≠ some 0x45) : ExponentAt s none s
  | plain {m : UInt8} {s ds t : Bytes} (mark : m = 0x65 ∨ m = 0x45) (digits : DigitsAt s ds t) :
      ExponentAt (m :: s) (some (natural ds)) t
  | plus {m : UInt8} {s ds t : Bytes} (mark : m = 0x65 ∨ m = 0x45) (digits : DigitsAt s ds t) :
      ExponentAt (m :: 0x2B :: s) (some (natural ds)) t
  | minus {m : UInt8} {s ds t : Bytes} (mark : m = 0x65 ∨ m = 0x45) (digits : DigitsAt s ds t) :
      ExponentAt (m :: 0x2D :: s) (some (-(natural ds : Int))) t

/-- A number from its first digit on. No zero is written in front of other digits. -/
inductive MagnitudeAt (negative : Bool) : Bytes → Literal → Bytes → Prop
  | of {s whole u fraction v t : Bytes} {exponent : Option Int} (digits : DigitsAt s whole u)
      (noZero : whole.head? = some 0x30 → whole = [0x30]) (point : FractionAt u fraction v)
      (power : ExponentAt v exponent t) : MagnitudeAt negative s ⟨negative, whole, fraction, exponent⟩ t

/-- A number. -/
inductive NumberAt : Bytes → Literal → Bytes → Prop
  | plain {s t : Bytes} {l : Literal} (magnitude : MagnitudeAt false s l t) : NumberAt s l t
  | minus {s t : Bytes} {l : Literal} (magnitude : MagnitudeAt true s l t) :
      NumberAt (0x2D :: s) l t

/-! ## Strings -/

/-- Four hexadecimal digits, the highest one first. -/
inductive HexAt : Bytes → Nat → Bytes → Prop
  | of {a b c d : UInt8} {h i j k : Nat} (first : Hex.digit? a = some h)
      (second : Hex.digit? b = some i) (third : Hex.digit? c = some j)
      (fourth : Hex.digit? d = some k) (t : Bytes) :
      HexAt (a :: b :: c :: d :: t) (((h * 16 + i) * 16 + j) * 16 + k) t

/-- The letters that may follow a backslash, with what they stand for. -/
def escapeLetters : List (UInt8 × Char) :=
  [(0x22, '"'), (0x5C, '\\'), (0x2F, '/'), (0x62, '\x08'), (0x66, '\x0c'), (0x6E, '\n'),
    (0x72, '\r'), (0x74, '\t')]

/-- An escape from behind its backslash: a letter, the number of a character, or the two halves
of one beyond U+FFFF. -/
inductive EscapeAt : Bytes → Char → Bytes → Prop
  | letter {b : UInt8} {c : Char} (letter : (b, c) ∈ escapeLetters) (t : Bytes) :
      EscapeAt (b :: t) c t
  | number {c : Char} {s t : Bytes} (digits : HexAt s c.toNat t) : EscapeAt (0x75 :: s) c t
  | halves {c : Char} {s u t : Bytes} {high low : Nat} (first : HexAt s high (0x5C :: 0x75 :: u))
      (second : HexAt u low t) (isHigh : 0xD800 ≤ high ∧ high ≤ 0xDBFF)
      (isLow : 0xDC00 ≤ low ∧ low ≤ 0xDFFF)
      (code : c.toNat = 0x10000 + (high - 0xD800) * 0x400 + (low - 0xDC00)) :
      EscapeAt (0x75 :: s) c t

/-- The characters of a string from behind its opening quote. Control characters stand in it as
escapes only. -/
inductive CharactersAt : Bytes → List Char → Bytes → Prop
  | close (t : Bytes) : CharactersAt (0x22 :: t) [] t
  | plain {c : Char} {cs : List Char} {s t : Bytes} (noQuote : c ≠ '"') (noEscape : c ≠ '\\')
      (noControl : 0x20 ≤ c.toNat) (more : CharactersAt s cs t) :
      CharactersAt (String.utf8EncodeChar c ++ s) (c :: cs) t
  | escaped {c : Char} {cs : List Char} {s u t : Bytes} (escape : EscapeAt s c u)
      (more : CharactersAt u cs t) : CharactersAt (0x5C :: s) (c :: cs) t

/-- A string that stands for a text, from behind its opening quote. -/
def TextAt (s : Bytes) (x : String) (t : Bytes) : Prop := CharactersAt s x.toList t

/-- A string of which the form alone is judged, from behind its opening quote: it need not be
text, and the halves of a character may stand alone. -/
inductive FormAt : Bytes → Unit → Bytes → Prop
  | close (t : Bytes) : FormAt (0x22 :: t) () t
  | plain {b : UInt8} {s t : Bytes} (noQuote : b ≠ 0x22) (noEscape : b ≠ 0x5C)
      (noControl : 0x20 ≤ b) (more : FormAt s () t) : FormAt (b :: s) () t
  | letter {b : UInt8} {c : Char} {s t : Bytes} (letter : (b, c) ∈ escapeLetters)
      (more : FormAt s () t) : FormAt (0x5C :: b :: s) () t
  | number {n : Nat} {s u t : Bytes} (digits : HexAt s n u) (more : FormAt u () t) :
      FormAt (0x5C :: 0x75 :: s) () t

/-! ## Documents -/

/-- What a text says, strings apart. -/
inductive Document (α : Type)
  | null
  | bool (b : Bool)
  | number (l : Literal)
  | string (x : α)
  | array (items : List (Document α))
  | object (members : List (α × Document α))

namespace Document

/-- A property of all scalars that lists and objects have when their parts have it is one of all
documents. -/
@[elab_as_elim, induction_eliminator]
theorem induction {P : Document α → Prop} (null : P .null) (bool : ∀ b, P (.bool b))
    (number : ∀ l, P (.number l)) (string : ∀ x, P (.string x))
    (array : ∀ items, (∀ d ∈ items, P d) → P (.array items))
    (object : ∀ members, (∀ m ∈ members, P m.2) → P (.object members)) : ∀ d, P d
  | .null => null
  | .bool b => bool b
  | .number l => number l
  | .string x => string x
  | .array items =>
    array items fun d _ => induction null bool number string array object d
  | .object members =>
    object members fun m _ => induction null bool number string array object m.2
termination_by d => sizeOf d
decreasing_by
  · decreasing_tactic
  · have inside := List.sizeOf_lt_of_mem ‹m ∈ members›
    obtain ⟨k, d⟩ := m
    simp only [Prod.mk.sizeOf_spec] at inside
    simp only [Document.object.sizeOf_spec]
    omega

end Document

/-- The octets `s` begin with a text of a document, white space before it included, and `t`
follows. -/
inductive DocumentAt (K : Bytes → α → Bytes → Prop) : Bytes → Document α → Bytes → Prop
  | null {s t : Bytes} (word : skipSpace s = 0x6E :: (wordNull ++ t)) : DocumentAt K s .null t
  | yes {s t : Bytes} (word : skipSpace s = 0x74 :: (wordTrue ++ t)) :
      DocumentAt K s (.bool true) t
  | no {s t : Bytes} (word : skipSpace s = 0x66 :: (wordFalse ++ t)) :
      DocumentAt K s (.bool false) t
  | number {s t : Bytes} {l : Literal} (number : NumberAt (skipSpace s) l t) :
      DocumentAt K s (.number l) t
  | string {s u t : Bytes} {x : α} (quote : skipSpace s = 0x22 :: u) (content : K u x t) :
      DocumentAt K s (.string x) t
  | array {s u t : Bytes} {items : List (Document α)} (bracket : skipSpace s = 0x5B :: u)
      (content : ItemsAt (DocumentAt K) true u items t) : DocumentAt K s (.array items) t
  | object {s u t : Bytes} {members : List (α × Document α)} (brace : skipSpace s = 0x7B :: u)
      (content : MembersAt K (DocumentAt K) true u members t) : DocumentAt K s (.object members) t

/-- White space before a document does not count. -/
theorem DocumentAt.of_skipSpace_eq {K : Bytes → α → Bytes → Prop} {d : Document α}
    (h : skipSpace u = skipSpace s) (document : DocumentAt K s d t) : DocumentAt K u d t := by
  cases document with
  | null word => exact .null (h.trans word)
  | yes word => exact .yes (h.trans word)
  | no word => exact .no (h.trans word)
  | number number => exact .number (h ▸ number)
  | string quote content => exact .string (h.trans quote) content
  | array bracket content => exact .array (h.trans bracket) content
  | object brace content => exact .object (h.trans brace) content

/-- The octets are a text of a document, white space around it aside. -/
def Spells (K : Bytes → α → Bytes → Prop) (s : Bytes) (d : Document α) : Prop :=
  ∃ t, DocumentAt K s d t ∧ skipSpace t = []

/-- The octets are a text of some document, white space around it aside, strings judged by their
form. -/
def IsJson (s : Bytes) : Prop := ∃ d, Spells FormAt s d

end ObserverRelay.Json
