/-!
# Blank characters and trimming

The white space of Unicode (property `White_Space`), and texts with it taken off their
ends. U+200B and U+FEFF are not white space.
-/
namespace ObserverRelay.Text

/-- White space: the property `White_Space` of Unicode. -/
def isBlank (c : Char) : Bool :=
  let n := c.toNat
  (9 ≤ n && n ≤ 13) || n == 0x20 || n == 0x85 || n == 0xA0 || n == 0x1680 ||
    (0x2000 ≤ n && n ≤ 0x200A) || n == 0x2028 || n == 0x2029 || n == 0x202F ||
    n == 0x205F || n == 0x3000

/-- The list without its trailing members of the class `p`. -/
def dropTrailing {α : Type} (p : α → Bool) (xs : List α) : List α :=
  (xs.reverse.dropWhile p).reverse

/-- The list without its leading and trailing members of the class `p`. -/
def trimList {α : Type} (p : α → Bool) (xs : List α) : List α :=
  dropTrailing p (xs.dropWhile p)

/-- The text without white space at its ends. -/
def trim (s : String) : String := String.ofList (trimList isBlank s.toList)

/-- The text without the trailing characters equal to `c`. -/
def trimTrailing (c : Char) (s : String) : String :=
  String.ofList (dropTrailing (· == c) s.toList)

/-- The text without the given ending, if it has it. -/
def withoutEnding? (ending s : String) : Option String :=
  if ending.toList.reverse.isPrefixOf s.toList.reverse then
    some (String.ofList (s.toList.take (s.toList.length - ending.toList.length)))
  else none

/-- The text in lower case, as far as its letters are ASCII. -/
def asciiLower (s : String) : String := String.ofList (s.toList.map Char.toLower)

/-- The pieces of a list between the members equal to `sep`, of which there is always at
least one. -/
def splitOnMember {α : Type} [DecidableEq α] (sep : α) : List α → List (List α)
  | [] => [[]]
  | x :: xs =>
    if x = sep then [] :: splitOnMember sep xs
    else
      match splitOnMember sep xs with
      | [] => [[x]]
      | piece :: pieces => (x :: piece) :: pieces

theorem splitOnMember_ne_nil {α : Type} [DecidableEq α] (sep : α) (xs : List α) :
    splitOnMember sep xs ≠ [] := by
  cases xs with
  | nil => simp [splitOnMember]
  | cons x xs =>
    simp only [splitOnMember]
    split
    · simp
    · split <;> simp

/-- The text with its characters joined by the separator between pieces. -/
def joinWith (sep : String) : List String → String
  | [] => ""
  | [s] => s
  | s :: rest => s ++ sep ++ joinWith sep rest

end ObserverRelay.Text
