import ObserverRelay.Json.Value
import ObserverRelay.Number.Shortest
/-!
# Writing JSON

Two layouts: compact, without any insignificant white space, and indented, one member or
item a line. Strings are escaped as little as the grammar allows: the quote, the backslash
and the control characters below U+0020, the common ones by a letter.
-/
namespace ObserverRelay.Json

/-- The escape of a control character by four lower-case hexadecimal digits. -/
def unicodeEscape (n : Nat) : List Char :=
  let digit (k : Nat) : Char := if k < 10 then Char.ofNat (48 + k) else Char.ofNat (87 + k)
  ['\\', 'u', digit (n / 4096 % 16), digit (n / 256 % 16), digit (n / 16 % 16), digit (n % 16)]

/-- A character inside a string. -/
def escapeChar (c : Char) : List Char :=
  match c with
  | '"' => ['\\', '"']
  | '\\' => ['\\', '\\']
  | '\x08' => ['\\', 'b']
  | '\x0c' => ['\\', 'f']
  | '\n' => ['\\', 'n']
  | '\r' => ['\\', 'r']
  | '\t' => ['\\', 't']
  | c => if c.toNat < 0x20 then unicodeEscape c.toNat else [c]

/-- The characters of a string with its quotes. -/
def stringChars (s : String) : List Char :=
  '"' :: (s.toList.flatMap escapeChar ++ ['"'])

/-- The characters of an integer. -/
def integerChars (n : Int) : List Char :=
  if n < 0 then '-' :: Nat.toDigits 10 n.natAbs else Nat.toDigits 10 n.natAbs

/-- The characters of a number. -/
def Number.chars : Number → List Char
  | .integer n => integerChars n
  | .binary x => x.write

/-- The characters of the three words. -/
def nullChars : List Char := ['n', 'u', 'l', 'l']

/-- The characters of a truth value. -/
def boolChars : Bool → List Char
  | true => ['t', 'r', 'u', 'e']
  | false => ['f', 'a', 'l', 's', 'e']

mutual

/-- The characters of a value in the compact layout. -/
def Value.chars : Value → List Char
  | .null => nullChars
  | .bool b => boolChars b
  | .number n => n.chars
  | .string s => stringChars s
  | .array items => '[' :: (itemsChars items ++ [']'])
  | .object members => '\x7b' :: (membersChars members ++ ['\x7d'])

/-- The characters of items with commas between them. -/
def itemsChars : List Value → List Char
  | [] => []
  | [v] => v.chars
  | v :: rest => v.chars ++ ',' :: itemsChars rest

/-- The characters of members with commas between them. -/
def membersChars : List (String × Value) → List Char
  | [] => []
  | [(k, v)] => stringChars k ++ ':' :: v.chars
  | (k, v) :: rest => stringChars k ++ ':' :: (v.chars ++ ',' :: membersChars rest)

end

/-- A value as text in the compact layout. -/
def Value.render (v : Value) : String := String.ofList v.chars

/-- A line break and the indentation of a depth, four spaces for each level. -/
def lineBreak (depth : Nat) : List Char := '\n' :: List.replicate (4 * depth) ' '

mutual

/-- The characters of a value in the indented layout. Empty lists and objects stay on
their line. -/
def Value.indentedChars (depth : Nat) : Value → List Char
  | .null => nullChars
  | .bool b => boolChars b
  | .number n => n.chars
  | .string s => stringChars s
  | .array [] => ['[', ']']
  | .array (v :: rest) =>
    '[' :: (indentedItems (depth + 1) (v :: rest) ++ lineBreak depth ++ [']'])
  | .object [] => ['\x7b', '\x7d']
  | .object (m :: rest) =>
    '\x7b' :: (indentedMembers (depth + 1) (m :: rest) ++ lineBreak depth ++ ['\x7d'])

/-- The characters of items, each on a line of its own. -/
def indentedItems (depth : Nat) : List Value → List Char
  | [] => []
  | [v] => lineBreak depth ++ v.indentedChars depth
  | v :: rest => lineBreak depth ++ v.indentedChars depth ++ ',' :: indentedItems depth rest

/-- The characters of members, each on a line of its own. -/
def indentedMembers (depth : Nat) : List (String × Value) → List Char
  | [] => []
  | [(k, v)] => lineBreak depth ++ stringChars k ++ ':' :: ' ' :: v.indentedChars depth
  | (k, v) :: rest =>
    lineBreak depth ++ stringChars k ++ ':' :: ' ' :: v.indentedChars depth ++
      ',' :: indentedMembers depth rest

end

/-- A value as text in the indented layout. -/
def Value.renderIndented (v : Value) : String := String.ofList (v.indentedChars 0)

end ObserverRelay.Json
