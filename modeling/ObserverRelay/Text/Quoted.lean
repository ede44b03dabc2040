import ObserverRelay.Text.Printable
/-!
# Quoted text

A text or a character between quotes, as messages show it: the quote in use, the backslash,
NUL, tab, line feed and carriage return have short escapes, and a character that does not
print as itself is spelled by its code point in lower-case hexadecimal.
-/
namespace ObserverRelay.Text

/-- A code point in lower-case hexadecimal without leading zeros. -/
def hexDigits (n : Nat) : List Char := Nat.toDigits 16 n

/-- A character inside quotes of the kind `quote`. -/
def quoteChar (quote : Char) (c : Char) : List Char :=
  if c = quote then ['\\', c]
  else
    match c with
    | '\\' => ['\\', '\\']
    | '\x00' => ['\\', '0']
    | '\t' => ['\\', 't']
    | '\n' => ['\\', 'n']
    | '\r' => ['\\', 'r']
    | c =>
      if isPrintable c then [c]
      else ['\\', 'u', '\x7b'] ++ hexDigits c.toNat ++ ['\x7d']

/-- A text between double quotes. -/
def quoted (s : String) : String :=
  String.ofList (['"'] ++ s.toList.flatMap (quoteChar '"') ++ ['"'])

/-- A character between single quotes. -/
def quotedChar (c : Char) : String :=
  String.ofList (['\''] ++ quoteChar '\'' c ++ ['\''])

end ObserverRelay.Text
