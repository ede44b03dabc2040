import ObserverRelay.Text.Blank
import ObserverRelay.Url.Percent
/-!
# Queries as lists of pairs

The encoding of forms: pairs joined by `&`, name and value by `=`, a space as `+`, and every
octet but letters, digits and `* - . _` escaped. Reading drops empty pieces, takes a piece
without `=` for a name with an empty value, and repairs text that is not UTF-8.
-/
namespace ObserverRelay.Url.Form

/-- Whether an octet stands for itself. -/
def isPlain (b : UInt8) : Bool :=
  (0x30 ≤ b && b ≤ 0x39) || (0x41 ≤ b && b ≤ 0x5A) || (0x61 ≤ b && b ≤ 0x7A) ||
    b == 0x2A || b == 0x2D || b == 0x2E || b == 0x5F

/-- The characters of an octet. -/
def encodeOctet (b : UInt8) : List Char :=
  if b = 0x20 then ['+'] else if isPlain b then [Char.ofNat b.toNat] else escapeOctet b

/-- The characters of a name or a value. -/
def encodePart (s : String) : List Char := (Bytes.ofText s).flatMap encodeOctet

/-- The characters of a pair. -/
def encodePair (p : String × String) : List Char := encodePart p.1 ++ '=' :: encodePart p.2

/-- The characters of a list of pairs. -/
def encodeChars : List (String × String) → List Char
  | [] => []
  | [p] => encodePair p
  | p :: rest => encodePair p ++ '&' :: encodeChars rest

/-- A list of pairs as a query. -/
def encode (pairs : List (String × String)) : String := String.ofList (encodeChars pairs)

/-- The text that the octets of a name or a value stand for. -/
def decodePart (bs : Bytes) : String :=
  Bytes.lossyText (percentDecode (bs.map fun b => if b = 0x2B then 0x20 else b))

/-- The pair that a piece stands for. -/
def decodePair (piece : Bytes) : String × String :=
  (decodePart (piece.takeWhile (· ≠ 0x3D)), decodePart ((piece.dropWhile (· ≠ 0x3D)).drop 1))

/-- The pairs of a query. -/
def decode (query : Bytes) : List (String × String) :=
  ((Text.splitOnMember 0x26 query).filter (· ≠ [])).map decodePair

end ObserverRelay.Url.Form
