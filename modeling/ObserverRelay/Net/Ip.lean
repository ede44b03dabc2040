import ObserverRelay.Text.Blank
/-!
# Internet addresses

IPv4 addresses as four decimal octets, and IPv6 addresses as eight pieces of 16 bits in
hexadecimal, with one `::` for a run of zeros and possibly an IPv4 address for the last two
pieces. Written, the longest run of at least two zeros becomes `::`, the first of equally
long ones.
-/
namespace ObserverRelay.Net

/-- The pieces of an IPv6 address: eight numbers of 16 bits. -/
abbrev Ipv6 := List Nat

/-- The value of a digit in any base up to sixteen. -/
def charDigit? (c : Char) : Option Nat :=
  if '0' ≤ c ∧ c ≤ '9' then some (c.toNat - 0x30)
  else if 'a' ≤ c ∧ c ≤ 'f' then some (c.toNat - 0x61 + 10)
  else if 'A' ≤ c ∧ c ≤ 'F' then some (c.toNat - 0x41 + 10)
  else none

/-- The value of digits in a base, all of which must be below it. -/
def readBase (base : Nat) (acc : Nat) : List Char → Option Nat
  | [] => some acc
  | c :: cs =>
    match charDigit? c with
    | some d => if d < base then readBase base (acc * base + d) cs else none
    | none => none

/-- A decimal number of at most 255 without leading zeros. -/
def octet? (digits : List Char) : Option Nat :=
  match digits with
  | [] => none
  | ['0'] => some 0
  | '0' :: _ => none
  | digits =>
    match readBase 10 0 digits with
    | some n => if n < 256 then some n else none
    | none => none

/-- The four octets of an IPv4 address in the strict form, as two pieces of 16 bits. -/
def dottedPieces? (cs : List Char) : Option (List Nat) :=
  match (Text.splitOnMember '.' cs).mapM octet? with
  | some [a, b, c, d] => some [a * 256 + b, c * 256 + d]
  | _ => none

/-- A piece of one to four hexadecimal digits. -/
def ipv6Piece? (cs : List Char) : Option Nat :=
  if cs.length = 0 ∨ 4 < cs.length then none else readBase 16 0 cs

/-- The pieces that groups between colons spell; the last one may be an IPv4 address. -/
def ipv6Groups? : List (List Char) → Option (List Nat)
  | [] => some []
  | [g] => if g.contains '.' then dottedPieces? g else (ipv6Piece? g).map ([·])
  | g :: rest =>
    match ipv6Piece? g, ipv6Groups? rest with
    | some p, some ps => some (p :: ps)
    | _, _ => none

/-- The pieces of a text that may be empty. -/
def ipv6Side? (cs : List Char) : Option (List Nat) :=
  if cs = [] then some [] else ipv6Groups? (Text.splitOnMember ':' cs)

/-- Cuts a text at its first `::`. -/
def cutAtGap : List Char → Option (List Char × List Char)
  | [] => none
  | [_] => none
  | ':' :: ':' :: rest => some ([], rest)
  | c :: rest => (cutAtGap rest).map fun p => (c :: p.1, p.2)

/-- The address that a text spells: eight pieces, or fewer around a `::`. -/
def readIpv6 (cs : List Char) : Option Ipv6 :=
  match cutAtGap cs with
  | none =>
    match ipv6Side? cs with
    | some ps => if ps.length = 8 then some ps else none
    | none => none
  | some (front, back) =>
    if front.contains '.' then none
    else
      match ipv6Side? front, ipv6Side? back with
      | some fs, some bs =>
        if fs.length + bs.length ≤ 7 then
          some (fs ++ List.replicate (8 - (fs.length + bs.length)) 0 ++ bs)
        else none
      | _, _ => none

/-- How many zeros a list starts with. -/
def zeroRun : List Nat → Nat
  | 0 :: rest => zeroRun rest + 1
  | _ => 0

/-- The first of the longest runs of at least two zeros: its place and length. -/
def longestZeroRun (pieces : List Nat) : Option (Nat × Nat) :=
  (List.range pieces.length).foldl (fun best i =>
    let n := zeroRun (pieces.drop i)
    match best with
    | some (_, m) => if m < n then some (i, n) else best
    | none => if 2 ≤ n then some (i, n) else none) none

/-- Pieces in lower-case hexadecimal with colons between them. -/
def pieceChars : List Nat → List Char
  | [] => []
  | [p] => Nat.toDigits 16 p
  | p :: rest => Nat.toDigits 16 p ++ ':' :: pieceChars rest

/-- The characters of an IPv6 address, the longest run of zeros as `::`. -/
def ipv6Chars (pieces : Ipv6) : List Char :=
  match longestZeroRun pieces with
  | none => pieceChars pieces
  | some (i, n) => pieceChars (pieces.take i) ++ ':' :: ':' :: pieceChars (pieces.drop (i + n))

/-- The characters of an IPv4 address. -/
def ipv4Chars (address : Nat) : List Char :=
  let octet (k : Nat) : List Char := Nat.toDigits 10 (address >>> (8 * k) % 256)
  octet 3 ++ '.' :: (octet 2 ++ '.' :: (octet 1 ++ '.' :: octet 0))

end ObserverRelay.Net
