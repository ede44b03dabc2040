import ObserverRelay.Net.Ip
import ObserverRelay.Url.Percent
/-!
# Hosts

A host is a name, an IPv4 address or an IPv6 address. IPv4 addresses may be written with one
to four numbers, each in decimal, octal (`0`) or hexadecimal (`0x`), the last one filling the
octets that are left.

A name need not be in ASCII. What such a name is in ASCII follows from large tables of Unicode,
which are a parameter here: a machine brings its own `DomainNames`, and whatever these make of a
name is then judged like any other one.
-/
namespace ObserverRelay

namespace Url

open Net

/-- Why a text is no URL. -/
inductive Fault
  | emptyHost
  | badDomainName
  | badDomainCharacter
  | badPort
  | badIpv4
  | badIpv6
  | relativeWithoutBase
  deriving DecidableEq, Repr

/-- The wording of a fault. -/
def Fault.message : Fault → String
  | .emptyHost => "empty host"
  | .badDomainName => "invalid international domain name"
  | .badDomainCharacter => "invalid domain character"
  | .badPort => "invalid port number"
  | .badIpv4 => "invalid IPv4 address"
  | .badIpv6 => "invalid IPv6 address"
  | .relativeWithoutBase => "relative URL without a base"

/-- The host of a URL. A name may be empty where the scheme allows that. -/
inductive Host
  | name (s : String)
  | ipv4 (address : Nat)
  | ipv6 (pieces : Ipv6)
  deriving DecidableEq, Repr

/-- A number of an IPv4 address. -/
def ipv4Number? (part : List Char) : Option Nat :=
  match part with
  | [] => none
  | '0' :: 'x' :: digits | '0' :: 'X' :: digits => readBase 16 0 digits
  | '0' :: d :: digits => readBase 8 0 (d :: digits)
  | digits => readBase 10 0 digits

/-- The last label of a name; an empty one behind a final dot does not count. -/
def lastLabel? (labels : List (List Char)) : Option (List Char) :=
  match labels.reverse with
  | [] :: label :: _ => some label
  | [[]] => none
  | label :: _ => some label
  | [] => none

/-- Whether a name is meant as an IPv4 address: its last label is a number. -/
def endsInNumber (labels : List (List Char)) : Bool :=
  match lastLabel? labels with
  | none => false
  | some label => (label ≠ [] && label.all Char.isDigit) || (ipv4Number? label).isSome

/-- The address of one to four numbers, the last of which fills what is left. -/
def ipv4OfNumbers (numbers : List Nat) : Option Nat :=
  match numbers.reverse with
  | [] => none
  | last :: front =>
    let places := 4 - front.length
    if front.any (255 < ·) ∨ 1 <<< (8 * places) ≤ last then none
    else some ((front.reverse.foldl (fun acc n => acc * 256 + n) 0) <<< (8 * places) + last)

/-- The IPv4 address that labels spell. -/
def readIpv4 (labels : List (List Char)) : Except Fault Nat :=
  let parts := match labels.reverse with
    | [] :: front => front.reverse
    | _ => labels
  if 4 < parts.length then .error .badIpv4
  else
    match parts.mapM ipv4Number? with
    | none => .error .badIpv4
    | some numbers =>
      match ipv4OfNumbers numbers with
      | some a => .ok a
      | none => .error .badIpv4

/-- The characters of a host. -/
def Host.chars : Host → List Char
  | .name s => s.toList
  | .ipv4 a => ipv4Chars a
  | .ipv6 ps => '[' :: (ipv6Chars ps ++ [']'])

/-- What international names are in ASCII. A name that is not allowed has no form in ASCII. -/
class DomainNames where
  ascii? : String → Option String

/-- A machine without tables: it takes the names that are in ASCII already. -/
@[reducible] def DomainNames.untranslated : DomainNames where
  ascii? name := if name.toList.all (·.toNat < 0x80) then some (Text.asciiLower name) else none

/-- A character that no domain name may hold, in whatever alphabet it is written. -/
def isForbiddenInDomain (c : Char) : Bool :=
  c.toNat ≤ 0x20 || c.toNat == 0x7F || Text.isBlank c ||
    ['%', '#', '/', ':', '<', '>', '?', '@', '[', '\\', ']', '^', '|'].contains c

/-- A character that no host may hold, whatever the scheme. -/
def isForbiddenInHost (c : Char) : Bool :=
  [0, 9, 10, 13, 32].contains c.toNat ||
    ['#', '/', ':', '<', '>', '?', '@', '[', '\\', ']', '^', '|'].contains c

/-- The address in brackets, if the text starts with one. -/
def bracketed? (cs : List Char) : Option (Except Fault Host) :=
  match cs with
  | '[' :: rest =>
    match rest.reverse with
    | ']' :: inner =>
      match readIpv6 inner.reverse with
      | some ps => some (.ok (.ipv6 ps))
      | none => some (.error .badIpv6)
    | _ => some (.error .badIpv6)
  | _ => none

/-- Whether a label is the code of an international one. -/
def isCoded (label : List Char) : Bool := ['x', 'n', '-', '-'].isPrefixOf (label.map Char.toLower)

/-- Whether a name is in ASCII and stands for itself. -/
def isPlainName (name : List Char) : Bool :=
  name.all (·.toNat < 0x80) && !(Text.splitOnMember '.' name).any isCoded

/-- The form of a name in ASCII, in small letters. -/
def asciiName? [DomainNames] (name : List Char) : Option (List Char) :=
  if isPlainName name then some (name.map Char.toLower)
  else (DomainNames.ascii? (String.ofList name)).map String.toList

/-- The host of a scheme of the web: escapes are resolved and the name is brought to ASCII before
it is judged. -/
def Host.read [DomainNames] (cs : List Char) : Except Fault Host :=
  match bracketed? cs with
  | some r => r
  | none =>
    match Bytes.text? (percentDecode (Bytes.ofText (String.ofList cs))) with
    | none => .error .badDomainName
    | some text =>
      if text.toList.any isForbiddenInDomain then .error .badDomainName
      else
        match asciiName? text.toList with
        | none => .error .badDomainName
        | some ascii =>
          if ascii.any fun c => 0x7F < c.toNat || isForbiddenInDomain c then .error .badDomainName
          else if ascii = [] then .error .emptyHost
          else
            let labels := Text.splitOnMember '.' ascii
            if endsInNumber labels then (readIpv4 labels).map .ipv4
            else .ok (.name (String.ofList ascii))

/-- The host of any other scheme: an address in brackets or a name taken as it is. -/
def Host.readOpaque (cs : List Char) : Except Fault Host :=
  match bracketed? cs with
  | some r => r
  | none =>
    if cs.any isForbiddenInHost then .error .badDomainCharacter
    else .ok (.name (String.ofList (encodeChars controlSet cs)))

end Url

end ObserverRelay
