import ObserverRelay.Net.Ip
/-!
# Socket addresses

An internet address and a port, as a server is told where to listen: `127.0.0.1:8080` or
`[::1]:8080`. An IPv6 address may carry a zone number behind `%`.
-/
namespace ObserverRelay.Net

/-- An internet address with a port. -/
inductive SocketAddress
  | v4 (address : Nat) (port : Nat)
  | v6 (pieces : Ipv6) (zone : Nat) (port : Nat)
  deriving DecidableEq, Repr

namespace SocketAddress

/-- A number in decimal digits below a bound. -/
def decimal? (bound : Nat) (cs : List Char) : Option Nat :=
  if cs = [] then none
  else
    match readBase 10 0 cs with
    | some n => if n < bound then some n else none
    | none => none

/-- A port. -/
def port? (cs : List Char) : Option Nat := decimal? UInt16.size cs

/-- An IPv6 address between brackets, with its zone. -/
def zoned? (cs : List Char) : Option (Ipv6 × Nat) :=
  let address := cs.takeWhile (· ≠ '%')
  match readIpv6 address, cs.dropWhile (· ≠ '%') with
  | some ps, [] => some (ps, 0)
  | some ps, _ :: zone => (decimal? UInt32.size zone).map fun z => (ps, z)
  | none, _ => none

/-- The socket address that a text is. -/
def read? (s : String) : Option SocketAddress :=
  match s.toList with
  | '[' :: rest =>
    match rest.dropWhile (· ≠ ']') with
    | ']' :: ':' :: port =>
      match zoned? (rest.takeWhile (· ≠ ']')), port? port with
      | some (ps, z), some p => some (.v6 ps z p)
      | _, _ => none
    | _ => none
  | cs =>
    match dottedPieces? (cs.takeWhile (· ≠ ':')), cs.dropWhile (· ≠ ':') with
    | some [hi, lo], _ :: port => (port? port).map fun p => .v4 (hi * 65536 + lo) p
    | _, _ => none

/-- The address without the port. An IPv4 address within IPv6 keeps its own spelling. -/
def v6Chars (pieces : Ipv6) : List Char :=
  match pieces with
  | [0, 0, 0, 0, 0, 0xFFFF, hi, lo] => "::ffff:".toList ++ ipv4Chars (hi * 65536 + lo)
  | ps => ipv6Chars ps

/-- The characters of a socket address. -/
def chars : SocketAddress → List Char
  | v4 a p => ipv4Chars a ++ ':' :: Nat.toDigits 10 p
  | v6 ps z p =>
    let zone := if z = 0 then [] else '%' :: Nat.toDigits 10 z
    '[' :: (v6Chars ps ++ zone ++ ']' :: ':' :: Nat.toDigits 10 p)

/-- A socket address as text. -/
def text (a : SocketAddress) : String := String.ofList a.chars

/-- The port. -/
def port : SocketAddress → Nat
  | v4 _ p => p
  | v6 _ _ p => p

/-- Whether a machine without any network but its own has the address: a loopback address or
the one that stands for all. -/
def isLocal : SocketAddress → Bool
  | v4 a _ => a >>> 24 == 127 || a == 0
  | v6 ps _ _ => ps == [0, 0, 0, 0, 0, 0, 0, 1] || ps == [0, 0, 0, 0, 0, 0, 0, 0]

end SocketAddress

end ObserverRelay.Net
