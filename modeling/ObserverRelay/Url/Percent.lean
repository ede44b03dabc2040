import ObserverRelay.Text.Hex
/-!
# Percent-encoding

Octets that a part of a URL cannot hold are written as `%` and two upper-case digits. Each
part has its own set of such octets; the sets here grow from part to part. Decoding leaves a
`%` that two digits do not follow as it is.
-/
namespace ObserverRelay.Url

/-- The octets that a part of a URL writes percent-encoded. -/
abbrev EncodeSet := UInt8 → Bool

/-- Control characters and everything outside ASCII. -/
def controlSet : EncodeSet := fun b => b < 0x20 || b > 0x7E

/-- A set with the octets of some ASCII characters added. -/
def EncodeSet.adding (set : EncodeSet) (cs : List Char) : EncodeSet :=
  fun b => set b || cs.any fun c => c.toNat == b.toNat

/-- The set of a fragment. -/
def fragmentSet : EncodeSet := controlSet.adding [' ', '"', '<', '>', '\x60']

/-- The set of a path that may hold slashes. -/
def pathSet : EncodeSet := fragmentSet.adding ['#', '?', '\x7b', '\x7d']

/-- The set of one segment of a path. -/
def segmentSet : EncodeSet := pathSet.adding ['/', '%']

/-- The set of one segment where a backslash counts as a slash. -/
def specialSegmentSet : EncodeSet := segmentSet.adding ['\\']

/-- The set of user name and password. -/
def userInfoSet : EncodeSet :=
  pathSet.adding ['/', ':', ';', '=', '@', '[', '\\', ']', '^', '|']

/-- The set of a query. -/
def querySet : EncodeSet := controlSet.adding [' ', '"', '#', '<', '>']

/-- The set of a query in the schemes of the web. -/
def specialQuerySet : EncodeSet := querySet.adding ['\'']

/-- The upper-case digit of a number below sixteen. -/
def upperDigit (n : Nat) : Char :=
  if n < 10 then Char.ofNat (0x30 + n) else Char.ofNat (0x41 + (n - 10))

/-- An octet as `%` and two digits. -/
def escapeOctet (b : UInt8) : List Char :=
  ['%', upperDigit (b.toNat / 16), upperDigit (b.toNat % 16)]

/-- Octets with those of the set escaped. -/
def percentEncode (set : EncodeSet) (bs : Bytes) : List Char :=
  bs.flatMap fun b => if set b then escapeOctet b else [Char.ofNat b.toNat]

/-- The characters of a text with the octets of the set escaped. -/
def encodeChars (set : EncodeSet) (cs : List Char) : List Char :=
  percentEncode set (Bytes.ofText (String.ofList cs))

/-- Octets with their escapes resolved. -/
def percentDecode : Bytes → Bytes
  | [] => []
  | [a] => [a]
  | [a, b] => [a, b]
  | a :: b :: c :: rest =>
    if a = 0x25 then
      match Hex.digit? b, Hex.digit? c with
      | some h, some l => UInt8.ofNat (h * 16 + l) :: percentDecode rest
      | _, _ => a :: percentDecode (b :: c :: rest)
    else a :: percentDecode (b :: c :: rest)

theorem percentDecode_cons_of_ne {b : UInt8} (h : b ≠ 0x25) (rest : Bytes) :
    percentDecode (b :: rest) = b :: percentDecode rest := by
  match rest with
  | [] | [_] => rfl
  | _ :: _ :: _ => rw [percentDecode, if_neg h]

theorem digit?_upperDigit {n : Nat} (h : n < 16) :
    Hex.digit? (upperDigit n).toUInt8 = some n := by
  revert n
  decide +kernel

/-- An escaped octet is read back. -/
theorem percentDecode_escapeOctet (b : UInt8) (rest : Bytes) :
    percentDecode ((escapeOctet b).map Char.toUInt8 ++ rest) = b :: percentDecode rest := by
  have hb := b.toNat_lt
  have hs : b.toNat / 16 * 16 + b.toNat % 16 = b.toNat := by omega
  have hp : '%'.toUInt8 = 0x25 := by decide
  simp only [escapeOctet, List.map_cons, List.map_nil, List.cons_append, List.nil_append,
    percentDecode, hp, digit?_upperDigit (n := b.toNat / 16) (by omega),
    digit?_upperDigit (n := b.toNat % 16) (by omega), hs, UInt8.ofNat_toNat, if_true]

end ObserverRelay.Url
