import ObserverRelay.Text.Bytes
/-!
# Base64 with padding

Three octets are four symbols of the standard alphabet; a last group of one or two octets
is filled up with `=`. Reading is strict: the padding must be there, nothing may follow it,
and the bits that a short last group does not use must be zero, so that each list of octets
has one spelling.
-/
namespace ObserverRelay.Base64

/-- The octet of the padding sign `=`. -/
def padding : UInt8 := 0x3D

/-- The symbol of a number below 64. -/
def symbol (n : Nat) : UInt8 :=
  if n < 26 then UInt8.ofNat (0x41 + n)
  else if n < 52 then UInt8.ofNat (0x61 + (n - 26))
  else if n < 62 then UInt8.ofNat (0x30 + (n - 52))
  else if n = 62 then 0x2B
  else 0x2F

/-- The number of a symbol. -/
def value? (b : UInt8) : Option Nat :=
  if 0x41 ≤ b ∧ b ≤ 0x5A then some (b.toNat - 0x41)
  else if 0x61 ≤ b ∧ b ≤ 0x7A then some (b.toNat - 0x61 + 26)
  else if 0x30 ≤ b ∧ b ≤ 0x39 then some (b.toNat - 0x30 + 52)
  else if b = 0x2B then some 62
  else if b = 0x2F then some 63
  else none

/-- The symbols of a list of octets, padded to a multiple of four. -/
def encode : Bytes → Bytes
  | a :: b :: c :: rest =>
    symbol (a.toNat / 4) :: symbol (a.toNat % 4 * 16 + b.toNat / 16) ::
      symbol (b.toNat % 16 * 4 + c.toNat / 64) :: symbol (c.toNat % 64) :: encode rest
  | [a, b] =>
    [symbol (a.toNat / 4), symbol (a.toNat % 4 * 16 + b.toNat / 16),
      symbol (b.toNat % 16 * 4), padding]
  | [a] => [symbol (a.toNat / 4), symbol (a.toNat % 4 * 16), padding, padding]
  | [] => []

/-- Why a list of symbols spells nothing. The offset counts symbols from the start. -/
inductive Refusal
  | badSymbol (octet : UInt8) (offset : Nat)
  | badLength (length : Nat)
  | unusedBits (octet : UInt8) (offset : Nat)
  | badPadding
  deriving DecidableEq, Repr

/-- The wording of a refusal. -/
def Refusal.message : Refusal → String
  | .badSymbol b i => "Invalid symbol " ++ toString b.toNat ++ ", offset " ++ toString i ++ "."
  | .badLength n => "Invalid input length: " ++ toString n
  | .unusedBits b i =>
    "Invalid last symbol " ++ toString b.toNat ++ ", offset " ++ toString i ++ "."
  | .badPadding => "Invalid padding"

/-- The number of the symbol at an offset. -/
def valueAt (b : UInt8) (offset : Nat) : Except Refusal Nat :=
  match value? b with
  | some n => .ok n
  | none => .error (.badSymbol b offset)

/-- The three octets of four symbols' numbers. -/
def octets (a b c d : Nat) : Bytes :=
  [UInt8.ofNat (a * 4 + b / 16), UInt8.ofNat (b % 16 * 16 + c / 4), UInt8.ofNat (c % 4 * 64 + d)]

/-- The numbers of the symbols of a last group that stand before its padding. Padding may
take the third and fourth place only, and only padding may follow it. -/
def lastNumbers (offset : Nat) (group : Bytes) : Except Refusal (List Nat) :=
  let rec go (i : Nat) (padFrom : Option Nat) : Bytes → Except Refusal (List Nat)
    | [] => .ok []
    | b :: rest =>
      if b = padding then
        if i < 2 then .error (.badSymbol b (offset + i))
        else go (i + 1) (some (padFrom.getD i)) rest
      else
        match padFrom with
        | some j => .error (.badSymbol padding (offset + j))
        | none =>
          match valueAt b (offset + i) with
          | .error e => .error e
          | .ok n => (go (i + 1) none rest).map (n :: ·)
  go 0 none group

/-- The octets of a last group of at most four symbols, which starts at `offset`. -/
def decodeLast (offset : Nat) (group : Bytes) : Except Refusal Bytes :=
  match lastNumbers offset group with
  | .error e => .error e
  | .ok numbers =>
    let last (i : Nat) : UInt8 := group.getD i 0
    match numbers with
    | [] => if offset = 0 ∧ group = [] then .ok [] else .error (.badLength offset)
    | [_] => .error (.badLength (offset + 1))
    | [a, b] =>
      if group.length ≠ 4 then .error .badPadding
      else if b % 16 ≠ 0 then .error (.unusedBits (last 1) (offset + 1))
      else .ok [UInt8.ofNat (a * 4 + b / 16)]
    | [a, b, c] =>
      if group.length ≠ 4 then .error .badPadding
      else if c % 4 ≠ 0 then .error (.unusedBits (last 2) (offset + 2))
      else .ok [UInt8.ofNat (a * 4 + b / 16), UInt8.ofNat (b % 16 * 16 + c / 4)]
    | a :: b :: c :: d :: _ => .ok (octets a b c d)

/-- The octets of whole groups and a last one. Padding in any group but the last is a bad
symbol. -/
def decodeGroups (offset : Nat) : Bytes → Except Refusal Bytes
  | a :: b :: c :: d :: e :: rest => do
    let na ← valueAt a offset
    let nb ← valueAt b (offset + 1)
    let nc ← valueAt c (offset + 2)
    let nd ← valueAt d (offset + 3)
    let tail ← decodeGroups (offset + 4) (e :: rest)
    return octets na nb nc nd ++ tail
  | group => decodeLast offset group

/-- The octets that a list of symbols spells. A single symbol too many at the very end that
is neither in the alphabet nor padding is reported before all else. -/
def decode (symbols : Bytes) : Except Refusal Bytes :=
  match symbols.getLast? with
  | some b =>
    if symbols.length % 4 = 1 ∧ b ≠ padding ∧ value? b = none then
      .error (.badSymbol b (symbols.length - 1))
    else decodeGroups 0 symbols
  | none => .ok []

/-- Each symbol has its number, and none is the padding sign. -/
theorem value?_symbol {n : Nat} (h : n < 64) :
    value? (symbol n) = some n ∧ symbol n ≠ padding := by
  revert n
  decide +kernel

theorem symbol_lt (n : Nat) : (symbol n).toNat < 0x80 := by
  fun_cases symbol n <;> simp only [UInt8.toNat_ofNat, UInt8.toNat_ofNat'] <;> omega

/-- Symbols and padding are ASCII. -/
theorem ascii_encode (bs : Bytes) : ∀ b ∈ encode bs, b.toNat < 0x80 := by
  have pad : padding.toNat < 0x80 := by decide
  fun_induction encode bs with
  | case1 a b c rest ih =>
    simp only [List.forall_mem_cons]
    exact ⟨symbol_lt _, symbol_lt _, symbol_lt _, symbol_lt _, ih⟩
  | case2 a b => simp [symbol_lt, pad]
  | case3 a => simp [symbol_lt, pad]
  | case4 => simp

theorem valueAt_symbol {n : Nat} (h : n < 64) (offset : Nat) :
    valueAt (symbol n) offset = .ok n := by
  simp [valueAt, (value?_symbol h).1]

theorem length_encode_mod (bs : Bytes) : (encode bs).length % 4 = 0 := by
  fun_induction encode bs with
  | case1 a b c rest ih => simp only [List.length_cons]; omega
  | case2 | case3 | case4 => simp

theorem decodeLast_symbols {a b c d : Nat} (ha : a < 64) (hb : b < 64) (hc : c < 64) (hd : d < 64)
    (offset : Nat) :
    decodeLast offset [symbol a, symbol b, symbol c, symbol d] = .ok (octets a b c d) := by
  simp [decodeLast, lastNumbers, lastNumbers.go, valueAt_symbol, ha, hb, hc, hd,
    value?_symbol, Except.map]

theorem decodeGroups_cons {a b c d : Nat} (ha : a < 64) (hb : b < 64) (hc : c < 64) (hd : d < 64)
    (offset : Nat) {rest : Bytes} (h : rest ≠ []) :
    decodeGroups offset (symbol a :: symbol b :: symbol c :: symbol d :: rest) =
      (decodeGroups (offset + 4) rest).map (octets a b c d ++ ·) := by
  obtain ⟨e, rest, rfl⟩ := List.exists_cons_of_ne_nil h
  simp only [decodeGroups, valueAt_symbol, ha, hb, hc, hd]
  rcases decodeGroups (offset + 4) (e :: rest) <;> rfl

theorem encode_ne_nil {bs : Bytes} (h : bs ≠ []) : encode bs ≠ [] := by
  fun_cases encode bs <;> simp_all

theorem decodeLast_three {a b c : Nat} (ha : a < 64) (hb : b < 64) (hc : c < 64)
    (h : c % 4 = 0) (offset : Nat) :
    decodeLast offset [symbol a, symbol b, symbol c, padding] =
      .ok [UInt8.ofNat (a * 4 + b / 16), UInt8.ofNat (b % 16 * 16 + c / 4)] := by
  simp [decodeLast, lastNumbers, lastNumbers.go, valueAt_symbol, ha, hb, hc, h,
    value?_symbol, Except.map]

theorem decodeLast_two {a b : Nat} (ha : a < 64) (hb : b < 64) (h : b % 16 = 0) (offset : Nat) :
    decodeLast offset [symbol a, symbol b, padding, padding] =
      .ok [UInt8.ofNat (a * 4 + b / 16)] := by
  simp [decodeLast, lastNumbers, lastNumbers.go, valueAt_symbol, ha, hb, h,
    value?_symbol, Except.map]

theorem ofNat_eq {n : Nat} {b : UInt8} (h : n = b.toNat) : UInt8.ofNat n = b := by
  simp [h]

theorem decodeGroups_encode (bs : Bytes) (h : bs ≠ []) (offset : Nat) :
    decodeGroups offset (encode bs) = .ok bs := by
  fun_induction encode bs generalizing offset with
  | case1 a b c rest ih =>
    have ha := a.toNat_lt
    have hb := b.toNat_lt
    have hc := c.toNat_lt
    have hs : octets (a.toNat / 4) (a.toNat % 4 * 16 + b.toNat / 16)
        (b.toNat % 16 * 4 + c.toNat / 64) (c.toNat % 64) = [a, b, c] := by
      rw [octets, ofNat_eq (b := a) (by omega), ofNat_eq (b := b) (by omega),
        ofNat_eq (b := c) (by omega)]
    by_cases hr : rest = []
    · subst hr
      rw [encode, decodeGroups, decodeLast_symbols (by omega) (by omega) (by omega) (by omega), hs]
      simp
    · rw [decodeGroups_cons (by omega) (by omega) (by omega) (by omega) offset (encode_ne_nil hr),
        ih hr, hs]
      rfl
  | case2 a b =>
    have ha := a.toNat_lt
    have hb := b.toNat_lt
    rw [decodeGroups, decodeLast_three (by omega) (by omega) (by omega) (by omega),
      ofNat_eq (b := a) (by omega), ofNat_eq (b := b) (by omega)]
    simp
  | case3 a =>
    have ha := a.toNat_lt
    rw [decodeGroups, decodeLast_two (by omega) (by omega) (by omega), ofNat_eq (b := a) (by omega)]
    simp
  | case4 => exact absurd rfl h

/-- Octets that are written in symbols are read back. -/
@[simp] theorem decode_encode (bs : Bytes) : decode (encode bs) = .ok bs := by
  by_cases h : bs = []
  · subst h; rfl
  · have hl := length_encode_mod bs
    rw [decode]
    split
    · rw [if_neg (by omega), decodeGroups_encode bs h]
    next hn => exact absurd (List.getLast?_eq_none_iff.mp hn) (encode_ne_nil h)

end ObserverRelay.Base64
