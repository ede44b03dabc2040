import ObserverRelay.Chain.Builder
import ObserverRelay.Proofs.Text.Pieces
/-!
# Tokens read from the data of a transaction

A reader of the data that knows nothing of how it was built: the octets are cut at each `@`, the
first piece names the way of carrying, and the others are octets in hexadecimal digits. A piece
that stands for a number may be empty, which is zero, and one that stands for a token may spell
any text, so pieces are told apart by their place alone.

## Main statements

* `splitOn_joinPieces_iff`: joined pieces are cut apart again if none of them holds the sign.
* `Carriage.read_pieces`: the data of a carriage is read as what it brings.
-/
namespace ObserverRelay.Chain

/-! ## Pieces -/

theorem ofText_joinWith (sep : String) (pieces : List String) :
    Bytes.ofText (Text.joinWith sep pieces) =
      (Bytes.ofText sep).intercalate (pieces.map Bytes.ofText) := by
  induction pieces with
  | nil => rfl
  | cons piece pieces ih =>
    cases pieces with
    | nil => simp [Text.joinWith]
    | cons next pieces =>
      rw [Text.joinWith, Bytes.ofText_append, Bytes.ofText_append, ih]
      · simp only [List.map_cons, List.intercalate_cons_cons]
      · exact List.cons_ne_nil next pieces

/-- Pieces without the sign that is put between them are cut apart again. -/
theorem splitOn_joinPieces {pieces : List String} (nonempty : pieces ≠ [])
    (plain : ∀ p ∈ pieces, 0x40 ∉ Bytes.ofText p) :
    (joinPieces pieces).splitOn 0x40 = pieces.map Bytes.ofText := by
  have sign : Bytes.ofText "@" = [0x40] := by decide
  rw [joinPieces, ofText_joinWith, sign]
  refine List.splitOn_intercalate 0x40 ?_ ?_
  · simpa using plain
  · simpa using nonempty

/-- And no others are. -/
theorem splitOn_joinPieces_iff {pieces : List String} (nonempty : pieces ≠ []) :
    (joinPieces pieces).splitOn 0x40 = pieces.map Bytes.ofText ↔
      ∀ p ∈ pieces, 0x40 ∉ Bytes.ofText p := by
  refine ⟨?_, splitOn_joinPieces nonempty⟩
  intro cut p mem
  have piece : Bytes.ofText p ∈ Text.splitOnMember 0x40 (joinPieces pieces) := by
    rw [Text.splitOnMember_eq_splitOn, cut]
    exact List.mem_map_of_mem mem
  exact (Text.of_mem_splitOnMember piece).1

/-- Digits spell no other octets than digits. -/
theorem not_mem_ofText_encode {b : UInt8} (h : Hex.digit? b = none) (bs : Bytes) :
    b ∉ Bytes.ofText (Hex.encode bs) := by
  rw [Hex.ofText_encode, Hex.encodeChars, List.map_flatMap, List.mem_flatMap]
  rintro ⟨a, -, hb⟩
  have digit (n : Nat) : b ≠ (Hex.digitChar (n % 16)).toUInt8 := by
    rintro rfl
    rw [(Hex.digit?_digitChar (Nat.mod_lt n (by decide))).2] at h
    cases h
  have high : a.toNat / 16 = a.toNat / 16 % 16 := by
    have := a.toNat_lt
    omega
  simp only [Hex.pair, List.map_cons, List.map_nil, List.mem_cons, List.not_mem_nil, or_false] at hb
  rcases hb with hb | hb
  · rw [high] at hb
    exact digit _ hb
  · exact digit _ hb

/-! ## Reading -/

/-- The octets that a piece spells in digits. -/
def pieceOctets? (piece : Bytes) : Option Bytes :=
  (Bytes.text? piece).bind fun digits => (Hex.decode digits).toOption

/-- The number that a piece spells in digits. -/
def pieceNumber? (piece : Bytes) : Option Nat := (pieceOctets? piece).map unsignedValue

/-- The text that a piece spells in digits. -/
def pieceText? (piece : Bytes) : Option String := (pieceOctets? piece).bind Bytes.text?

/-- The word that a piece spells in digits. -/
def pieceWord? (piece : Bytes) : Option UInt64 :=
  (pieceNumber? piece).bind fun n => if n < UInt64.size then some (UInt64.ofNat n) else none

/-- The amount that a piece spells in digits. -/
def pieceAmount? (piece : Bytes) : Option Amount := (pieceNumber? piece).bind Amount.ofNat?

@[simp] theorem pieceOctets?_encode (bs : Bytes) :
    pieceOctets? (Bytes.ofText (Hex.encode bs)) = some bs := by
  simp [pieceOctets?, Except.toOption]

@[simp] theorem pieceText?_encode (s : String) :
    pieceText? (Bytes.ofText (Hex.encode (Bytes.ofText s))) = some s := by
  simp [pieceText?]

@[simp] theorem pieceNumber?_encodeUnsigned (n : Nat) :
    pieceNumber? (Bytes.ofText (encodeUnsigned n)) = some n := by
  simp [pieceNumber?, encodeUnsigned]

@[simp] theorem pieceWord?_encodeUnsigned (n : UInt64) :
    pieceWord? (Bytes.ofText (encodeUnsigned n.toNat)) = some n := by
  simp [pieceWord?, n.toNat_lt_size]

@[simp] theorem pieceAmount?_encodeUnsigned (a : Amount) :
    pieceAmount? (Bytes.ofText (encodeUnsigned a.toNat)) = some a := by
  simp [pieceAmount?]

/-- What the data of a transaction says about the tokens that it carries. -/
inductive Cargo
  /-- Units of a token, for whom the transaction is addressed to. -/
  | token (t : Transfer)
  /-- An item of a collection, for the owner of a key. -/
  | item (t : Transfer) (key : Bytes)
  /-- A counted list of both, for the owner of a key. -/
  | multi (key : Bytes) (count : Nat) (ts : List Transfer)
  deriving DecidableEq, Repr

namespace Cargo

/-- The transfers that stand in threes of pieces. -/
def readTriples : List Bytes → Option (List Transfer)
  | [] => some []
  | identifier :: nonce :: amount :: rest => do
    let identifier ← pieceText? identifier
    let nonce ← pieceWord? nonce
    let amount ← pieceAmount? amount
    let more ← readTriples rest
    return ⟨identifier, nonce, amount⟩ :: more
  | _ => none

/-- The cargo whose name and pieces are given. -/
def readNamed (name : String) (pieces : List Bytes) : Option Cargo :=
  match name, pieces with
  | "ESDTTransfer", [identifier, amount] => do
    let identifier ← pieceText? identifier
    let amount ← pieceAmount? amount
    return token ⟨identifier, 0, amount⟩
  | "ESDTNFTTransfer", [identifier, nonce, amount, key] => do
    let identifier ← pieceText? identifier
    let nonce ← pieceWord? nonce
    let amount ← pieceAmount? amount
    let key ← pieceOctets? key
    return item ⟨identifier, nonce, amount⟩ key
  | "MultiESDTNFTTransfer", key :: count :: rest => do
    let key ← pieceOctets? key
    let count ← pieceNumber? count
    let ts ← readTriples rest
    return multi key count ts
  | _, _ => none

/-- The cargo that data names, its pieces cut at each `@`. -/
def read (data : Bytes) : Option Cargo :=
  match data.splitOn 0x40 with
  | [] => none
  | name :: pieces => (Bytes.text? name).bind fun name => readNamed name pieces

/-- The transfers of a cargo in order. -/
def transfers : Cargo → List Transfer
  | token t => [t]
  | item t _ => [t]
  | multi _ _ ts => ts

theorem readTriples_flatMap (ts : List Transfer) :
    readTriples ((ts.flatMap Carriage.triple).map Bytes.ofText) = some ts := by
  induction ts with
  | nil => rfl
  | cons t ts ih =>
    simp [Carriage.triple, readTriples, ih]

end Cargo

namespace Carriage

/-- What a carriage brings to a receiver. -/
def cargo (receiver : Address) : Carriage → Cargo
  | token t => .token t
  | item t => .item t receiver.key
  | multi ts => .multi receiver.key ts.length ts

/-- No piece holds the sign that is put between pieces. -/
theorem plain_pieces (receiver : Address) (c : Carriage) :
    ∀ p ∈ c.pieces receiver, 0x40 ∉ Bytes.ofText p := by
  have digits (bs : Bytes) : 0x40 ∉ Bytes.ofText (Hex.encode bs) :=
    not_mem_ofText_encode (by decide) bs
  have triples (t : Transfer) : ∀ p ∈ triple t, 0x40 ∉ Bytes.ofText p := by
    simp only [triple, List.forall_mem_cons]
    exact ⟨digits _, digits _, digits _, by simp⟩
  cases c with
  | token t =>
    simp only [pieces, List.forall_mem_cons]
    exact ⟨by decide, digits _, digits _, by simp⟩
  | item t =>
    simp only [pieces, List.forall_mem_cons, List.forall_mem_append]
    exact ⟨by decide, triples t, digits _, by simp⟩
  | multi ts =>
    simp only [pieces, List.forall_mem_cons, List.mem_flatMap]
    refine ⟨by decide, digits _, digits _, ?_⟩
    rintro p ⟨t, -, hp⟩
    exact triples t p hp

theorem pieces_ne_nil (receiver : Address) (c : Carriage) : c.pieces receiver ≠ [] := by
  cases c <;> exact List.cons_ne_nil _ _

/-- The data of a carriage is read as what it brings. -/
theorem read_pieces (receiver : Address) {c : Carriage}
    (alike : ∀ t, c = token t → t.nonce = 0) :
    Cargo.read (joinPieces (c.pieces receiver)) = some (c.cargo receiver) := by
  rw [Cargo.read, splitOn_joinPieces (pieces_ne_nil receiver c) (plain_pieces receiver c)]
  cases c with
  | token t =>
    obtain ⟨identifier, nonce, amount⟩ := t
    obtain rfl : nonce = 0 := alike _ rfl
    simp [pieces, Cargo.readNamed, cargo]
  | item t => simp [pieces, triple, Cargo.readNamed, cargo, Address.hex]
  | multi ts => simp [pieces, Cargo.readNamed, cargo, Address.hex, Cargo.readTriples_flatMap]

end Carriage

end ObserverRelay.Chain
