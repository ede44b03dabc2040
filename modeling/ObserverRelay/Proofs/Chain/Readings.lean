import ObserverRelay.Proofs.Chain.WireForm
import ObserverRelay.Proofs.Json.Agreement
/-!
# A transaction is read alike from a text and from its value

A text of an object may be read as a transaction at once, or as a value that is read as a
transaction afterwards. If no member of the wire form is repeated, both give the same transaction
or none: in whatever order the members stand, however names, strings and numbers are spelled, and
whatever other members there are. A repeated member is refused in the text only, since the value
keeps the last one.

## Main statements

* `agrees_decoder`: the decoder on objects that repeat no member of the wire form.
* `parse_agrees_ofValue`: what the two readings give.
-/
namespace ObserverRelay.Chain.Transaction

open Json

variable {depth : Nat}

/-- The text is an object in which no member of the wire form is repeated. -/
def Unrepeated (s : Bytes) : Prop :=
  ∃ ms : List (String × Document String), Spells TextAt s (.object ms) ∧
    ∀ name ∈ wireNames, (ms.map Prod.fst).count name ≤ 1

theorem names_slots : slots.map Decoder.Slot.name = wireNames := rfl

theorem agrees_wordDecoder (depth : Nat) (doc : Document String) : wordDecoder.Agrees depth doc :=
  (Decoder.agrees_natural _ _ depth doc).map Nat.toUInt64

theorem agrees_amountDecoder (depth : Nat) (doc : Document String) :
    amountDecoder.Agrees depth doc :=
  (Decoder.agrees_string depth doc).refine

theorem agrees_dataDecoder (depth : Nat) (doc : Document String) : dataDecoder.Agrees depth doc :=
  (Decoder.agrees_string depth doc).refine

/-- Every member of the wire form is read from a text as from its value. -/
theorem agrees_slots (depth : Nat) (doc : Document String) :
    ∀ slot ∈ slots, slot.Agrees depth doc := by
  have text := Decoder.agrees_string depth doc
  have word := agrees_wordDecoder depth doc
  have version : (Decoder.natural32.map Nat.toUInt32).Agrees depth doc :=
    (Decoder.agrees_natural _ _ depth doc).map Nat.toUInt32
  simp only [slots, List.forall_mem_cons]
  exact ⟨.of word, .of (agrees_amountDecoder depth doc), .of text, .of text,
    .of word, .of word, .of (agrees_dataDecoder depth doc), .of text, .of version,
    .of text.optional, .of text.optional, .of text.optional, nofun⟩

/-- The decoder reads an object that repeats no member of the wire form as it reads its value. -/
theorem agrees_decoder {ms : List (String × Document String)}
    (once : ∀ name ∈ wireNames, (ms.map Prod.fst).count name ≤ 1) :
    decoder.Agrees (depth + 1) (.object ms) := by
  refine Decoder.agrees_record (fun name own => once name ?_) fun m _ slot known =>
    agrees_slots depth m.2 slot (Decoder.Shape.mem_of_slot? known).1
  rw [← names_slots]
  exact Decoder.Shape.owns_iff.mp own

theorem parse_eq_ok_iff {s : Bytes} {v : Value} (parsed : Value.parse s = .ok v)
    (unrepeated : Unrepeated s) (t : Transaction) : parse s = .ok t ↔ ofValue v = .ok t := by
  obtain ⟨ms, spelled, once⟩ := unrepeated
  obtain ⟨d, spelled', means, -⟩ := Json.parse_eq_ok_iff.mp parsed
  obtain rfl := spelled'.unique unambiguous_textAt spelled
  exact (agrees_decoder once).parse_iff spelled means

/-- From a text of an object that repeats no member of the wire form, a transaction is read at once
as by way of the value that the text is: the same one, or none both times. -/
theorem parse_agrees_ofValue {s : Bytes} {v : Value} (parsed : Value.parse s = .ok v)
    (unrepeated : Unrepeated s) :
    (∃ t, parse s = .ok t ∧ ofValue v = .ok t) ∨
      ∃ fault cause, parse s = .error fault ∧ ofValue v = .error cause := by
  have same := parse_eq_ok_iff parsed unrepeated
  cases taken : ofValue v with
  | ok t => exact .inl ⟨t, (same t).mpr taken, rfl⟩
  | error cause =>
    cases read : parse s with
    | ok t => exact absurd ((same t).mp read) (by simp [taken])
    | error fault => exact .inr ⟨fault, cause, rfl, rfl⟩

/-- A wire form in which a member `memo` stands twice, the amount has a sign and there is no
relayer. -/
def memoMembers : Members :=
  [("memo", .null), ("nonce", .ofNat 7), ("value", .string "+1"), ("receiver", .string "r"),
    ("sender", .string "s"), ("gasPrice", .ofNat 1), ("gasLimit", .ofNat 50000),
    ("chainID", .string "D"), ("version", .ofNat 2), ("relayer", .null), ("data", .string "Zg=="),
    ("memo", .array [])]

/-- A member that is repeated but unknown does not matter to either reading. -/
theorem parse_agrees_ofValue_memo :
    ∃ t, parse (Bytes.ofText (Value.object memoMembers).render) = .ok t ∧
      ofValue (.object (Members.assignAll [] memoMembers)) = .ok t ∧ t.data = [0x66] := by
  have text (x : String) := Value.Writable.string 126 x
  have word {n : Nat} (fits : n < Numeral.bound64) := Value.Writable.word 126 fits
  have writable : ∀ m ∈ memoMembers, m.2.Writable 126 := by
    simp only [memoMembers, List.forall_mem_cons]
    exact ⟨.null _, word (by decide), text _, text _, text _, word (by decide), word (by decide),
      text _, word (by decide), .null _, text _, .array nofun, nofun⟩
  obtain ⟨ms, names, spelled, means, shallow, -⟩ := exists_spells_members writable
  have parsed := Json.parse_eq_ok_iff.mpr ⟨_, spelled, means, shallow⟩
  have unrepeated : Unrepeated (Bytes.ofText (Value.object memoMembers).render) :=
    ⟨ms, spelled, by rw [names]; decide⟩
  obtain ⟨t, taken, data⟩ : ∃ t, ofValue (.object (Members.assignAll [] memoMembers)) = .ok t ∧
      t.data = [0x66] := ⟨_, rfl, by decide +kernel⟩
  rcases parse_agrees_ofValue parsed unrepeated with ⟨t', read, taken'⟩ | ⟨_, _, -, failed⟩
  · obtain rfl := Except.ok.inj (taken.symm.trans taken')
    exact ⟨t, read, taken, data⟩
  · cases taken.symm.trans failed

end ObserverRelay.Chain.Transaction
