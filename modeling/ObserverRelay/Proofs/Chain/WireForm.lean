import ObserverRelay.Chain.Transaction
import ObserverRelay.Proofs.Json.BothWays
/-!
# The wire form of a transaction

The numbers of a wire form are words, its names differ and nothing in it is nested, so its text is
read back as the value that was written. The decoder takes the value as the transaction, member by
member: what was left out is put back, the data from its base64 and the amount from its digits.

## Main statements

* `parseFront_wire`, `parse_wire`: the text is read back as the value.
* `takes_decoder`: the value and its texts are taken as the transaction.
* `wire_read_back`: the transaction is read back, from the text and by way of the value, so that no
  two transactions have one wire form.
-/
namespace ObserverRelay.Chain.Transaction

open Json

variable {depth : Nat}

/-! ## The value -/

/-- What stands in the wire form: words in digits, and texts. -/
inductive Plain : Value → Prop
  | word {n : Nat} (fits : n < Numeral.bound64) : Plain (.ofNat n)
  | text (x : String) : Plain (.string x)

namespace Plain

variable {v : Value}

theorem whole (plain : Plain v) : v.Whole := by
  cases plain with
  | @word n fits => exact .integer (by omega) (by omega)
  | text x => exact .string x

theorem distinct (plain : Plain v) : v.Distinct := by
  cases plain with
  | word => exact .number _
  | text x => exact .string x

theorem within (depth : Nat) (plain : Plain v) : v.Within depth := by
  cases plain with
  | word => exact .number depth _
  | text x => exact .string depth x

end Plain

theorem plain_dataMember (data : Bytes) : ∀ m ∈ dataMember data, Plain m.2 := by
  intro m mem
  rw [dataMember] at mem
  split at mem
  next => cases mem
  next =>
    rw [List.mem_singleton] at mem
    subst mem
    exact .text _

theorem plain_optionalMember (name : String) (x : Option String) :
    ∀ m ∈ optionalMember name x, Plain m.2 := by
  intro m mem
  cases x with
  | none => cases mem
  | some x =>
    rw [optionalMember, List.mem_singleton] at mem
    subst mem
    exact .text x

theorem plain_members (t : Transaction) : ∀ m ∈ t.members, Plain m.2 := by
  have word (n : UInt64) : Plain (.ofNat n.toNat) := .word n.toNat_lt
  have version : Plain (.ofNat t.version.toNat) := .word (Nat.lt_trans t.version.toNat_lt (by decide))
  simp only [members, List.forall_mem_append, List.forall_mem_cons]
  exact ⟨⟨⟨⟨⟨⟨word t.nonce, .text _, .text _, .text _, word t.gasPrice, word t.gasLimit, by simp⟩,
    plain_dataMember t.data⟩, .text _, version, by simp⟩, plain_optionalMember _ _⟩,
    plain_optionalMember _ _⟩, plain_optionalMember _ _⟩

/-- The names that the wire form may hold, in order. -/
def wireNames : List String :=
  ["nonce", "value", "receiver", "sender", "gasPrice", "gasLimit"] ++ ["data"] ++
    ["chainID", "version"] ++ ["signature"] ++ ["relayer"] ++ ["relayerSignature"]

theorem names_dataMember (data : Bytes) : (Members.names (dataMember data)).Sublist ["data"] := by
  rw [dataMember]
  split
  next => exact List.nil_sublist _
  next => exact List.Sublist.refl _

theorem names_optionalMember (name : String) (x : Option String) :
    (Members.names (optionalMember name x)).Sublist [name] := by
  cases x with
  | none => exact List.nil_sublist _
  | some x => exact List.Sublist.refl _

theorem names_members (t : Transaction) : (Members.names t.members).Sublist wireNames := by
  simp only [members, Members.names, List.map_append]
  have same (names : List String) : names.Sublist names := .refl names
  exact ((((same _).append (names_dataMember t.data)).append (same _)).append
    (names_optionalMember _ t.signature)).append (names_optionalMember _ t.relayer) |>.append
    (names_optionalMember _ t.relayerSignature)

/-- The names of the members that every wire form has. -/
def mandatoryNames : List String :=
  ["nonce", "value", "receiver", "sender", "gasPrice", "gasLimit", "chainID", "version"]

/-- The names of the members that the wire form of a transaction has. -/
inductive Has (t : Transaction) : String → Prop
  | mandatory {name : String} (mem : name ∈ mandatoryNames) : Has t name
  | data (nonempty : t.data ≠ []) : Has t "data"
  | signature (present : t.signature.isSome) : Has t "signature"
  | relayer (present : t.relayer.isSome) : Has t "relayer"
  | relayerSignature (present : t.relayerSignature.isSome) : Has t "relayerSignature"

theorem mem_names_dataMember {name : String} {data : Bytes} :
    name ∈ Members.names (dataMember data) ↔ name = "data" ∧ data ≠ [] := by
  rw [dataMember]
  split <;> simp_all [Members.names]

theorem mem_names_optionalMember {name key : String} {x : Option String} :
    name ∈ Members.names (optionalMember key x) ↔ name = key ∧ x.isSome := by
  cases x <;> simp [optionalMember, Members.names]

theorem mem_names_members {t : Transaction} {name : String} :
    name ∈ Members.names t.members ↔ t.Has name := by
  have parts : name ∈ Members.names t.members ↔
      name ∈ mandatoryNames ∨ (name = "data" ∧ t.data ≠ []) ∨
        (name = "signature" ∧ t.signature.isSome) ∨ (name = "relayer" ∧ t.relayer.isSome) ∨
        (name = "relayerSignature" ∧ t.relayerSignature.isSome) := by
    rw [← mem_names_dataMember, ← mem_names_optionalMember, ← mem_names_optionalMember,
      ← mem_names_optionalMember]
    simp only [members, mandatoryNames, Members.names, List.map_append, List.mem_append,
      List.map_cons, List.map_nil, List.mem_cons, List.not_mem_nil]
    tauto
  rw [parts]
  constructor
  · rintro (mem | ⟨rfl, nonempty⟩ | ⟨rfl, present⟩ | ⟨rfl, present⟩ | ⟨rfl, present⟩)
    · exact .mandatory mem
    · exact .data nonempty
    · exact .signature present
    · exact .relayer present
    · exact .relayerSignature present
  · rintro (mem | nonempty | present | present | present) <;> simp_all

theorem whole_toValue (t : Transaction) : t.toValue.Whole :=
  .object fun m mem => (t.plain_members m mem).whole

theorem nodup_names (t : Transaction) : (Members.names t.members).Nodup := by
  have distinct : wireNames.Nodup := by decide
  exact distinct.sublist t.names_members

theorem distinct_toValue (t : Transaction) : t.toValue.Distinct :=
  .object t.nodup_names fun m mem => (t.plain_members m mem).distinct

theorem within_toValue (depth : Nat) (t : Transaction) : t.toValue.Within (depth + 1) :=
  .object fun m mem => (t.plain_members m mem).within depth

/-- The wire form is read back as the value that was written, from the front of a text. -/
theorem parseFront_wire (t : Transaction) : Value.parseFront (Bytes.ofText t.wire) = .ok t.toValue :=
  parseFront_render t.whole_toValue t.distinct_toValue (t.within_toValue 126)

/-- The wire form as a whole is read back as the value that was written. -/
theorem parse_wire (t : Transaction) : Value.parse (Bytes.ofText t.wire) = .ok t.toValue :=
  parse_render t.whole_toValue t.distinct_toValue (t.within_toValue 126)

/-! ## The decoder -/

theorem takes_wordDecoder (depth : Nat) (n : UInt64) :
    wordDecoder.TakesBoth depth (.ofNat n.toNat) n := by
  have taken := (Decoder.takesBoth_natural n.toNat_lt "u64" depth).map Nat.toUInt64
  rwa [Nat.toUInt64_eq, UInt64.ofNat_toNat] at taken

theorem takes_versionDecoder (depth : Nat) (n : UInt32) :
    (Decoder.natural32.map Nat.toUInt32).TakesBoth depth (.ofNat n.toNat) n := by
  have taken := (Decoder.takesBoth_natural n.toNat_lt "u32" depth).map Nat.toUInt32
  rwa [Nat.toUInt32_eq, UInt32.ofNat_toNat] at taken

theorem takes_amountDecoder (depth : Nat) (a : Amount) :
    amountDecoder.TakesBoth depth (.string a.text) a :=
  (Decoder.takesBoth_string depth a.text).refine (by rw [Amount.read_text]; rfl)

/-- Octets are read back from their base64, which is ASCII. -/
theorem takes_dataDecoder (depth : Nat) (data : Bytes) :
    dataDecoder.TakesBoth depth (.string (Bytes.lossyText (Base64.encode data))) data := by
  refine (Decoder.takesBoth_string depth _).refine ?_
  rw [Bytes.ofText_lossyText (Base64.ascii_encode data), Base64.decode_encode]
  rfl

/-- The shape that the decoder reads. -/
def shape : Decoder.Shape Draft Transaction := ⟨"struct Transaction", slots, .empty, Draft.finish⟩

/-- An optional text enters its place, and an absent one leaves the draft as it is. -/
theorem enters_optionalMember (name : String) (get : Draft → Option (Option String))
    (set : Option (Option String) → Draft → Draft) {start : Draft}
    (known : shape.slot? name =
      some (.of name false get (fun x d => set (some x) d) (.optional .string)))
    (fresh : get start = none) (same : set none start = start) (x : Option String) :
    shape.Enters depth start (optionalMember name x) (set (x.map some) start) := by
  cases x with
  | none =>
    rw [Option.map_none, same]
    exact .done start
  | some x =>
    have present : Value.string x ≠ .null := by simp
    exact .more known fresh ((Decoder.takesBoth_string depth x).optional present) (.done _)

theorem enters_dataMember {start : Draft} (fresh : start.data = none) (data : Bytes) :
    shape.Enters depth start (dataMember data)
      { start with data := if data = [] then none else some data } := by
  rw [dataMember]
  split
  next =>
    have same : { start with data := none } = start := by rw [← fresh]
    rw [same]
    exact .done start
  next => exact .more rfl fresh (takes_dataDecoder depth data) (.done _)

/-- What has been read of a transaction at the end of its wire form. -/
def draft (t : Transaction) : Draft where
  nonce := some t.nonce
  value := some t.value
  receiver := some t.receiver
  sender := some t.sender
  gasPrice := some t.gasPrice
  gasLimit := some t.gasLimit
  data := if t.data = [] then none else some t.data
  chainId := some t.chainId
  version := some t.version
  signature := t.signature.map some
  relayer := t.relayer.map some
  relayerSignature := t.relayerSignature.map some

theorem finish_draft (t : Transaction) : t.draft.finish = .ok t := by
  have data : (if t.data = [] then none else some t.data).getD [] = t.data := by
    split
    next empty => exact empty.symm
    next => rfl
  have text (x : Option String) : (x.map some).getD none = x := by cases x <;> rfl
  simp only [Draft.finish, draft, Decoder.need, data, text]
  rfl

theorem enters_members (t : Transaction) : shape.Enters depth .empty t.members t.draft := by
  have text := Decoder.takesBoth_string depth
  have word := takes_wordDecoder depth
  -- The draft holds nothing yet of the members that come later.
  have front : shape.Enters depth .empty
      [("nonce", .ofNat t.nonce.toNat), ("value", .string t.value.text),
        ("receiver", .string t.receiver), ("sender", .string t.sender),
        ("gasPrice", .ofNat t.gasPrice.toNat), ("gasLimit", .ofNat t.gasLimit.toNat)]
      { t.draft with
        data := none, chainId := none, version := none
        signature := none, relayer := none, relayerSignature := none } :=
    .more rfl rfl (word t.nonce) <| .more rfl rfl (takes_amountDecoder depth t.value) <|
      .more rfl rfl (text t.receiver) <| .more rfl rfl (text t.sender) <|
      .more rfl rfl (word t.gasPrice) <| .more rfl rfl (word t.gasLimit) <| .done _
  have version : shape.Enters depth
      { t.draft with
        chainId := none, version := none
        signature := none, relayer := none, relayerSignature := none }
      [("chainID", .string t.chainId), ("version", .ofNat t.version.toNat)]
      { t.draft with signature := none, relayer := none, relayerSignature := none } :=
    .more rfl rfl (text t.chainId) <| .more rfl rfl (takes_versionDecoder depth t.version) <| .done _
  have mandatory := (front.append (enters_dataMember rfl t.data)).append version
  have signed := mandatory.append <|
    enters_optionalMember "signature" Draft.signature (fun x d => { d with signature := x })
      rfl rfl rfl t.signature
  have relayed := signed.append <|
    enters_optionalMember "relayer" Draft.relayer (fun x d => { d with relayer := x })
      rfl rfl rfl t.relayer
  exact relayed.append <|
    enters_optionalMember "relayerSignature" Draft.relayerSignature
      (fun x d => { d with relayerSignature := x }) rfl rfl rfl t.relayerSignature

/-- The value and its texts are taken as the transaction. -/
theorem takes_decoder (depth : Nat) (t : Transaction) :
    decoder.TakesBoth (depth + 1) t.toValue t :=
  Decoder.takesBoth_record t.enters_members t.finish_draft

theorem ofValue_toValue (t : Transaction) : ofValue t.toValue = .ok t := by
  rw [ofValue]
  exact (takes_decoder 0 t).value

/-- A transaction is read back from its wire form, from the text and by way of the value that the
text is. The value has the eight mandatory members, data unless it is empty, and each optional
member that is present, and none of them twice. No two transactions have one wire form. -/
theorem wire_read_back :
    (∀ t : Transaction,
      parse (Bytes.ofText t.wire) = .ok t ∧
        Value.parse (Bytes.ofText t.wire) = .ok (.object t.members) ∧
        ofValue (.object t.members) = .ok t ∧
        (Members.names t.members).Nodup ∧ ∀ name, name ∈ Members.names t.members ↔ t.Has name) ∧
      Function.Injective wire := by
  have read (t : Transaction) : parse (Bytes.ofText t.wire) = .ok t :=
    (takes_decoder 126 t).parse_render t.whole_toValue
  constructor
  · intro t
    exact ⟨read t, t.parse_wire, t.ofValue_toValue, t.nodup_names, fun _ => mem_names_members⟩
  · intro t u same
    have first := read t
    rw [same, read u] at first
    exact (Except.ok.inj first).symm

end ObserverRelay.Chain.Transaction
