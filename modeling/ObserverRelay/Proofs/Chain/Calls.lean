import ObserverRelay.Proofs.Chain.Cargo
import ObserverRelay.Proofs.Chain.Charge
import ObserverRelay.Proofs.Text.Ascii
/-!
# Calls and deployments read from their data

The data of a call or a deployment is cut at each `@`. Everything in it is in hexadecimal digits but
the name of a way of carrying tokens and, without tokens, the name of the function; so only a
function whose name holds the sign itself is torn apart. With tokens the call is their transfer with
more pieces behind it.

## Main statements

* `Argument.plain_hex`: no argument holds the sign between pieces.
* `splitOn_contractCall_carried`: what a call that carries tokens is cut into.
* `calls_read_back`: deployments, and calls with and without tokens.
-/
namespace ObserverRelay.Chain

/-- An argument is digits only. -/
theorem Argument.plain_hex (a : Argument) : 0x40 ∉ Bytes.ofText a.hex := by
  have digits (bs : Bytes) : 0x40 ∉ Bytes.ofText (Hex.encode bs) :=
    not_mem_ofText_encode (by decide) bs
  cases a with
  | word n => exact digits _
  | big n => exact digits _
  | flag b => cases b <;> decide
  | octets bs => exact digits bs
  | text s => exact digits _
  | address a => exact digits a.key

theorem plain_arguments (args : List Argument) :
    ∀ p ∈ args.map Argument.hex, 0x40 ∉ Bytes.ofText p := by
  rw [List.forall_mem_map]
  intro a _
  exact a.plain_hex

/-- The sign is an octet of a text where it is one of its characters. -/
theorem sign_mem_ofText_iff (s : String) : 0x40 ∈ Bytes.ofText s ↔ '@' ∈ s.toList := by
  rw [Bytes.ofText_eq]
  exact Bytes.mem_ofChars_iff (c := '@') (by decide)

namespace Schedule
variable {s : Schedule} {contract : Address} {native : Amount} {handed : List Transfer}

/-- A deployment is cut into the code, two fixed pieces and the arguments. -/
theorem splitOn_contractDeploy (s : Schedule) (sender : Address) (code : Bytes)
    (args : List Argument) (gasLimit : UInt64) (amount : Amount) :
    (s.contractDeploy sender code args gasLimit amount).data.splitOn 0x40 =
      (Hex.encode code :: "0500" :: "0504" :: args.map Argument.hex).map Bytes.ofText := by
  refine splitOn_joinPieces (List.cons_ne_nil _ _) ?_
  simp only [List.cons_append, List.nil_append, List.forall_mem_cons]
  exact ⟨not_mem_ofText_encode (by decide) code, by decide, by decide, plain_arguments args⟩

/-- A call that carries tokens is built when the charge for carrying them fits into a word. -/
theorem contractCall_of_lt (sender contract : Address) (function : String) (args : List Argument)
    (gasLimit : UInt64) (some : handed ≠ [])
    (fits : (Carriage.of native handed).charge s < UInt64.size) :
    s.contractCall sender contract function args gasLimit native handed =
      .ok (s.transaction sender ((Carriage.of native handed).target sender contract) .zero gasLimit
        (joinPieces ((Carriage.of native handed).pieces contract ++
          Hex.encode (Bytes.ofText function) :: args.map Argument.hex))) := by
  obtain ⟨gas, carried, -⟩ := Carriage.gas_of_lt fits
  simp only [contractCall, if_neg some, carried]
  rfl

/-- What is put behind the pieces of a carriage is cut off behind them. -/
theorem splitOn_contractCall_carried (c : Carriage) (contract : Address) (function : String)
    (args : List Argument) :
    (joinPieces (c.pieces contract ++
        Hex.encode (Bytes.ofText function) :: args.map Argument.hex)).splitOn 0x40 =
      (joinPieces (c.pieces contract)).splitOn 0x40 ++
        (Hex.encode (Bytes.ofText function) :: args.map Argument.hex).map Bytes.ofText := by
  have plain := c.plain_pieces contract
  rw [splitOn_joinPieces (c.pieces_ne_nil contract) plain, ← List.map_append]
  refine splitOn_joinPieces (List.append_ne_nil_of_left_ne_nil (c.pieces_ne_nil contract) _) ?_
  simp only [List.forall_mem_append, List.forall_mem_cons]
  exact ⟨plain, not_mem_ofText_encode (by decide) _, plain_arguments args⟩

/-- A call without tokens is cut into function and arguments exactly if the name of the function
does not hold the sign. -/
theorem splitOn_contractCall_iff (function : String) (args : List Argument) :
    (joinPieces (function :: args.map Argument.hex)).splitOn 0x40 =
        (function :: args.map Argument.hex).map Bytes.ofText ↔ '@' ∉ function.toList := by
  rw [splitOn_joinPieces_iff (List.cons_ne_nil _ _), List.forall_mem_cons, sign_mem_ofText_iff]
  exact and_iff_left (plain_arguments args)

/-- Deployments and calls are read back from their data, cut at each `@`. A deployment goes to the
address whose key is zero. With tokens a call is their transfer, with the function and the
arguments behind it. Without tokens it goes to the contract, and its pieces are function and
arguments exactly if the name of the function does not hold the sign. -/
theorem calls_read_back (s : Schedule) (sender contract : Address) (function : String) (code : Bytes)
    (args : List Argument) (gasLimit : UInt64) (native : Amount) :
    (∃ t, s.contractDeploy sender code args gasLimit native = t ∧
      t.data.splitOn 0x40 =
        (Hex.encode code :: "0500" :: "0504" :: args.map Argument.hex).map Bytes.ofText ∧
      t.receiver = Address.deployTarget.bech32 ∧ Address.deployTarget.key = List.replicate 32 0 ∧
      t.value = native ∧ t.gasLimit = gasLimit) ∧
    (∀ handed, handed ≠ [] → s.tokenCharge contract native handed < UInt64.size →
      ∃ carried called, s.tokenTransfer sender contract native handed = .ok carried ∧
        s.contractCall sender contract function args gasLimit native handed = .ok called ∧
        called.data.splitOn 0x40 = carried.data.splitOn 0x40 ++
          (Hex.encode (Bytes.ofText function) :: args.map Argument.hex).map Bytes.ofText ∧
        called.receiver = carried.receiver ∧ called.value = .zero) ∧
    ∃ called, s.contractCall sender contract function args gasLimit native [] = .ok called ∧
      called.receiver = contract.bech32 ∧ called.value = native ∧
      (called.data.splitOn 0x40 = (function :: args.map Argument.hex).map Bytes.ofText ↔
        '@' ∉ function.toList) := by
  refine ⟨⟨_, rfl, splitOn_contractDeploy .., rfl, rfl, rfl, rfl⟩, ?_, ?_⟩
  · intro handed some fits
    obtain ⟨gas, carried, -⟩ := tokenTransfer_of_lt sender some fits
    have way : (Carriage.of native handed).charge s < UInt64.size := by
      rw [tokenCharge, if_neg some] at fits
      omega
    have called := contractCall_of_lt sender contract function args gasLimit some way
    exact ⟨_, _, carried, called, splitOn_contractCall_carried .., rfl, rfl⟩
  · exact ⟨_, rfl, rfl, rfl, splitOn_contractCall_iff function args⟩

/-- A function with the sign in its name is called with a token whose name holds it too. Its pieces
stand behind those of the transfer, while without tokens its name is torn apart. -/
theorem calls_read_back_sign :
    (∃ carried called,
      (Schedule.new "T").tokenTransfer ⟨"erd1s", List.replicate 32 0xFF, by decide, by decide⟩
          .deployTarget .zero [⟨"A@B", 7, ⟨256, by decide⟩⟩] = .ok carried ∧
        (Schedule.new "T").contractCall ⟨"erd1s", List.replicate 32 0xFF, by decide, by decide⟩
          .deployTarget "f@" [.flag false, .text "@"] 5 .zero [⟨"A@B", 7, ⟨256, by decide⟩⟩] =
          .ok called ∧
        called.data.splitOn 0x40 =
          carried.data.splitOn 0x40 ++ ["6640", "", "40"].map Bytes.ofText) ∧
      ∃ called,
        (Schedule.new "T").contractCall ⟨"erd1s", List.replicate 32 0xFF, by decide, by decide⟩
          .deployTarget "f@" [.flag false, .text "@"] 5 .zero [] = .ok called ∧
        called.data.splitOn 0x40 ≠ ["f@", "", "40"].map Bytes.ofText := by
  obtain ⟨-, carries, called, call, -, -, cut⟩ := calls_read_back (.new "T")
    ⟨"erd1s", List.replicate 32 0xFF, by decide, by decide⟩ .deployTarget "f@" []
    [.flag false, .text "@"] 5 .zero
  have spelled : Hex.encode (Bytes.ofText "f@") :: [Argument.flag false, .text "@"].map Argument.hex =
      ["6640", "", "40"] := by
    decide
  have fits : (Schedule.new "T").tokenCharge .deployTarget .zero [⟨"A@B", 7, ⟨256, by decide⟩⟩] <
      UInt64.size := by
    decide +kernel
  obtain ⟨carried, paid, transfer, call', pieces, -, -⟩ := carries _ (List.cons_ne_nil _ _) fits
  rw [spelled] at pieces
  refine ⟨⟨carried, paid, transfer, call', pieces⟩, called, call, ?_⟩
  exact fun same => absurd (cut.mp same) (by decide)

end Schedule

end ObserverRelay.Chain
