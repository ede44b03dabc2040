import ObserverRelay.Proofs.Chain.Calls
import ObserverRelay.Proofs.Chain.Gas
/-!
# The gas that a caller sets

Who deploys or calls a contract sets the gas. Of the schedule only the chain and the price of gas
go into the transaction, so two schedules that agree on these build the same one. But a call that
brings tokens along sums up the charge for carrying them, only to drop it, and where that sum does
not fit into a word there is no transaction.

## Main statements

* `Schedule.exists_builtUnless_contractCall`: a call is built unless the charge that it drops
  overflows.
* `Schedule.caller_sets_gas`: two schedules of one chain and one price.
* `Schedule.dropped_charge_overflows`: a call that only one of two such schedules builds.
-/
namespace ObserverRelay.Chain

/-- The transaction `t` is built, unless a charge that is no part of it does not fit into a word. -/
inductive BuiltUnless (dropped : Nat) (t : Transaction) : Except Overflow Transaction → Prop
  | fits (small : dropped < UInt64.size) : BuiltUnless dropped t (.ok t)
  | overflow (e : Overflow) (large : UInt64.size ≤ dropped) : BuiltUnless dropped t (.error e)

theorem Settled.builtUnless {charge : Nat} {r : Except Overflow UInt64} (settled : Settled charge r)
    (t : Transaction) : BuiltUnless charge t (r >>= fun _ => pure t) := by
  cases settled with
  | @fits gas exact => exact .fits (exact ▸ gas.toNat_lt_size)
  | overflow e large => exact .overflow e large

theorem BuiltUnless.eq_ok {dropped : Nat} {t : Transaction} {r : Except Overflow Transaction}
    (built : BuiltUnless dropped t r) (small : dropped < UInt64.size) : r = .ok t := by
  cases built with
  | fits => rfl
  | overflow e large => exact absurd small (Nat.not_lt.mpr large)

namespace Schedule

/-- What a call is, its gas included. -/
def callDraft (s : Schedule) (sender contract : Address) (function : String) (args : List Argument)
    (gasLimit : UInt64) (native : Amount) (handed : List Transfer) : Transaction :=
  if handed = [] then
    s.transaction sender contract native gasLimit (joinPieces (function :: args.map Argument.hex))
  else
    s.transaction sender ((Carriage.of native handed).target sender contract) .zero gasLimit
      (joinPieces ((Carriage.of native handed).pieces contract ++
        Hex.encode (Bytes.ofText function) :: args.map Argument.hex))

/-- A call is built unless the charge for carrying its tokens, which it drops, overflows. -/
theorem exists_builtUnless_contractCall (s : Schedule) (sender contract : Address)
    (function : String) (args : List Argument) (gasLimit : UInt64) (native : Amount)
    (handed : List Transfer) :
    ∃ way, s.WayCharge native handed way ∧
      BuiltUnless way (s.callDraft sender contract function args gasLimit native handed)
        (s.contractCall sender contract function args gasLimit native handed) := by
  by_cases none : handed = []
  · refine ⟨0, .plain none, ?_⟩
    simp only [callDraft, contractCall, none, if_true]
    exact .fits (by decide)
  · refine ⟨_, s.wayCharge_carriage native none, ?_⟩
    simp only [callDraft, contractCall, none, if_false]
    exact ((Carriage.of native handed).settled_gas s).builtUnless _

/-- Of the schedule only the chain and the price go into a transaction. -/
theorem transaction_congr {s s' : Schedule} (chain : s.chainId = s'.chainId)
    (price : s.gasPrice = s'.gasPrice) : s.transaction = s'.transaction := by
  funext sender receiver value gasLimit data
  rw [transaction, transaction, chain, price]

theorem gasLimit_callDraft (s : Schedule) (sender contract : Address) (function : String)
    (args : List Argument) (gasLimit : UInt64) (native : Amount) (handed : List Transfer) :
    (s.callDraft sender contract function args gasLimit native handed).gasLimit = gasLimit := by
  rw [callDraft]
  split <;> rfl

/-- Two schedules of one chain and one price, whatever else they charge. Both make the same
deployment, with the gas that the caller sets. For every call there is one transaction with the gas
that the caller sets, and each of the two builds it unless its charge for carrying the tokens does
not fit into a word. This charge is dropped; it is zero without tokens. -/
theorem caller_sets_gas (s s' : Schedule) (chain : s.chainId = s'.chainId)
    (price : s.gasPrice = s'.gasPrice) (sender contract : Address) (function : String)
    (code : Bytes) (args : List Argument) (gasLimit : UInt64) (native : Amount) :
    (∃ t : Transaction, t.gasLimit = gasLimit ∧
      s.contractDeploy sender code args gasLimit native = t ∧
      s'.contractDeploy sender code args gasLimit native = t) ∧
    ∀ handed, ∃ t : Transaction, t.gasLimit = gasLimit ∧
      (∃ way, s.WayCharge native handed way ∧
        BuiltUnless way t (s.contractCall sender contract function args gasLimit native handed)) ∧
      ∃ way, s'.WayCharge native handed way ∧
        BuiltUnless way t
          (s'.contractCall sender contract function args gasLimit native handed) := by
  have same := transaction_congr chain price
  refine ⟨⟨_, rfl, by simp only [contractDeploy, same], rfl⟩, ?_⟩
  intro handed
  have draft : s'.callDraft sender contract function args gasLimit native handed =
      s.callDraft sender contract function args gasLimit native handed := by
    simp only [callDraft, same]
  refine ⟨_, s.gasLimit_callDraft sender contract function args gasLimit native handed, ?_, ?_⟩
  · exact s.exists_builtUnless_contractCall sender contract function args gasLimit native handed
  · rw [← draft]
    exact s'.exists_builtUnless_contractCall sender contract function args gasLimit native handed

/-- Two schedules that have nothing in common but the chain and the price. A call that brings two
transfers and some native currency is the same for both. -/
theorem caller_sets_gas_two_schedules :
    let cheap : Schedule := ⟨"T", 1, 2, 1000000000, 3, 4, 5, 6, 7, 8⟩
    let call (s : Schedule) := s.contractCall
      ⟨"erd1s", List.replicate 32 0xFF, by decide, by decide⟩ .deployTarget "f" [.flag true] 9
      ⟨300, by decide⟩ [.fungible "A" .zero, ⟨"B", 7, .zero⟩]
    (Schedule.new "T").chainId = cheap.chainId ∧ (Schedule.new "T").gasPrice = cheap.gasPrice ∧
      ∃ t : Transaction, t.gasLimit = 9 ∧ call (.new "T") = .ok t ∧ call cheap = .ok t := by
  intro cheap call
  obtain ⟨-, calls⟩ := caller_sets_gas (.new "T") cheap rfl rfl
    ⟨"erd1s", List.replicate 32 0xFF, by decide, by decide⟩ .deployTarget "f" [] [.flag true] 9
    ⟨300, by decide⟩
  have small {s : Schedule} {way : Nat}
      (told : s.WayCharge ⟨300, by decide⟩ [.fungible "A" .zero, ⟨"B", 7, .zero⟩] way)
      (sum : s.multiGas.toNat * 3 + s.itemExtraGas.toNat < UInt64.size) : way < UInt64.size := by
    cases told with
    | plain none => cases none
    | token only => cases only
    | item only => cases only
    | multi => exact sum
  obtain ⟨t, gas, ⟨way, told, built⟩, way', told', built'⟩ :=
    calls [.fungible "A" .zero, ⟨"B", 7, .zero⟩]
  refine ⟨rfl, rfl, t, gas, ?_, ?_⟩
  · exact built.eq_ok (small told (by decide))
  · exact built'.eq_ok (small told' (by decide))

/-- A schedule on which carrying a token costs more than fits into a word. A call that brings the
token is not built, though its gas is set by the caller and the usual schedule builds it. -/
theorem dropped_charge_overflows :
    let dear : Schedule := { Schedule.new "T" with tokenGas := 0xFFFFFFFFFFFFFFFF }
    let call (s : Schedule) := s.contractCall
      ⟨"erd1s", List.replicate 32 0xFF, by decide, by decide⟩ .deployTarget "f" [] 9 .zero
      [.fungible "A" .zero]
    dear.chainId = (Schedule.new "T").chainId ∧ dear.gasPrice = (Schedule.new "T").gasPrice ∧
      (∃ t : Transaction, call (.new "T") = .ok t ∧ t.gasLimit = 9) ∧
      call dear = .error .add := by
  exact ⟨rfl, rfl, ⟨_, rfl, rfl⟩, rfl⟩

end Schedule

end ObserverRelay.Chain
