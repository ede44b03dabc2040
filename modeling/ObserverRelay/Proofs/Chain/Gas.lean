import ObserverRelay.Proofs.Chain.TokenTransfer
/-!
# Gas of transfers and of relayed transactions

The gas of a transfer is a sum of natural numbers that is told by the transfer alone, and each
relayer adds the same to it. One step of relaying keeps a charge exact, so any chain of relayers
does.

## Main statements

* `Charged.relays`: a chain of relayers adds up.
* `charged_exactly`: transfers of currency and of tokens, relayed any number of times.
-/
namespace ObserverRelay.Chain

/-- The transaction with the last of the relayers as the one who pays, if there is any. -/
def Transaction.paidBy (t : Transaction) (relayers : List Address) : Transaction :=
  { t with relayer := (relayers.getLast?.map Address.bech32).or t.relayer }

theorem Transaction.paidBy_cons (t : Transaction) (relayer : Address) (relayers : List Address) :
    t.paidBy (relayer :: relayers) =
      ({ t with relayer := some relayer.bech32 } : Transaction).paidBy relayers := by
  cases relayers with
  | nil => simp [paidBy]
  | cons next relayers => simp [paidBy, List.getLast?_cons]

section Relay
variable {s : Schedule} {charge : Nat} {t : Transaction} {r : Except Overflow Transaction}

/-- A relayer adds to the charge and is named, and nothing else changes. -/
theorem Charged.relay (charged : Charged charge t r) (relayer : Address) :
    Charged (charge + s.relayGas.toNat) { t with relayer := some relayer.bech32 }
      (r >>= fun t => s.relay t relayer) := by
  cases charged with
  | @fits gas exact =>
    rw [← exact]
    exact (settled_add gas s.relayGas).charged { t with relayer := some relayer.bech32 }
  | overflow e large => exact .overflow e (Nat.le_trans large (Nat.le_add_right _ _))

theorem Charged.relays (charged : Charged charge t r) (relayers : List Address) :
    Charged (charge + relayers.length * s.relayGas.toNat) (t.paidBy relayers)
      (r >>= fun t => relayers.foldlM s.relay t) := by
  -- What the first relayer makes of the transaction is charged too, so it takes the place of `r`.
  induction relayers generalizing charge t r with
  | nil => simpa [Transaction.paidBy] using charged
  | cons relayer relayers ih =>
    have rest := ih (charged.relay (s := s) relayer)
    rw [bind_assoc, ← Transaction.paidBy_cons] at rest
    have total : charge + (relayer :: relayers).length * s.relayGas.toNat =
        charge + s.relayGas.toNat + relayers.length * s.relayGas.toNat := by
      rw [List.length_cons, Nat.succ_mul]
      omega
    rw [total]
    exact rest

end Relay

namespace Schedule

/-- What a token transfer costs beside its data: nothing without tokens; a fixed charge for a
single token, which depends on whether all its units are alike; else a charge for each transfer,
the native currency counted as one. -/
inductive WayCharge (s : Schedule) (native : Amount) (handed : List Transfer) : Nat → Prop
  | plain (none : handed = []) : WayCharge s native handed 0
  | token {t : Transfer} (only : handed = [t]) (alike : t.nonce = 0) (alone : native.toNat = 0) :
      WayCharge s native handed (s.tokenGas.toNat + s.tokenExtraGas.toNat)
  | item {t : Transfer} (only : handed = [t]) (single : 0 < t.nonce) (alone : native.toNat = 0) :
      WayCharge s native handed (s.itemGas.toNat + s.itemExtraGas.toNat)
  | multi (some : handed ≠ []) (several : 0 < native.toNat ∨ handed.length ≠ 1) :
      WayCharge s native handed
        (s.multiGas.toNat * (handed.length + if 0 < native.toNat then 1 else 0) +
          s.itemExtraGas.toNat)

theorem length_payload (native : Amount) (handed : List Transfer) :
    (payload native handed).length = handed.length + if 0 < native.toNat then 1 else 0 := by
  rw [payload, List.length_append]
  split <;> rfl

/-- What carrying tokens costs is told by what is handed over. -/
theorem wayCharge_carriage (s : Schedule) (native : Amount) {handed : List Transfer}
    (some : handed ≠ []) : s.WayCharge native handed ((Carriage.of native handed).charge s) := by
  obtain ⟨t, only, alike, alone, way⟩ | ⟨t, only, single, alone, way⟩ | ⟨several, way⟩ :=
    Carriage.of_cases native handed
  · rw [way]
    exact .token only alike alone
  · rw [way]
    exact .item only single alone
  · rw [way, Carriage.charge, length_payload]
    exact .multi some several

/-- A token transfer is charged for its data and for the way of carrying. -/
theorem exists_wayCharge (s : Schedule) (sender receiver : Address) (native : Amount)
    (handed : List Transfer) :
    ∃ way, s.WayCharge native handed way ∧
      s.tokenCharge receiver native handed =
        s.dataCharge (s.tokenDraft sender receiver native handed).data + way := by
  by_cases none : handed = []
  · refine ⟨0, .plain none, ?_⟩
    simp only [tokenCharge, tokenDraft, none, if_true]
    rfl
  · refine ⟨(Carriage.of native handed).charge s, s.wayCharge_carriage native none, ?_⟩
    simp only [tokenCharge, tokenDraft, none, if_false]
    rfl

/-- A transfer of currency, a transfer of tokens and a transaction of any kind, each relayed any
number of times. The gas is the charge exactly if that fits into a word, and otherwise an overflow
is reported. Relaying changes nothing but the gas and the one who pays. -/
theorem charged_exactly (s : Schedule) (sender receiver : Address) (amount : Amount)
    (relayers : List Address) :
    (∀ data, Charged (s.dataCharge data + relayers.length * s.relayGas.toNat)
      ((s.transaction sender receiver amount 0 data).paidBy relayers)
      (s.nativeTransfer sender receiver amount data >>= fun t => relayers.foldlM s.relay t)) ∧
    (∀ handed, ∃ way, s.WayCharge amount handed way ∧
      Charged (s.dataCharge (s.tokenDraft sender receiver amount handed).data + way +
          relayers.length * s.relayGas.toNat)
        ((s.tokenDraft sender receiver amount handed).paidBy relayers)
        (s.tokenTransfer sender receiver amount handed >>= fun t => relayers.foldlM s.relay t)) ∧
    ∀ t : Transaction, Charged (t.gasLimit.toNat + relayers.length * s.relayGas.toNat)
      (t.paidBy relayers) (relayers.foldlM s.relay t) := by
  refine ⟨?_, ?_, ?_⟩
  · intro data
    exact (s.charged_nativeTransfer sender receiver amount data).relays relayers
  · intro handed
    obtain ⟨way, told, total⟩ := s.exists_wayCharge sender receiver amount handed
    refine ⟨way, told, ?_⟩
    rw [← total]
    exact (s.charged_tokenTransfer sender receiver amount handed).relays relayers
  · intro t
    have given : Charged t.gasLimit.toNat t (.ok t) := .fits rfl
    exact given.relays relayers

end Schedule

end ObserverRelay.Chain
