import ObserverRelay.Proofs.Chain.Cargo
import ObserverRelay.Proofs.Chain.Charge
/-!
# Token transfers arrive whole

A token transfer is judged by what a reader of its data finds: all tokens that were handed over
and no others, in order, with native currency as the last of them, and the receiver, either as
the one whom the transaction is addressed to or by its key in the data.

## Main statements

* `transfers_cargo_of`: what is carried is what was handed over.
* `tokenTransfer_delivers`: every token transfer whose charge fits into a word.
-/
namespace ObserverRelay.Chain

/-- Everything that a transfer carries: the tokens handed over, and behind them the native currency
if there is any. -/
def payload (native : Amount) (handed : List Transfer) : List Transfer :=
  handed ++ if 0 < native.toNat then [⟨"EGLD-000000", 0, native⟩] else []

/-- How a cargo names the receiver: units of one token go to it directly, everything else goes
through the sender's own account with the receiver's key in the data. -/
inductive Cargo.Addressed (sender receiver : Address) (native : Amount) (handed : List Transfer)
    (addressee : String) : Cargo → Prop
  | token {t : Transfer} (only : handed = [t]) (alike : t.nonce = 0) (alone : native.toNat = 0)
      (direct : addressee = receiver.bech32) :
      Addressed sender receiver native handed addressee (.token t)
  | item {t : Transfer} (only : handed = [t]) (single : 0 < t.nonce) (alone : native.toNat = 0)
      (self : addressee = sender.bech32) :
      Addressed sender receiver native handed addressee (.item t receiver.key)
  | multi {ts : List Transfer} (several : 0 < native.toNat ∨ handed.length ≠ 1)
      (self : addressee = sender.bech32) :
      Addressed sender receiver native handed addressee (.multi receiver.key ts.length ts)

variable {s : Schedule} {receiver : Address} {native : Amount} {handed : List Transfer}

/-- The three ways of carrying, each with the only case in which it is chosen. -/
theorem Carriage.of_cases (native : Amount) (handed : List Transfer) :
    (∃ t, handed = [t] ∧ t.nonce = 0 ∧ native.toNat = 0 ∧ Carriage.of native handed = .token t) ∨
    (∃ t, handed = [t] ∧ 0 < t.nonce ∧ native.toNat = 0 ∧ Carriage.of native handed = .item t) ∨
    ((0 < native.toNat ∨ handed.length ≠ 1) ∧
      Carriage.of native handed = .multi (payload native handed)) := by
  -- Only a single transfer without native currency is not carried among several.
  by_cases none : native.toNat = 0
  · match handed with
    | [] => exact .inr (.inr ⟨.inr (by simp), by simp [Carriage.of, none, payload]⟩)
    | [t] =>
      by_cases alike : t.nonce = 0
      · exact .inl ⟨t, rfl, alike, none, by simp [Carriage.of, none, Transfer.isFungible, alike]⟩
      · have single : 0 < t.nonce := UInt64.pos_iff_ne_zero.mpr alike
        exact .inr (.inl ⟨t, rfl, single, none,
          by simp [Carriage.of, none, Transfer.isFungible, alike]⟩)
    | t :: u :: ts => exact .inr (.inr ⟨.inr (by simp), by simp [Carriage.of, none, payload]⟩)
  · have some : 0 < native.toNat := Nat.pos_of_ne_zero none
    refine .inr (.inr ⟨.inl some, ?_⟩)
    simp only [Carriage.of, none, if_false, payload, some, if_true]
    rfl

/-- The data of a carriage is read as what was handed over, for the receiver. -/
theorem read_carriage (sender receiver : Address) (native : Amount) (handed : List Transfer) :
    ∃ cargo, Cargo.read (joinPieces ((Carriage.of native handed).pieces receiver)) = some cargo ∧
      cargo.transfers = payload native handed ∧
      cargo.Addressed sender receiver native handed
        ((Carriage.of native handed).target sender receiver).bech32 := by
  obtain ⟨t, only, alike, alone, way⟩ | ⟨t, only, single, alone, way⟩ | ⟨several, way⟩ :=
    Carriage.of_cases native handed
  · refine ⟨.token t, ?_, by simp [only, alone, Cargo.transfers, payload], ?_⟩
    · rw [way]
      refine Carriage.read_pieces receiver ?_
      rintro u ⟨rfl⟩
      exact alike
    · rw [way]
      exact .token only alike alone rfl
  · refine ⟨.item t receiver.key, ?_, by simp [only, alone, Cargo.transfers, payload], ?_⟩
    · rw [way]
      exact Carriage.read_pieces receiver nofun
    · rw [way]
      exact .item only single alone rfl
  · refine ⟨.multi receiver.key (payload native handed).length (payload native handed), ?_, rfl, ?_⟩
    · rw [way]
      exact Carriage.read_pieces receiver nofun
    · rw [way]
      exact .multi several rfl

/-- When its charge fits into a word, a token transfer is built. Without tokens it is a plain
transfer to the receiver. Otherwise its value is zero, and a reader of its data finds the tokens
that were handed over in order, then the native currency if there is any, and the receiver. -/
theorem tokenTransfer_delivers (sender : Address)
    (fits : s.tokenCharge receiver native handed < UInt64.size) :
    ∃ t, s.tokenTransfer sender receiver native handed = .ok t ∧
      (handed = [] → t.data = [] ∧ t.value = native ∧ t.receiver = receiver.bech32) ∧
      (handed ≠ [] → t.value = .zero ∧ ∃ cargo, Cargo.read t.data = some cargo ∧
        cargo.transfers = payload native handed ∧
        cargo.Addressed sender receiver native handed t.receiver) := by
  by_cases none : handed = []
  · subst none
    obtain ⟨gas, built, -⟩ := Schedule.tokenTransfer_nil_of_lt sender fits
    exact ⟨_, built, fun _ => ⟨rfl, rfl, rfl⟩, fun some => absurd rfl some⟩
  · obtain ⟨gas, built, -⟩ := Schedule.tokenTransfer_of_lt sender none fits
    exact ⟨_, built, fun empty => absurd empty none,
      fun _ => ⟨rfl, read_carriage sender receiver native handed⟩⟩

/-- A token whose name holds the sign between pieces, none of an item without a name, and some
native currency, sent by an account to the receiver of new contracts. -/
theorem tokenTransfer_delivers_mixed :
    ∃ t, (Schedule.new "T").tokenTransfer
        ⟨"erd1s", List.replicate 32 0xFF, by decide, by decide⟩ .deployTarget ⟨300, by decide⟩
        [.fungible "A@B" ⟨256, by decide⟩, ⟨"", 7, .zero⟩] = .ok t ∧
      t.value = .zero ∧ ∃ cargo, Cargo.read t.data = some cargo ∧
        cargo.transfers = [⟨"A@B", 0, ⟨256, by decide⟩⟩, ⟨"", 7, .zero⟩,
          ⟨"EGLD-000000", 0, ⟨300, by decide⟩⟩] := by
  have fits : (Schedule.new "T").tokenCharge .deployTarget ⟨300, by decide⟩
      [.fungible "A@B" ⟨256, by decide⟩, ⟨"", 7, .zero⟩] < UInt64.size := by
    decide +kernel
  obtain ⟨t, built, -, delivered⟩ := tokenTransfer_delivers
    ⟨"erd1s", List.replicate 32 0xFF, by decide, by decide⟩ fits
  obtain ⟨value, cargo, read, transfers, -⟩ := delivered (List.cons_ne_nil _ _)
  exact ⟨t, built, value, cargo, read, transfers⟩

end ObserverRelay.Chain
