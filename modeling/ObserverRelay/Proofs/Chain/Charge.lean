import ObserverRelay.Chain.Builder
/-!
# Charges as natural numbers

What a chain charges without a bound on the sums. A word is made of a charge when the charge
fits into one, and then it is the charge exactly; otherwise an overflow is reported. Each step of
a sum is no more than the whole, so a step that does not fit shows that the whole does not.

## Main statements

* `settled_dataGas`, `Carriage.settled_gas`: gas is the charge exactly or an overflow.
* `charged_nativeTransfer`, `charged_tokenTransfer`: so is the gas of a transfer, which is built
  whenever its charge fits.
-/
namespace ObserverRelay.Chain

/-- The charge for data. -/
def Schedule.dataCharge (s : Schedule) (data : Bytes) : Nat :=
  s.minGas.toNat + s.gasPerOctet.toNat * data.length

/-- The charge for a way of carrying tokens. -/
def Carriage.charge (s : Schedule) : Carriage → Nat
  | token _ => s.tokenGas.toNat + s.tokenExtraGas.toNat
  | item _ => s.itemGas.toNat + s.itemExtraGas.toNat
  | multi ts => s.multiGas.toNat * ts.length + s.itemExtraGas.toNat

/-- The charge for carrying tokens, the data included. -/
def Schedule.tokenCharge (s : Schedule) (receiver : Address) (native : Amount)
    (transfers : List Transfer) : Nat :=
  if transfers = [] then s.dataCharge []
  else s.dataCharge (joinPieces ((Carriage.of native transfers).pieces receiver)) +
    (Carriage.of native transfers).charge s

/-! ## Gas -/

/-- A charge comes out exactly if it fits into a word; otherwise an overflow is reported. -/
inductive Settled (charge : Nat) : Except Overflow UInt64 → Prop
  | fits {gas : UInt64} (exact : gas.toNat = charge) : Settled charge (.ok gas)
  | overflow (e : Overflow) (large : UInt64.size ≤ charge) : Settled charge (.error e)

theorem settled_add (a b : UInt64) : Settled (a.toNat + b.toNat) (Word.add a b) := by
  cases sum : Word.add a b with
  | ok c => exact .fits (Word.add_eq_ok_iff.mp sum)
  | error e => exact .overflow e (Word.add_eq_error_iff.mp sum).2

theorem settled_times (a : UInt64) (n : Nat) : Settled (a.toNat * n) (Word.times a n) := by
  cases product : Word.times a n with
  | ok c => exact .fits (Word.times_eq_ok_iff.mp product)
  | error e => exact .overflow e (Word.times_eq_error_iff.mp product).2

namespace Settled
variable {charge total : Nat} {r : Except Overflow UInt64}

/-- Where a part of a charge overflows, the whole would have. -/
theorem bind {f : UInt64 → Except Overflow UInt64} (part : Settled charge r) (le : charge ≤ total)
    (rest : ∀ gas, gas.toNat = charge → Settled total (f gas)) : Settled total (r >>= f) := by
  cases part with
  | fits exact => exact rest _ exact
  | overflow e large => exact .overflow e (Nat.le_trans large le)

theorem exists_of_lt (settled : Settled charge r) (fits : charge < UInt64.size) :
    ∃ gas, r = .ok gas ∧ gas.toNat = charge := by
  cases settled with
  | fits exact => exact ⟨_, rfl, exact⟩
  | overflow e large => exact absurd fits (Nat.not_lt.mpr large)

end Settled

theorem Schedule.settled_dataGas (s : Schedule) (data : Bytes) :
    Settled (s.dataCharge data) (s.dataGas data) := by
  refine (settled_times s.gasPerOctet data.length).bind (Nat.le_add_left _ _) ?_
  intro octets product
  rw [dataCharge, ← product]
  exact settled_add s.minGas octets

theorem Carriage.settled_gas (s : Schedule) (c : Carriage) : Settled (c.charge s) (c.gas s) := by
  cases c with
  | token t => exact settled_add s.tokenGas s.tokenExtraGas
  | item t => exact settled_add s.itemGas s.itemExtraGas
  | multi ts =>
    refine (settled_times s.multiGas ts.length).bind (Nat.le_add_right _ _) ?_
    intro each product
    rw [charge, ← product]
    exact settled_add each s.itemExtraGas

theorem Carriage.gas_of_lt {s : Schedule} {c : Carriage} (fits : c.charge s < UInt64.size) :
    ∃ gas, c.gas s = .ok gas ∧ gas.toNat = c.charge s :=
  (c.settled_gas s).exists_of_lt fits

/-! ## Transactions -/

/-- Building `t` for a charge gives `t` with this gas exactly if it fits into a word; otherwise an
overflow is reported. The gas that `t` itself names does not count. -/
inductive Charged (charge : Nat) (t : Transaction) : Except Overflow Transaction → Prop
  | fits {gas : UInt64} (exact : gas.toNat = charge) :
      Charged charge t (.ok { t with gasLimit := gas })
  | overflow (e : Overflow) (large : UInt64.size ≤ charge) : Charged charge t (.error e)

theorem Settled.charged {charge : Nat} {r : Except Overflow UInt64} (settled : Settled charge r)
    (t : Transaction) : Charged charge t (r >>= fun gas => pure { t with gasLimit := gas }) := by
  cases settled with
  | fits exact => exact .fits exact
  | overflow e large => exact .overflow e large

theorem Charged.exists_of_lt {charge : Nat} {t : Transaction} {r : Except Overflow Transaction}
    (charged : Charged charge t r) (fits : charge < UInt64.size) :
    ∃ gas : UInt64, r = .ok { t with gasLimit := gas } ∧ gas.toNat = charge := by
  cases charged with
  | fits exact => exact ⟨_, rfl, exact⟩
  | overflow e large => exact absurd fits (Nat.not_lt.mpr large)

namespace Schedule

theorem charged_nativeTransfer (s : Schedule) (sender receiver : Address) (amount : Amount)
    (data : Bytes) :
    Charged (s.dataCharge data) (s.transaction sender receiver amount 0 data)
      (s.nativeTransfer sender receiver amount data) :=
  (s.settled_dataGas data).charged (s.transaction sender receiver amount 0 data)

/-- What a token transfer is apart from its gas. -/
def tokenDraft (s : Schedule) (sender receiver : Address) (native : Amount)
    (handed : List Transfer) : Transaction :=
  if handed = [] then s.transaction sender receiver native 0 []
  else
    s.transaction sender ((Carriage.of native handed).target sender receiver) .zero 0
      (joinPieces ((Carriage.of native handed).pieces receiver))

/-- The charge of a way of carrying tokens is summed up before that of the data. -/
theorem settled_carriage (s : Schedule) (c : Carriage) (data : Bytes) :
    Settled (s.dataCharge data + c.charge s)
      (c.gas s >>= fun carriageGas => s.dataGas data >>= fun dataGas =>
        Word.add dataGas carriageGas) := by
  refine (c.settled_gas s).bind (Nat.le_add_left _ _) ?_
  intro carriageGas carriage
  refine (s.settled_dataGas data).bind (Nat.le_add_right _ _) ?_
  intro dataGas octets
  rw [← carriage, ← octets]
  exact settled_add dataGas carriageGas

theorem charged_tokenTransfer (s : Schedule) (sender receiver : Address) (native : Amount)
    (handed : List Transfer) :
    Charged (s.tokenCharge receiver native handed) (s.tokenDraft sender receiver native handed)
      (s.tokenTransfer sender receiver native handed) := by
  by_cases none : handed = []
  · simp only [tokenCharge, tokenDraft, tokenTransfer, none, if_true]
    exact s.charged_nativeTransfer sender receiver native []
  · simp only [tokenCharge, tokenDraft, tokenTransfer, none, if_false]
    generalize Carriage.of native handed = c
    have charged := (s.settled_carriage c (joinPieces (c.pieces receiver))).charged
      (s.transaction sender (c.target sender receiver) .zero 0 (joinPieces (c.pieces receiver)))
    simp only [bind_assoc] at charged
    exact charged

variable {s : Schedule} {receiver : Address} {native : Amount} {handed : List Transfer}

/-- Without tokens there is a plain transfer, charged exactly. -/
theorem tokenTransfer_nil_of_lt (sender : Address)
    (fits : s.tokenCharge receiver native [] < UInt64.size) :
    ∃ gas, s.tokenTransfer sender receiver native [] =
      .ok (s.transaction sender receiver native gas []) ∧
        gas.toNat = s.tokenCharge receiver native [] :=
  (s.charged_tokenTransfer sender receiver native []).exists_of_lt fits

/-- With tokens there is a transfer without value, charged exactly. -/
theorem tokenTransfer_of_lt (sender : Address) (some : handed ≠ [])
    (fits : s.tokenCharge receiver native handed < UInt64.size) :
    ∃ gas, s.tokenTransfer sender receiver native handed =
      .ok (s.transaction sender ((Carriage.of native handed).target sender receiver) .zero gas
        (joinPieces ((Carriage.of native handed).pieces receiver))) ∧
        gas.toNat = s.tokenCharge receiver native handed := by
  have charged := s.charged_tokenTransfer sender receiver native handed
  rw [tokenDraft, if_neg some] at charged
  exact charged.exists_of_lt fits

end Schedule

end ObserverRelay.Chain
