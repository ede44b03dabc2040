import ObserverRelay.Chain.Builder
import ObserverRelay.Proofs.Nonce.Interleaving
import Mathlib.Data.Finset.Card
import Mathlib.Data.Fintype.Basic
import Mathlib.Data.List.FinRange
/-!
# Numbering a batch of transactions

Transactions of any senders are numbered one after the other from an empty book. The nonce of each
is what the source said of its sender, and one more for each earlier transaction of this sender. So
only the order of each sender's own transactions matters, and it makes no difference whether they
are numbered before they are relayed or after.

## Main statements

* `NonceBook.number_of_room`: numbering one transaction.
* `NonceBook.numberAll_getElem?`: the nonce of each transaction of a batch.
* `NonceBook.asked_numberAll`: what the source is asked for a batch.
* `NonceBook.Reordered.getElem?_numberAll`: another order of the batch.
* `NonceBook.numberAll_zipWith`: changes that are made before or after numbering.
* `batch_numbered`: all of these together.
-/
namespace ObserverRelay.Chain

/-! ## Places of a list -/

/-- Counting up to a place is counting places. -/
theorem countP_take_eq_card {α : Type} (q : α → Bool) (l : List α) (i : Nat) :
    (l.take i).countP q = (Finset.univ.filter fun j : Fin l.length => j < i ∧ q l[j]).card := by
  have front : l.take i = ((List.finRange l.length).take i).map fun j => l[j.1] := by
    rw [List.map_take, List.map_getElem_finRange]
  have distinct : ((List.finRange l.length).take i).Nodup :=
    (List.nodup_finRange l.length).sublist (List.take_sublist i _)
  have places : ((List.finRange l.length).take i).toFinset =
      Finset.univ.filter fun j : Fin l.length => j < i := by
    ext j
    simp only [List.mem_toFinset, List.mem_take_iff_getElem, List.getElem_finRange,
      List.length_finRange, Finset.mem_filter, Finset.mem_univ, true_and]
    refine ⟨?_, fun below => ⟨j, by omega, rfl⟩⟩
    rintro ⟨k, below, rfl⟩
    simp only [Fin.val_cast]
    omega
  have counted : q ∘ (fun j : Fin l.length => l[j.1]) = fun j => decide (q l[j] = true) := by
    funext j
    simp
  rw [front, List.countP_map, ← Finset.filter_filter, ← places, distinct.card_eq_countP, counted]

/-- One list holds the members of another in another order. -/
theorem countP_take_of_places {α : Type} {q : α → Bool} {l l' : List α} {i i' : Nat}
    (place : Fin l.length ≃ Fin l'.length) (same : ∀ j : Fin l.length, l'[place j] = l[j])
    (front : ∀ j : Fin l.length, q l[j] = true → (j < i ↔ place j < i')) :
    (l.take i).countP q = (l'.take i').countP q := by
  rw [countP_take_eq_card, countP_take_eq_card]
  refine Finset.card_equiv place fun j => ?_
  simp only [Finset.mem_filter, Finset.mem_univ, true_and, same]
  exact and_congr_left fun counted => front j counted

namespace NonceBook
variable {ε σ : Type} {source : σ → String → Except ε UInt64 × σ} {f : String → UInt64}
  {b : NonceBook} {s : σ} {t : Transaction} {ts : List Transaction}

/-! ## One transaction -/

/-- The nonce that comes next for an address, when the source says `f` of those that are new. -/
def upcoming (f : String → UInt64) (b : NonceBook) (a : String) : UInt64 := (b.get? a).getD (f a)

/-- The book after a transaction is numbered: its sender is there, one further on. -/
structure Numbered (f : String → UInt64) (b : NonceBook) (t : Transaction) (b' : NonceBook) :
    Prop where
  tracked : b'.tracks t.sender = true
  upcoming : (b'.upcoming f t.sender).toNat = (b.upcoming f t.sender).toNat + 1
  others : ∀ c, c ≠ t.sender → b'.get? c = b.get? c

/-- Counting on where there is room. -/
theorem count_of_room {a : String} {n : UInt64} (entry : b.get? a = some n)
    (room : n.toNat + 1 < UInt64.size) :
    ∃ next, next.toNat = n.toNat + 1 ∧ b.count (ε := ε) a true = (.nonce n, b.set a next) := by
  obtain ⟨o, full, -⟩ | found := count_known (ε := ε) entry true
  · exact absurd full (Nat.not_le.mpr room)
  · exact found

/-- Numbering a transaction where there is room. The source is only asked for a new sender. -/
theorem number_of_room (answer : (source s t.sender).1 = .ok (f t.sender))
    (room : (b.upcoming f t.sender).toNat + 1 < UInt64.size) :
    ∃ b', Numbered f b t b' ∧
      b.number source s t = (.nonce (b.upcoming f t.sender),
        { t with nonce := b.upcoming f t.sender }, b',
        if b.tracks t.sender then s else (source s t.sender).2) := by
  -- In either case the book holds the nonce that comes next before it is counted past.
  have counted (known : NonceBook) (entry : known.get? t.sender = some (b.upcoming f t.sender))
      (others : ∀ c, c ≠ t.sender → known.get? c = b.get? c) :
      ∃ b', Numbered f b t b' ∧
        known.count (ε := ε) t.sender true = (.nonce (b.upcoming f t.sender), b') := by
    obtain ⟨next, succ, counts⟩ := count_of_room (ε := ε) entry room
    refine ⟨known.set t.sender next, ⟨by simp [tracks], ?_, fun c other => ?_⟩, counts⟩
    · simpa [NonceBook.upcoming] using succ
    · rw [get?_set_of_ne other, others c other]
  cases entry : b.get? t.sender with
  | some n =>
    obtain ⟨b', numbered, counts⟩ := counted b (by simp [upcoming, entry]) fun _ _ => rfl
    refine ⟨b', numbered, ?_⟩
    simp [number, perform, needsSource, tracks, entry, use, counts, Outcome.assign]
  | none =>
    have put : (b.insertNew t.sender (f t.sender)).get? t.sender =
        some (b.upcoming f t.sender) := by
      simp [get?_insertNew, upcoming, entry]
    obtain ⟨b', numbered, counts⟩ := counted (b.insertNew t.sender (f t.sender)) put
      fun c other => by rw [get?_insertNew, if_neg fun h => other h.1]
    refine ⟨b', numbered, ?_⟩
    simp [number, perform, needsSource, tracks, entry, NonceCall.address, conclude, absorb, use,
      answer, counts, Outcome.assign]

/-! ## A batch -/

/-- Numbers transactions one after the other. -/
def numberAll (source : σ → String → Except ε UInt64 × σ) (b : NonceBook) (s : σ) :
    List Transaction → List (Outcome ε × Transaction) × NonceBook × σ
  | [] => ([], b, s)
  | t :: ts =>
    let (o, t, b, s) := b.number source s t
    let (done, b, s) := numberAll source b s ts
    ((o, t) :: done, b, s)

/-- A source that also writes down for whom it is asked. -/
def noted (source : σ → String → Except ε UInt64 × σ) (s : σ × List String) (a : String) :
    Except ε UInt64 × σ × List String :=
  let (answer, s') := source s.1 a
  (answer, s', s.2 ++ [a])

/-- The source answers for all senders of a batch, and the nonces do not run out. -/
structure Room (source : σ → String → Except ε UInt64 × σ) (f : String → UInt64) (b : NonceBook)
    (ts : List Transaction) : Prop where
  answers : ∀ s, ∀ t ∈ ts, (source s t.sender).1 = .ok (f t.sender)
  room : ∀ t ∈ ts, (b.upcoming f t.sender).toNat + ts.countP (·.sender = t.sender) < UInt64.size

theorem Numbered.upcoming_eq {b' : NonceBook} (numbered : Numbered f b t b') (a : String) :
    (b'.upcoming f a).toNat = (b.upcoming f a).toNat + if t.sender = a then 1 else 0 := by
  by_cases own : t.sender = a
  · subst own
    rw [if_pos rfl, numbered.upcoming]
  · rw [if_neg own, NonceBook.upcoming, numbered.others a (Ne.symm own)]
    rfl

theorem Room.tail {b' : NonceBook} (room : Room source f b (t :: ts))
    (numbered : Numbered f b t b') : Room source f b' ts where
  answers s u mem := room.answers s u (List.mem_cons_of_mem t mem)
  room u mem := by
    have whole := room.room u (List.mem_cons_of_mem t mem)
    rw [List.countP_cons] at whole
    rw [numbered.upcoming_eq]
    simp only [decide_eq_true_eq] at whole
    omega

theorem Room.number (room : Room source f b (t :: ts)) (s : σ) :
    ∃ b', Numbered f b t b' ∧
      b.number source s t = (.nonce (b.upcoming f t.sender),
        { t with nonce := b.upcoming f t.sender }, b',
        if b.tracks t.sender then s else (source s t.sender).2) := by
  refine number_of_room (room.answers s t List.mem_cons_self) ?_
  have whole := room.room t List.mem_cons_self
  rw [List.countP_cons_of_pos (by simp)] at whole
  omega

theorem length_numberAll (source : σ → String → Except ε UInt64 × σ) (b : NonceBook) (s : σ)
    (ts : List Transaction) : (b.numberAll source s ts).1.length = ts.length := by
  induction ts generalizing b s with
  | nil => rfl
  | cons t ts ih => exact congrArg (· + 1) (ih _ _)

/-- Each transaction of a batch has the nonce that came next for its sender at first, and one more
for each earlier transaction of this sender. -/
theorem numberAll_getElem? (room : Room source f b ts) (s : σ) {i : Nat} (here : ts[i]? = some t) :
    ∃ n, (b.numberAll source s ts).1[i]? = some (.nonce n, { t with nonce := n }) ∧
      n.toNat = (b.upcoming f t.sender).toNat + (ts.take i).countP (·.sender = t.sender) := by
  induction ts generalizing b s i with
  | nil => cases here
  | cons u ts ih =>
    obtain ⟨b', numbered, result⟩ := room.number s
    rw [numberAll]
    simp only [result]
    cases i with
    | zero =>
      obtain rfl : u = t := Option.some.inj here
      exact ⟨b.upcoming f u.sender, rfl, rfl⟩
    | succ i =>
      obtain ⟨n, found, value⟩ := ih (room.tail numbered) _ here
      refine ⟨n, found, ?_⟩
      rw [value, numbered.upcoming_eq, List.take_succ_cons, List.countP_cons]
      simp only [decide_eq_true_eq]
      omega

theorem Numbered.tracks_eq {b' : NonceBook} (numbered : Numbered f b t b') {a : String}
    (other : t.sender ≠ a) : b'.tracks a = b.tracks a := by
  rw [tracks, tracks, numbered.others a (Ne.symm other)]

theorem Room.noted (room : Room source f b ts) : Room (noted source) f b ts :=
  ⟨fun s => room.answers s.1, room.room⟩

/-- The source is asked once for each sender that is not in the book, and for nobody else. -/
theorem asked_numberAll (room : Room source f b ts) (s : σ) (log : List String) :
    ∃ asked, (b.numberAll (noted source) (s, log) ts).2.2.2 = log ++ asked ∧ asked.Nodup ∧
      ∀ a, a ∈ asked ↔ b.tracks a = false ∧ ∃ t ∈ ts, t.sender = a := by
  induction ts generalizing b s log with
  | nil => exact ⟨[], by simp [numberAll], List.nodup_nil, by simp⟩
  | cons t ts ih =>
    obtain ⟨b', numbered, result⟩ := room.noted.number (s, log)
    simp only [numberAll, result]
    cases known : b.tracks t.sender with
    | true =>
      obtain ⟨asked, all, distinct, mem⟩ := ih (room.tail numbered) s log
      refine ⟨asked, all, distinct, fun a => ?_⟩
      rw [mem]
      by_cases own : t.sender = a
      · subst own
        simp [known, numbered.tracked]
      · simp [numbered.tracks_eq own, own]
    | false =>
      obtain ⟨asked, all, distinct, mem⟩ :=
        ih (room.tail numbered) (source s t.sender).2 (log ++ [t.sender])
      refine ⟨t.sender :: asked, by simpa [NonceBook.noted] using all, ?_, fun a => ?_⟩
      · refine List.nodup_cons.mpr ⟨fun again => ?_, distinct⟩
        simpa [numbered.tracked] using ((mem t.sender).mp again).1
      · rw [List.mem_cons, mem]
        by_cases own : t.sender = a
        · subst own
          simp [known]
        · simp [numbered.tracks_eq own, own, Ne.symm own]

/-! ## Reordering -/

/-- A batch put into another order that keeps the transactions of each sender in theirs. -/
structure Reordered (ts ts' : List Transaction) (place : Fin ts.length ≃ Fin ts'.length) :
    Prop where
  same : ∀ i : Fin ts.length, ts'[place i] = ts[i]
  ordered : ∀ i j : Fin ts.length, ts[i].sender = ts[j].sender → i < j → place i < place j

section Reordering
variable {ts' : List Transaction} {place : Fin ts.length ≃ Fin ts'.length}

/-- Each transaction has as many earlier ones of its sender as before. -/
theorem Reordered.countP_take (reordered : Reordered ts ts' place) (i : Fin ts.length) :
    (ts.take i).countP (·.sender = ts[i].sender) =
      (ts'.take (place i)).countP (·.sender = ts[i].sender) := by
  refine countP_take_of_places place reordered.same fun j own => ?_
  have alike : ts[j].sender = ts[i].sender := of_decide_eq_true own
  refine ⟨reordered.ordered j i alike, fun before => ?_⟩
  by_contra later
  obtain first | here := lt_or_eq_of_le (not_lt.mp later : i ≤ j)
  · exact absurd (reordered.ordered i j alike.symm first) (not_lt.mpr (Nat.le_of_lt before))
  · exact absurd before (by simp [here])

theorem Reordered.countP (reordered : Reordered ts ts' place) (q : Transaction → Bool) :
    ts.countP q = ts'.countP q := by
  have whole : (ts.take ts.length).countP q = (ts'.take ts'.length).countP q :=
    countP_take_of_places place reordered.same fun j _ =>
      ⟨fun _ => (place j).isLt, fun _ => j.isLt⟩
  rwa [List.take_length, List.take_length] at whole

theorem Reordered.mem (reordered : Reordered ts ts' place) (here : t ∈ ts') : t ∈ ts := by
  obtain ⟨k, rfl⟩ := List.get_of_mem here
  obtain ⟨i, rfl⟩ := place.surjective k
  have same : ts'.get (place i) = ts[i] := reordered.same i
  rw [same]
  exact List.getElem_mem i.isLt

theorem Reordered.room (reordered : Reordered ts ts' place) (room : Room source f b ts) :
    Room source f b ts' where
  answers s t here := room.answers s t (reordered.mem here)
  room t here := reordered.countP _ ▸ room.room t (reordered.mem here)

/-- Each transaction gets the same nonce wherever it stands. -/
theorem Reordered.getElem?_numberAll (reordered : Reordered ts ts' place)
    (room : Room source f b ts) (s : σ) (i : Fin ts.length) :
    (b.numberAll source s ts').1[(place i).val]? = (b.numberAll source s ts).1[i.val]? := by
  have here : ts[i.val]? = some ts[i] := List.getElem?_eq_getElem i.isLt
  have there : ts'[(place i).val]? = some ts[i] := by
    rw [List.getElem?_eq_getElem (place i).isLt]
    exact congrArg some (reordered.same i)
  obtain ⟨n, found, value⟩ := numberAll_getElem? room s here
  obtain ⟨n', found', value'⟩ := numberAll_getElem? (reordered.room room) s there
  rw [← reordered.countP_take i, ← value] at value'
  rw [found, found', UInt64.toNat_inj.mp value']

end Reordering

/-! ## Relaying -/

/-- What is done to each transaction and keeps its sender can as well be done after numbering. -/
theorem numberAll_zipWith {α : Type} {g : Transaction → α → Transaction}
    (sender : ∀ t r, (g t r).sender = t.sender)
    (assign : ∀ (o : Outcome ε) t r, o.assign (g t r) = g (o.assign t) r)
    (source : σ → String → Except ε UInt64 × σ) (b : NonceBook) (s : σ) (ts : List Transaction)
    (rs : List α) :
    (b.numberAll source s (List.zipWith g ts rs)).1.map Prod.snd =
      List.zipWith g ((b.numberAll source s ts).1.map Prod.snd) rs := by
  induction ts generalizing b s rs with
  | nil => rfl
  | cons t ts ih =>
    cases rs with
    | nil => simp [numberAll]
    | cons r rs =>
      simp only [List.zipWith_cons_cons, numberAll, number, sender, assign, List.map_cons, ih]

/-- Numbering leaves the rest of a transaction as it is. -/
theorem exists_assign_of_mem_numberAll {p : Outcome ε × Transaction}
    (mem : p ∈ (b.numberAll source s ts).1) : ∃ t ∈ ts, p.2 = p.1.assign t := by
  induction ts generalizing b s with
  | nil => cases mem
  | cons t ts ih =>
    obtain here | later := List.mem_cons.mp mem
    · exact ⟨t, List.mem_cons_self, here ▸ rfl⟩
    · obtain ⟨u, mem', assigned⟩ := ih later
      exact ⟨u, List.mem_cons_of_mem t mem', assigned⟩

end NonceBook

namespace Schedule
variable {schedule : Schedule} {t : Transaction} {ts : List Transaction}

/-- A transaction that a relayer pays for, when the gas fits into a word. -/
def relayed (schedule : Schedule) (t : Transaction) (relayer : Address) : Transaction :=
  { t with relayer := some relayer.bech32, gasLimit := t.gasLimit + schedule.relayGas }

/-- Lets relayers pay for transactions, each for the one at its place. -/
def relayAll (schedule : Schedule) (ts : List Transaction) (relayers : List Address) :
    Except Overflow (List Transaction) :=
  (ts.zip relayers).mapM fun p => schedule.relay p.1 p.2

theorem relay_of_room (room : t.gasLimit.toNat + schedule.relayGas.toNat < UInt64.size)
    (relayer : Address) : schedule.relay t relayer = .ok (schedule.relayed t relayer) := by
  simp only [relay, Word.add, if_pos room]
  rfl

theorem relayAll_of_room
    (room : ∀ t ∈ ts, t.gasLimit.toNat + schedule.relayGas.toNat < UInt64.size)
    (relayers : List Address) :
    schedule.relayAll ts relayers = .ok (List.zipWith schedule.relayed ts relayers) := by
  rw [relayAll]
  induction ts generalizing relayers with
  | nil => rfl
  | cons t ts ih =>
    obtain ⟨first, rest⟩ := List.forall_mem_cons.mp room
    cases relayers with
    | nil => rfl
    | cons relayer relayers =>
      simp only [List.zip_cons_cons, List.mapM_cons, relay_of_room first, ih rest,
        List.zipWith_cons_cons]
      rfl

end Schedule

open NonceBook in
/-- A batch of transactions of any senders, numbered one after the other from an empty book. The
source answers for each sender, and no sender runs out of nonces. Each transaction gets what the
source said of its sender and one more for each earlier transaction of this sender, and nothing else
of it changes. The source is asked once for each sender and for nobody else. In another order, where
the transactions of each sender follow each other as before, each gets the same nonce. Transactions
that are relayed first and then numbered are the same as those that are numbered first. -/
theorem batch_numbered {ε σ : Type} (source : σ → String → Except ε UInt64 × σ) (s : σ)
    (f : String → UInt64) (ts : List Transaction)
    (answers : ∀ s, ∀ t ∈ ts, (source s t.sender).1 = .ok (f t.sender))
    (room : ∀ t ∈ ts, (f t.sender).toNat + ts.countP (·.sender = t.sender) < UInt64.size) :
    let batch (ts : List Transaction) := NonceBook.empty.numberAll (noted source) (s, []) ts
    let transactions (ts : List Transaction) := (batch ts).1.map Prod.snd
    (batch ts).1.length = ts.length ∧
    (∀ (i : Nat) t, ts[i]? = some t →
      ∃ n, (batch ts).1[i]? = some (.nonce n, { t with nonce := n }) ∧
        n.toNat = (f t.sender).toNat + (ts.take i).countP (·.sender = t.sender)) ∧
    ((batch ts).2.2.2.Nodup ∧ ∀ a, a ∈ (batch ts).2.2.2 ↔ ∃ t ∈ ts, t.sender = a) ∧
    (∀ ts' (place : Fin ts.length ≃ Fin ts'.length), Reordered ts ts' place →
      ∀ i, (batch ts').1[(place i).val]? = (batch ts).1[i.val]?) ∧
    ∀ (schedule : Schedule) relayers, relayers.length = ts.length →
      (∀ t ∈ ts, t.gasLimit.toNat + schedule.relayGas.toNat < UInt64.size) →
      ∃ relayed, schedule.relayAll ts relayers = .ok relayed ∧ relayed.length = ts.length ∧
        schedule.relayAll (transactions ts) relayers = .ok (transactions relayed) := by
  intro batch transactions
  have fresh : Room (noted source) f .empty ts := Room.noted ⟨answers, room⟩
  refine ⟨length_numberAll _ _ _ ts, ?_, ?_, ?_, ?_⟩
  · intro i t here
    exact numberAll_getElem? fresh (s, []) here
  · obtain ⟨asked, all, distinct, mem⟩ := asked_numberAll (b := .empty) ⟨answers, room⟩ s []
    rw [List.nil_append] at all
    simp only [batch, all]
    exact ⟨distinct, fun a => by rw [mem]; simp [tracks]⟩
  · intro ts' place reordered i
    exact reordered.getElem?_numberAll fresh (s, []) i
  · intro schedule relayers each fits
    refine ⟨_, Schedule.relayAll_of_room fits relayers, by simp [each], ?_⟩
    have commutes : transactions (List.zipWith schedule.relayed ts relayers) =
        List.zipWith schedule.relayed (transactions ts) relayers :=
      numberAll_zipWith (g := schedule.relayed) (fun _ _ => rfl) (fun o _ _ => by cases o <;> rfl)
        (noted source) .empty (s, []) ts relayers
    rw [commutes]
    refine Schedule.relayAll_of_room (fun t mem => ?_) relayers
    obtain ⟨p, done, rfl⟩ := List.mem_map.mp mem
    obtain ⟨t, given, assigned⟩ := exists_assign_of_mem_numberAll done
    have gas : p.2.gasLimit = t.gasLimit := by
      rw [assigned]
      cases p.1 <;> rfl
    exact gas ▸ fits t given

/-- Two senders, one of whom has just two nonces left. The transaction of the other may go first. -/
theorem batch_numbered_two_senders :
    let f (a : String) : UInt64 := if a = "a" then 0xFFFFFFFFFFFFFFFD else 7
    let source (asked : Nat) (a : String) : Except Empty UInt64 × Nat := (.ok (f a), asked + 1)
    let pay (a : String) : Transaction := ⟨0, .zero, "c", a, 1, 1, [], "T", 2, none, none, none⟩
    let ts := [pay "a", pay "b", pay "a"]
    let ts' := [pay "b", pay "a", pay "a"]
    let place : Fin ts.length ≃ Fin ts'.length := Equiv.swap (0 : Fin 3) 1
    let batch (ts : List Transaction) :=
      NonceBook.empty.numberAll (NonceBook.noted source) (0, []) ts
    let transactions (ts : List Transaction) := (batch ts).1.map Prod.snd
    (∀ asked, ∀ t ∈ ts, (source asked t.sender).1 = .ok (f t.sender)) ∧
    (∀ t ∈ ts, (f t.sender).toNat + ts.countP (·.sender = t.sender) < UInt64.size) ∧
    (∃ n, (batch ts).1[2]? = some (.nonce n, { pay "a" with nonce := n }) ∧
      n.toNat = UInt64.size - 2) ∧
    (∀ a, a ∈ (batch ts).2.2.2 ↔ ∃ t ∈ ts, t.sender = a) ∧
    NonceBook.Reordered ts ts' place ∧ (batch ts').1[0]? = (batch ts).1[1]? ∧
    ∃ relayed, (Schedule.new "T").relayAll ts [.deployTarget, .deployTarget, .deployTarget] =
        .ok relayed ∧
      (Schedule.new "T").relayAll (transactions ts) [.deployTarget, .deployTarget, .deployTarget] =
        .ok (transactions relayed) := by
  intro f source pay ts ts' place batch transactions
  have answers : ∀ asked, ∀ t ∈ ts, (source asked t.sender).1 = .ok (f t.sender) :=
    fun _ _ _ => rfl
  have room : ∀ t ∈ ts, (f t.sender).toNat + ts.countP (·.sender = t.sender) < UInt64.size := by
    decide
  have reordered : NonceBook.Reordered ts ts' place := ⟨by decide, by decide⟩
  obtain ⟨-, nonces, ⟨-, asked⟩, moved, relaying⟩ := batch_numbered source 0 f ts answers room
  obtain ⟨relayed, before, -, after⟩ := relaying (.new "T") [.deployTarget, .deployTarget,
    .deployTarget] rfl (by decide)
  exact ⟨answers, room, nonces 2 (pay "a") rfl, asked, reordered, moved ts' place reordered 1,
    relayed, before, after⟩

end ObserverRelay.Chain
