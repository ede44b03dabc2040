import ObserverRelay.Proofs.Nonce.Entries
import ObserverRelay.Proofs.Nonce.Reservation
/-!
# Reserved nonces and refetches

The turns at a desk tell what becomes of the entry of an address: `Turn.leaves` reads it off one
turn, and every nonce that a turn hands out is the entry that the turns before it have left. So
between two refetches the nonces handed out are those from the refetched one on, each as far on as
the address was counted meanwhile.

## Main statements

* `NonceBook.step_leaves`: one turn leaves of an entry what is read off the turn.
* `Desk.run_follows`: the turns of a run account for the entry and the nonces handed out.
* `entries_interleaved`: what can become of an entry in any interleaving.
-/
namespace ObserverRelay.Chain

namespace Turn
variable {ε : Type} {a : String} {t : Turn ε}

/-- What a turn leaves of the entry of an address: the nonce that a refetch was told; else one more
if the address was counted on; else the nonce that was brought, unless there is an entry already. -/
def leaves (a : String) (old : Option Nat) (t : Turn ε) : Option Nat :=
  match t.renewed? a with
  | some v => some v.toNat
  | none =>
    if t.counts a then old.map (· + 1) else old.or ((t.brought? a).map UInt64.toNat)

theorem leaves_of_effect {old new : Option UInt64} (effect : t.Effect a old new)
    (renews : ∀ v, t.renewed? a = some v → new = some v) :
    new.map UInt64.toNat = t.leaves a (old.map UInt64.toNat) := by
  rw [leaves]
  cases renewed : t.renewed? a with
  | some v => rw [renews v renewed]; rfl
  | none =>
    cases effect with
    | keep quiet late =>
      cases old with
      | some n => simp [quiet]
      | none => simp [quiet, late.resolve_right (by simp)]
    | insert quiet brought => simp [quiet, brought]
    | count counted _ _ succ => simp [counted, succ]
    | renew _ renewed' => simp [renewed] at renewed'

end Turn

/-- A refetch puts its nonce in. -/
theorem NonceBook.get?_step_of_renewed {ε : Type} {b : NonceBook} {a : String} {e : Errand}
    {stage after : Stage ε} {v : UInt64} (renewed : Turn.renewed? a ⟨e, stage, after⟩ = some v) :
    (b.step e.asks stage).2.get? a = some v := by
  obtain ⟨answered, asks⟩ := Turn.of_renewed renewed
  obtain rfl : stage = .answered (.ok v) := answered
  obtain asks : e.asks = .refetch a := asks
  rw [asks, step, get?_set_self]

theorem NonceBook.step_leaves {ε : Type} (b : NonceBook) (e : Errand) (stage : Stage ε)
    (a : String) :
    ((b.step e.asks stage).2.get? a).map UInt64.toNat =
      Turn.leaves a ((b.get? a).map UInt64.toNat) ⟨e, stage, (b.step e.asks stage).1⟩ :=
  Turn.leaves_of_effect (b.step_effect e stage a) fun _ => get?_step_of_renewed

namespace Desk
variable {ε : Type} {a : String} {start : Option Nat} {turns : List (Turn ε)}

/-- Every nonce that a turn hands out is the entry before it, given the one before all turns. -/
def Follows (a : String) : Option Nat → List (Turn ε) → Prop
  | _, [] => True
  | entry, t :: turns =>
    (∀ n, t.reserved? a = some n → entry = some n.toNat) ∧ Follows a (t.leaves a entry) turns

theorem follows_append_iff {more : List (Turn ε)} :
    Follows a start (turns ++ more) ↔
      Follows a start turns ∧ Follows a (turns.foldl (Turn.leaves a) start) more := by
  induction turns generalizing start with
  | nil => simp [Follows]
  | cons t turns ih => simp [Follows, ih, and_assoc]

/-- A nonce handed out after some turns is the entry that they left. -/
theorem Follows.eq_some {t : Turn ε} {later : List (Turn ε)} {n : UInt64}
    (follows : Follows a start (turns ++ t :: later)) (reserved : t.reserved? a = some n) :
    turns.foldl (Turn.leaves a) start = some n.toNat :=
  (follows_append_iff.mp follows).2.1 n reserved

/-- The entry of an address, as a number. -/
def entry (a : String) (d : Desk ε) : Option Nat := (d.book.get? a).map UInt64.toNat

/-- The turns of a run account for what it makes of the entry and for the nonces handed out. -/
theorem run_follows (d : Desk ε) (a : String) (moves : List (Move ε)) :
    ∃ turns, (d.run moves).turns = d.turns ++ turns ∧ Follows a (d.entry a) turns ∧
      (d.run moves).entry a = turns.foldl (Turn.leaves a) (d.entry a) := by
  induction moves generalizing d with
  | nil => exact ⟨[], by simp, trivial, rfl⟩
  | cons m moves ih =>
    obtain ⟨turns, all, follows, left⟩ := ih (d.move m)
    rw [run_cons]
    have quiet (book : (d.move m).book = d.book) (none : (d.move m).turns = d.turns) :
        ∃ turns, ((d.move m).run moves).turns = d.turns ++ turns ∧ Follows a (d.entry a) turns ∧
          ((d.move m).run moves).entry a = turns.foldl (Turn.leaves a) (d.entry a) := by
      have same : (d.move m).entry a = d.entry a := by rw [entry, entry, book]
      exact ⟨turns, none ▸ all, same ▸ follows, same ▸ left⟩
    cases m with
    | arrive e => exact quiet rfl rfl
    | answer i r =>
      refine quiet ?_ ?_ <;>
        · unfold move
          dsimp only
          split <;> rfl
    | turn i =>
      cases found : d.running[i]? with
      | none => exact quiet (by simp [move, found]) (by simp [move, found])
      | some r =>
        obtain ⟨e, stage⟩ := r
        rw [move_turn found] at all follows left ⊢
        have step := d.book.step_leaves e stage a
        have effect := d.book.step_effect e stage a
        refine ⟨⟨e, stage, (d.book.step e.asks stage).1⟩ :: turns, by rw [all]; simp, ⟨?_, ?_⟩, ?_⟩
        · intro n reserved
          rw [entry, effect.eq_some reserved]
          rfl
        · rw [entry, ← step]
          exact follows
        · rw [left, List.foldl_cons, entry, entry, ← step]

/-! ## Without refetches -/

/-- Turns without a refetch only count. -/
theorem foldl_leaves {k : Nat} (noRefetch : ∀ t ∈ turns, t.renewed? a = none) :
    turns.foldl (Turn.leaves a) (some k) = some (k + turns.countP (Turn.counts a)) := by
  induction turns generalizing k with
  | nil => rfl
  | cons t turns ih =>
    obtain ⟨here, others⟩ := List.forall_mem_cons.mp noRefetch
    have left : t.leaves a (some k) = some (k + if t.counts a then 1 else 0) := by
      rw [Turn.leaves, here]
      cases t.counts a <;> rfl
    rw [List.foldl_cons, left, ih others, List.countP_cons]
    congr 1
    omega

/-- Counted from a known nonce, each nonce handed out is as far on as was counted before. -/
theorem Follows.toNat_eq {k : Nat} {earlier later : List (Turn ε)} {t : Turn ε} {n : UInt64}
    (follows : Follows a (some k) (earlier ++ t :: later))
    (noRefetch : ∀ x ∈ earlier ++ t :: later, x.renewed? a = none)
    (reserved : t.reserved? a = some n) : n.toNat = k + earlier.countP (Turn.counts a) := by
  have left := follows.eq_some reserved
  rw [foldl_leaves (List.forall_mem_append.mp noRefetch).1] at left
  exact (Option.some.inj left).symm

/-- A nonce handed out is as far behind the one before it as was counted between. -/
theorem Follows.toNat_next {earlier between later : List (Turn ε)} {t t' : Turn ε}
    {n n' : UInt64} (follows : Follows a start (earlier ++ t :: (between ++ t' :: later)))
    (noRefetch : ∀ x ∈ earlier ++ t :: (between ++ t' :: later), x.renewed? a = none)
    (reserved : t.reserved? a = some n) (reserved' : t'.reserved? a = some n') :
    n'.toNat = n.toNat + 1 + between.countP (Turn.counts a) := by
  have found := follows.eq_some reserved
  have rest := (follows_append_iff.mp follows).2
  have noRefetch' := (List.forall_mem_append.mp noRefetch).2
  rw [found, ← List.cons_append] at rest
  rw [← List.cons_append] at noRefetch'
  have next := rest.toNat_eq noRefetch' reserved'
  rw [List.countP_cons_of_pos (Turn.counts_of_reserved reserved)] at next
  omega

/-- Without a refetch the nonces handed out grow. -/
theorem Follows.pairwise (follows : Follows a start turns)
    (noRefetch : ∀ t ∈ turns, t.renewed? a = none) :
    (reservedNonces a turns).Pairwise (· < ·) := by
  rw [reservedNonces, List.pairwise_filterMap, List.pairwise_iff_forall_sublist]
  intro t t' sublist n reserved n' reserved'
  obtain ⟨front, back, rfl, here, later⟩ := List.cons_sublist_iff.mp sublist
  obtain ⟨earlier, between, rfl⟩ := List.append_of_mem here
  obtain ⟨between', rest, rfl⟩ := List.append_of_mem (List.singleton_sublist.mp later)
  have split : earlier ++ t :: between ++ (between' ++ t' :: rest) =
      earlier ++ t :: ((between ++ between') ++ t' :: rest) := by
    simp
  rw [split] at follows noRefetch
  have next := follows.toNat_next noRefetch reserved reserved'
  rw [UInt64.lt_iff_toNat_lt]
  omega

end Desk

/-- Errands share a book, in any interleaving, with any answers of the source and with refetches.
An address that is in the book stays there. Its nonce changes only where an errand counts it on by
one or a refetch puts in its answer, and an answer that an errand has was given to this errand while
it waited. Of all calls only an advance misses its address. And among the turns between two
refetches no nonce is handed out twice: each is as far behind the one before it as the address was
counted on between, and as far behind the nonce that was refetched first as it was counted on since. -/
theorem entries_interleaved {ε : Type} (b : NonceBook) (a : String) (moves : List (Move ε)) :
    let d := (Desk.ofBook b).run moves
    (d.book.tracks a = true → ∀ more, (d.run more).book.tracks a = true) ∧
    (∀ n, d.book.get? a = some n → ∀ m, (d.move m).book.get? a = some n ∨
      ∃ i e stage next, m = .turn i ∧ d.running[i]? = some ⟨e, stage⟩ ∧
        (d.move m).book.get? a = some next ∧ NonceBook.Changes a n e stage next) ∧
    (∀ i e answer, d.running[i]? = some ⟨e, .answered answer⟩ →
      ∃ before after, moves = before ++ .answer i answer :: after ∧
        ((Desk.ofBook b).run before).running[i]? = some ⟨e, .asking⟩) ∧
    (∀ r ∈ d.running, ∀ c, r.stage = .done (.failed (.untracked c)) →
      r.errand.asks = .advance c) ∧
    ∀ before window after, d.turns = before ++ window ++ after →
      (∀ t ∈ window, t.renewed? a = none) →
      (reservedNonces a window).Nodup ∧
      (∀ earlier t between t' later n n',
        window = earlier ++ t :: (between ++ t' :: later) → t.reserved? a = some n →
        t'.reserved? a = some n' → n'.toNat = n.toNat + 1 + between.countP (Turn.counts a)) ∧
      ∀ w v, before.getLast? = some w → w.renewed? a = some v →
        ∀ earlier t later n, window = earlier ++ t :: later → t.reserved? a = some n →
          n.toNat = v.toNat + earlier.countP (Turn.counts a) := by
  intro d
  refine ⟨Desk.tracks_run, fun n entry m => Desk.move_changes entry m, ?_, ?_, ?_⟩
  · exact fun i e answer found => Desk.asked_of_run found
  · exact fun r mem c lost => ((Desk.allSure_ofBook b).run moves r mem).found c lost
  intro before window after split noRefetch
  obtain ⟨turns, all, follows, -⟩ := (Desk.ofBook b).run_follows a moves
  obtain rfl : turns = d.turns := by rw [all]; rfl
  rw [split] at follows
  have within := (Desk.follows_append_iff.mp (Desk.follows_append_iff.mp follows).1).2
  refine ⟨?_, ?_, ?_⟩
  · exact (within.pairwise noRefetch).imp fun less => UInt64.ne_of_lt less
  · rintro earlier t between t' later n n' rfl reserved reserved'
    exact within.toNat_next noRefetch reserved reserved'
  · rintro w v last renewed earlier t later n rfl reserved
    have written : before.foldl (Turn.leaves a) ((Desk.ofBook b : Desk ε).entry a) = some v.toNat := by
      obtain ⟨front, rfl⟩ := List.getLast?_eq_some_iff.mp last
      rw [List.foldl_append, List.foldl_cons, List.foldl_nil, Turn.leaves, renewed]
    rw [written] at within
    exact within.toNat_eq noRefetch reserved

/-- Two callers find the address missing. The first one is told 5 and is handed it, the second one is
told 3 too late, after a refetch was told 9; then a nonce is handed out, one is passed over, and
a transaction gets the next one. -/
def overtaken (t : Transaction) : List (Move Unit) :=
  [.arrive (.call (.reserve "a")), .arrive (.call (.read "a")), .turn 0, .turn 1, .answer 0 (.ok 5),
    .turn 0, .turn 0, .arrive (.call (.refetch "a")), .turn 2, .answer 2 (.ok 9), .turn 2,
    .answer 1 (.ok 3), .turn 1, .turn 1, .arrive (.call (.reserve "a")), .turn 3, .turn 3,
    .arrive (.call (.advance "a")), .turn 4, .turn 4, .arrive (.number t), .turn 5, .turn 5]

theorem entries_interleaved_overtaken :
    let t : Transaction := ⟨0, .zero, "b", "a", 1, 1, [], "1", 1, none, none, none⟩
    let turns := ((Desk.ofBook .empty).run (overtaken t)).turns
    reservedNonces "a" (turns.drop 6) = [9, 11] ∧ (reservedNonces "a" (turns.drop 6)).Nodup ∧
      (11 : UInt64).toNat = (9 : UInt64).toNat + ((turns.drop 6).take 7).countP (Turn.counts "a") := by
  intro t turns
  obtain ⟨-, -, -, -, windows⟩ := entries_interleaved (ε := Unit) .empty "a" (overtaken t)
  have noRefetch : ∀ x ∈ turns.drop 6, x.renewed? "a" = none := by decide +kernel
  obtain ⟨distinct, -, counted⟩ := windows (turns.take 6) (turns.drop 6) [] (by simp [turns]) noRefetch
  obtain ⟨w, last, renewed⟩ : ∃ w, (turns.take 6).getLast? = some w ∧ w.renewed? "a" = some 9 :=
    ⟨_, rfl, by decide +kernel⟩
  obtain ⟨x, split, reserved⟩ : ∃ x, turns.drop 6 = (turns.drop 6).take 7 ++ x :: [] ∧
      x.reserved? "a" = some 11 :=
    ⟨_, rfl, by decide +kernel⟩
  exact ⟨by decide +kernel, distinct, counted w 9 last renewed _ x [] 11 split reserved⟩

end ObserverRelay.Chain
