import ObserverRelay.Proofs.Nonce.Interleaving
import Mathlib.Data.List.Induction
/-!
# Reserved nonces of one address

Errands that interleave in any order never get the same nonce twice and leave none out, even
when several of them asked the source at the same time and were told different values: the
first value that is put in decides, and from then on the book counts by itself.

The invariant speaks of all errands under way, also of those that found the address missing and
come late: `Counted` says that the entry of the address is the first value brought plus the
number of turns that counted on since.
-/
namespace ObserverRelay.Chain

/-- The nonces that turns handed out for an address, in the order of the turns. -/
def reservedNonces {ε : Type} (a : String) (turns : List (Turn ε)) : List UInt64 :=
  turns.filterMap (Turn.reserved? a)

namespace Desk
variable {ε : Type} {a : String}

/-- What turns make of the entry of an address that was missing at first: the first value
brought, and one more for every turn that counted on. -/
def tally (a : String) (turns : List (Turn ε)) : Option Nat :=
  (turns.findSome? (Turn.brought? a)).map fun first => first.toNat + turns.countP (Turn.counts a)

/-- Every nonce handed out is what the turns before it made of the entry. -/
def Numbered (a : String) (turns : List (Turn ε)) : Prop :=
  ∀ earlier t later n, turns = earlier ++ t :: later → t.reserved? a = some n →
    tally a earlier = some n.toNat

/-- The invariant of a desk at which nobody refetches the address. -/
structure Counted (a : String) (d : Desk ε) : Prop where
  noRefetch : ∀ e ∈ d.running.map Running.errand, e.asks ≠ .refetch a
  entry : (d.book.get? a).map UInt64.toNat = tally a d.turns
  untouched : d.turns.findSome? (Turn.brought? a) = none → d.turns.countP (Turn.counts a) = 0
  numbered : Numbered a d.turns

theorem counted_ofBook {b : NonceBook} (untracked : b.get? a = none) :
    Counted a (ofBook b : Desk ε) where
  noRefetch := by simp [ofBook]
  entry := by simp [ofBook, untracked, tally]
  untouched := by simp [ofBook]
  numbered := by
    intro earlier t later n h
    simp [ofBook] at h

/-- A turn that hands out nothing leaves the numbering alone, and one that does continues it. -/
theorem Numbered.append {turns : List (Turn ε)} {t : Turn ε} (h : Numbered a turns)
    (last : ∀ n, t.reserved? a = some n → tally a turns = some n.toNat) :
    Numbered a (turns ++ [t]) := by
  intro earlier x later n split reserved
  rcases List.eq_nil_or_concat later with rfl | ⟨front, y, rfl⟩
  · obtain ⟨rfl, same⟩ := List.append_inj' split rfl
    obtain rfl : t = x := by simpa using same
    exact last n reserved
  · have split' : turns ++ [t] = (earlier ++ x :: front) ++ [y] := by simpa using split
    obtain ⟨rfl, -⟩ := List.append_inj' split' rfl
    exact h earlier x front n rfl reserved

/-- What one turn makes of the tally, given its effect on the entry. -/
theorem tally_append {turns : List (Turn ε)} {t : Turn ε} {old new : Option UInt64}
    (effect : t.Effect a old new) (noRefetch : t.errand.asks ≠ .refetch a)
    (entry : old.map UInt64.toNat = tally a turns)
    (untouched : turns.findSome? (Turn.brought? a) = none → turns.countP (Turn.counts a) = 0) :
    new.map UInt64.toNat = tally a (turns ++ [t]) := by
  rw [tally] at entry ⊢
  cases effect with
  | keep quiet late =>
    cases first : turns.findSome? (Turn.brought? a) with
    | none =>
      have missing : old = none := by simpa [first] using entry
      have silent : t.brought? a = none := by simpa [missing] using late
      simp [first, missing, silent]
    | some n => simpa [first, quiet, List.countP_append] using entry
  | insert quiet brought =>
    cases first : turns.findSome? (Turn.brought? a) with
    | none => simp [first, brought, quiet, List.countP_append, untouched first]
    | some n => simp [first] at entry
  | @count found next counted own _ succ =>
    cases first : turns.findSome? (Turn.brought? a) with
    | none => simp [first] at entry
    | some n =>
      have entry : found.toNat = n.toNat + turns.countP (Turn.counts a) := by
        simpa [first] using entry
      simp [first, counted, List.countP_append, succ, entry, Nat.add_assoc]
  | renew _ renewed =>
    rw [Turn.renewed?] at renewed
    split at renewed
    next => simp [noRefetch] at renewed
    next => cases renewed

theorem Counted.move {d : Desk ε} (h : Counted a d) {m : Move ε}
    (noRefetch : ∀ e, m = .arrive e → e.asks ≠ .refetch a) : Counted a (d.move m) := by
  have stays : ∀ e ∈ (d.move m).running.map Running.errand, e.asks ≠ .refetch a := by
    intro e he
    rcases errand_of_move he with he | he
    · exact h.noRefetch e he
    · exact noRefetch e he
  rcases d.move_cases m with ⟨book, turns⟩ | ⟨t, turns, present, effects⟩
  · exact ⟨stays, by rw [book, turns]; exact h.entry, by rw [turns]; exact h.untouched,
      by rw [turns]; exact h.numbered⟩
  · have effect := effects a
    have entry := tally_append effect (h.noRefetch _ present) h.entry h.untouched
    refine ⟨stays, by rw [turns]; exact entry, ?_, ?_⟩
    · rw [turns]
      intro nothing
      obtain ⟨nothing, -⟩ : d.turns.findSome? (Turn.brought? a) = none ∧ t.brought? a = none := by
        simpa using nothing
      -- Without an entry no turn counts on, and nobody has brought one.
      have missing : d.book.get? a = none := by simpa [tally, nothing] using h.entry
      have quiet : t.counts a = false := by
        cases counted : t.counts a with
        | false => rfl
        | true => exact absurd missing (effect.ne_none counted)
      simp [List.countP_append, h.untouched nothing, quiet]
    · rw [turns]
      refine h.numbered.append fun n reserved => ?_
      rw [← h.entry, effect.eq_some reserved]
      rfl

/-- Whatever moves are made, in whatever order, the invariant holds at the end. -/
theorem Counted.run {moves : List (Move ε)} {d : Desk ε} (h : Counted a d)
    (noRefetch : ∀ e, .arrive e ∈ moves → e.asks ≠ .refetch a) : Counted a (d.run moves) := by
  induction moves generalizing d with
  | nil => exact h
  | cons m moves ih =>
    refine ih (h.move fun e he => noRefetch e (he ▸ List.mem_cons_self)) fun e he => ?_
    exact noRefetch e (List.mem_cons_of_mem _ he)

theorem Numbered.of_append {turns : List (Turn ε)} {t : Turn ε}
    (h : Numbered a (turns ++ [t])) : Numbered a turns := by
  intro earlier x later n split reserved
  exact h earlier x (later ++ [t]) n (by simp [split]) reserved

/-- The tally after some turns, from that after the first of them. -/
theorem tally_of_prefix {earlier : List (Turn ε)} {k : Nat} (h : tally a earlier = some k)
    (later : List (Turn ε)) :
    tally a (earlier ++ later) = some (k + later.countP (Turn.counts a)) := by
  rw [tally] at h ⊢
  cases first : earlier.findSome? (Turn.brought? a) with
  | none => simp [first] at h
  | some n =>
    obtain rfl : n.toNat + earlier.countP (Turn.counts a) = k := by simpa [first] using h
    simp [first, List.countP_append, Nat.add_assoc]

/-- A nonce that was handed out lies below the tally afterwards. -/
theorem Numbered.lt_tally {turns : List (Turn ε)} (h : Numbered a turns) {m : UInt64}
    (hm : m ∈ reservedNonces a turns) {k : Nat} (hk : tally a turns = some k) : m.toNat < k := by
  obtain ⟨t, ht, reserved⟩ := List.mem_filterMap.mp hm
  obtain ⟨earlier, later, rfl⟩ := List.append_of_mem ht
  have before := h earlier t later m rfl reserved
  have after := tally_of_prefix before (t :: later)
  rw [hk, List.countP_cons_of_pos (Turn.counts_of_reserved reserved)] at after
  have := Option.some.inj after
  omega

theorem reservedNonces_append (turns : List (Turn ε)) (t : Turn ε) :
    reservedNonces a (turns ++ [t]) = reservedNonces a turns ++ (t.reserved? a).toList := by
  cases h : t.reserved? a <;> simp [reservedNonces, h]

/-- Of two nonces handed out the later one is the larger. -/
theorem Numbered.pairwise {turns : List (Turn ε)} (h : Numbered a turns) :
    (reservedNonces a turns).Pairwise (· < ·) := by
  induction turns using List.reverseRecOn with
  | nil => exact .nil
  | append_singleton turns t ih =>
    rw [reservedNonces_append, List.pairwise_append]
    refine ⟨ih h.of_append, by cases t.reserved? a <;> simp, ?_⟩
    intro m hm n hn
    have reserved : t.reserved? a = some n := by simpa using hn
    exact h.of_append.lt_tally hm (h turns t [] n rfl reserved)

/-- Without plain advances as many turns have counted on as nonces were handed out. -/
theorem countP_counts_eq_length {turns : List (Turn ε)}
    (h : ∀ t ∈ turns, t.advances a = false) :
    turns.countP (Turn.counts a) = (reservedNonces a turns).length := by
  rw [reservedNonces, List.length_filterMap_eq_countP]
  refine List.countP_congr fun t ht => ?_
  simp [Turn.counts, h t ht]

/-- The first value brought, from the tally that it begins. -/
theorem tally_eq_some {turns : List (Turn ε)} {k : Nat} (h : tally a turns = some k) :
    ∃ first, turns.findSome? (Turn.brought? a) = some first ∧
      k = first.toNat + turns.countP (Turn.counts a) := by
  obtain ⟨first, brought, rfl⟩ := Option.map_eq_some_iff.mp h
  exact ⟨first, brought, rfl⟩

/-- Nothing is handed out before a value was brought. -/
theorem Numbered.eq_nil {turns : List (Turn ε)} (h : Numbered a turns)
    (nothing : turns.findSome? (Turn.brought? a) = none) : reservedNonces a turns = [] := by
  refine List.eq_nil_iff_forall_not_mem.mpr fun m hm => ?_
  obtain ⟨t, ht, reserved⟩ := List.mem_filterMap.mp hm
  obtain ⟨earlier, later, rfl⟩ := List.append_of_mem ht
  obtain ⟨first, brought, -⟩ := tally_eq_some (h earlier t later m rfl reserved)
  simp [brought] at nothing

/-- Without plain advances the nonces handed out are all numbers from the first value on. -/
theorem Numbered.map_toNat {turns : List (Turn ε)} (h : Numbered a turns)
    (plain : ∀ t ∈ turns, t.advances a = false) {first : UInt64}
    (hf : turns.findSome? (Turn.brought? a) = some first) :
    (reservedNonces a turns).map UInt64.toNat =
      List.range' first.toNat (reservedNonces a turns).length := by
  induction turns using List.reverseRecOn with
  | nil => simp at hf
  | append_singleton turns t ih =>
    have plain' : ∀ x ∈ turns, x.advances a = false := fun x hx => plain x (by simp [hx])
    rw [reservedNonces_append]
    cases reserved : t.reserved? a with
    | none =>
      cases brought : turns.findSome? (Turn.brought? a) with
      | none => simp [h.of_append.eq_nil brought]
      | some n =>
        obtain rfl : n = first := by simpa [brought] using hf
        simpa using ih h.of_append plain' brought
    | some n =>
      obtain ⟨value, brought, succ⟩ := tally_eq_some (h turns t [] n rfl reserved)
      obtain rfl : value = first := by simpa [brought] using hf
      rw [countP_counts_eq_length plain'] at succ
      simp [ih h.of_append plain' brought, List.range'_concat, succ]

end Desk

/-- Errands share a book that does not know an address yet, in any interleaving and with any
answers of the source, and nobody refetches the address. The nonces handed out for it are
distinct. Each is the value whose insertion came first plus the number of turns that counted the
address on before; without plain advances they are all numbers from that value on. -/
theorem reservations_interleaved {ε : Type} (b : NonceBook) (a : String) (moves : List (Move ε))
    (untracked : b.get? a = none) (noRefetch : ∀ e, .arrive e ∈ moves → e.asks ≠ .refetch a) :
    let turns := ((Desk.ofBook b).run moves).turns
    (reservedNonces a turns).Nodup ∧
    (∀ earlier t later n, turns = earlier ++ t :: later → t.reserved? a = some n →
      ∃ first, turns.findSome? (Turn.brought? a) = some first ∧
        n.toNat = first.toNat + earlier.countP (Turn.counts a)) ∧
    ((∀ t ∈ turns, t.advances a = false) →
      ∀ first, turns.findSome? (Turn.brought? a) = some first →
        (reservedNonces a turns).map UInt64.toNat =
          List.range' first.toNat (reservedNonces a turns).length) := by
  have counted : Desk.Counted a ((Desk.ofBook b).run moves) :=
    (Desk.counted_ofBook untracked).run noRefetch
  intro turns
  have numbered : Desk.Numbered a turns := counted.numbered
  refine ⟨?_, ?_, ?_⟩
  · exact numbered.pairwise.imp fun h => UInt64.ne_of_lt h
  · intro earlier t later n split reserved
    obtain ⟨first, brought, value⟩ := Desk.tally_eq_some (numbered earlier t later n split reserved)
    exact ⟨first, by simp [split, brought], value⟩
  · intro plain first brought
    exact numbered.map_toNat plain brought

/-- Two callers and a transaction find the address missing at the same time, are told 5, 9 and
nothing at all, and the later answer is put in first. -/
def race (t : Transaction) : List (Move Unit) :=
  [.arrive (.call (.reserve "a")), .arrive (.number t), .arrive (.call (.read "a")),
    .turn 0, .turn 1, .turn 2, .answer 0 (.ok 5), .answer 1 (.ok 9), .answer 2 (.error ()),
    .turn 1, .turn 0, .turn 0, .turn 2, .turn 1]

theorem reservations_interleaved_race :
    let t : Transaction := ⟨0, .zero, "b", "a", 1, 1, [], "1", 1, none, none, none⟩
    let turns := ((Desk.ofBook .empty).run (race t)).turns
    NonceBook.empty.get? "a" = none ∧ (∀ e, .arrive e ∈ race t → e.asks ≠ .refetch "a") ∧
      (reservedNonces "a" turns).Nodup ∧
      (reservedNonces "a" turns).map UInt64.toNat = List.range' 9 2 := by
  intro t turns
  have noRefetch : ∀ e, .arrive e ∈ race t → e.asks ≠ .refetch "a" := by
    simp [race, Errand.asks]
  obtain ⟨distinct, -, all⟩ := reservations_interleaved .empty "a" (race t) rfl noRefetch
  have two : (reservedNonces "a" turns).length = 2 := by decide +kernel
  rw [← two]
  exact ⟨rfl, noRefetch, distinct, all (by decide +kernel) 9 (by decide +kernel)⟩

end ObserverRelay.Chain
