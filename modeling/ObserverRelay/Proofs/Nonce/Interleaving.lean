import ObserverRelay.Chain.NonceBook
import Mathlib.Data.List.Basic
/-!
# Calls on the nonce book that interleave

Any number of errands share one book. Each takes its turns under a lock, and between two turns
of one errand the others may take theirs; only the source's answer comes without the lock. A
desk is the book together with all errands under way, finished or not, and the turns taken so
far. `Desk.run` takes any list of moves, so a statement about all lists is one about all orders.

## Main statements

* `NonceBook.step_effect`: what one turn can do to the entry of an address.
* `Desk.move_cases`: what one move can do to a desk.
-/
namespace ObserverRelay.Chain

/-- What somebody wants from the book. -/
inductive Errand
  /-- A call, for its outcome. -/
  | call (c : NonceCall)
  /-- The next nonce of its sender, to be put into a transaction. -/
  | number (t : Transaction)

/-- The call that an errand makes. -/
def Errand.asks : Errand → NonceCall
  | call c => c
  | number t => .reserve t.sender

/-- The nonce that the one who came with an errand is left with: the caller holds the nonce that
was handed out, the transaction has it in its field. -/
def Errand.receives (n : UInt64) : Errand → UInt64
  | call _ => n
  | number t => (Outcome.assign (ε := Unit) t (.nonce n)).nonce

@[simp] theorem Errand.receives_eq (n : UInt64) (e : Errand) : e.receives n = n := by
  cases e <;> rfl

/-- An errand under way and the place where its call stands. -/
structure Running (ε : Type) where
  errand : Errand
  stage : Stage ε

/-- A step of one errand that the others see as a whole. -/
structure Turn (ε : Type) where
  errand : Errand
  before : Stage ε
  after : Stage ε

/-- A book, the errands under way and the turns taken, the latest one last. -/
structure Desk (ε : Type) where
  book : NonceBook
  running : List (Running ε)
  turns : List (Turn ε)

/-- What may happen at a desk. -/
inductive Move (ε : Type)
  /-- Somebody comes with an errand. -/
  | arrive (e : Errand)
  /-- The source answers the errand with the given number, if it was asked. -/
  | answer (i : Nat) (r : Except ε UInt64)
  /-- The errand with the given number takes its next turn. -/
  | turn (i : Nat)

namespace Turn
variable {ε : Type}

/-- The value that a turn brought from the source for an address, to be put in if the address
is not in the book yet. -/
def brought? (a : String) (t : Turn ε) : Option UInt64 :=
  match t.before with
  | .answered (.ok n) =>
    if t.errand.asks.address = a ∧ t.errand.asks ≠ .refetch a then some n else none
  | _ => none

/-- The value that a turn brought from the source for an address, to be put in whether or not
the address is in the book. -/
def renewed? (a : String) (t : Turn ε) : Option UInt64 :=
  match t.before with
  | .answered (.ok n) => if t.errand.asks = .refetch a then some n else none
  | _ => none

/-- The nonce that a turn handed out for an address, be it to a caller or to a transaction. -/
def reserved? (a : String) (t : Turn ε) : Option UInt64 :=
  match t.before, t.after with
  | .known, .done (.nonce n) =>
    if t.errand.asks = .reserve a then some (t.errand.receives n) else none
  | _, _ => none

/-- Whether a turn counted an address on without handing out its nonce. -/
def advances (a : String) (t : Turn ε) : Bool :=
  match t.before, t.after with
  | .known, .done .advanced => t.errand.asks = .advance a
  | _, _ => false

/-- Whether a turn counted an address on. -/
def counts (a : String) (t : Turn ε) : Bool := (t.reserved? a).isSome || t.advances a

/-- All that a turn can do to the entry of an address, from before to after. -/
inductive Effect (a : String) (t : Turn ε) : Option UInt64 → Option UInt64 → Prop
  /-- A value from the source is ignored if there is one already. -/
  | keep {entry : Option UInt64} (quiet : t.counts a = false)
      (late : t.brought? a = none ∨ entry ≠ none) : Effect a t entry entry
  | insert {n : UInt64} (quiet : t.counts a = false) (brought : t.brought? a = some n) :
      Effect a t none (some n)
  | count {n next : UInt64} (counted : t.counts a = true) (own : t.brought? a = none)
      (reserved : ∀ m, t.reserved? a = some m → m = n) (succ : next.toNat = n.toNat + 1) :
      Effect a t (some n) (some next)
  | renew {entry : Option UInt64} {n : UInt64} (quiet : t.counts a = false)
      (renewed : t.renewed? a = some n) : Effect a t entry (some n)

end Turn

namespace NonceBook
variable {ε : Type}

/-- Counting on finds the last of all nonces in an entry, or one that has a next. -/
theorem count_known {b : NonceBook} {a : String} {n : UInt64} (entry : b.get? a = some n)
    (handOut : Bool) :
    (∃ o, UInt64.size ≤ n.toNat + 1 ∧ b.count (ε := ε) a handOut = (.overflowed o, b)) ∨
    ∃ next, next.toNat = n.toNat + 1 ∧
      b.count (ε := ε) a handOut = (if handOut then .nonce n else .advanced, b.set a next) := by
  cases sum : Word.add n 1 with
  | error o => exact .inl ⟨o, (Word.add_eq_error_iff.mp sum).2, by simp [count, entry, sum]⟩
  | ok next => exact .inr ⟨next, Word.add_eq_ok_iff.mp sum, by simp [count, entry, sum]⟩

/-- Counting on either finds no entry, or the last of all nonces, or one that has a next. -/
theorem count_cases (b : NonceBook) (a : String) (handOut : Bool) :
    (b.get? a = none ∧ b.count (ε := ε) a handOut = (.failed (.untracked a), b)) ∨
    (∃ n o, b.get? a = some n ∧ UInt64.size ≤ n.toNat + 1 ∧
      b.count (ε := ε) a handOut = (.overflowed o, b)) ∨
    ∃ n next, b.get? a = some n ∧ next.toNat = n.toNat + 1 ∧
      b.count (ε := ε) a handOut = (if handOut then .nonce n else .advanced, b.set a next) := by
  cases entry : b.get? a with
  | none => exact .inl ⟨rfl, by simp [count, entry]⟩
  | some n =>
    obtain ⟨o, full, same⟩ | ⟨next, succ, counts⟩ := count_known (ε := ε) entry handOut
    · exact .inr (.inl ⟨n, o, rfl, full, same⟩)
    · exact .inr (.inr ⟨n, next, rfl, succ, counts⟩)

theorem get?_insertNew (b : NonceBook) (a c : String) (n : UInt64) :
    (b.insertNew c n).get? a = if a = c ∧ b.get? a = none then some n else b.get? a := by
  unfold insertNew tracks
  by_cases hc : a = c
  · subst hc
    cases entry : b.get? a <;> simp [entry]
  · split <;> simp [get?_set_of_ne hc, hc]

end NonceBook

namespace Turn
variable {ε : Type}

/-- Only a reservation or an advance counts on, and only once the address is known. -/
theorem counts_eq_false {a : String} {t : Turn ε}
    (h : t.before = .known → t.errand.asks ≠ .reserve a ∧ t.errand.asks ≠ .advance a) :
    t.counts a = false := by
  obtain ⟨e, before, after⟩ := t
  cases before with
  | known =>
    obtain ⟨hr, ha⟩ := h rfl
    cases after with
    | done o => cases o <;> simp_all [counts, reserved?, advances]
    | _ => rfl
  | _ => rfl

/-- Putting in what the source said, for an errand that leaves an entry in place. -/
theorem effect_insertNew {b : NonceBook} {a c : String} {n : UInt64} {t : Turn ε}
    (quiet : t.counts a = false) (brought : t.brought? a = if c = a then some n else none) :
    Effect a t (b.get? a) ((b.insertNew c n).get? a) := by
  rw [NonceBook.get?_insertNew]
  by_cases hc : c = a
  · rw [if_pos hc] at brought
    cases entry : b.get? a with
    | none =>
      rw [if_pos ⟨hc.symm, rfl⟩]
      exact .insert quiet brought
    | some m =>
      rw [if_neg (by simp)]
      exact .keep quiet (.inr (by simp))
  · rw [if_neg hc] at brought
    rw [if_neg fun h => hc h.1.symm]
    exact .keep quiet (.inl brought)

/-- Counting on for an address, with the nonce handed out or not. -/
theorem effect_count {b : NonceBook} {a c : String} (handOut : Bool) {e : Errand}
    (asks : e.asks = if handOut then .reserve c else .advance c) :
    Effect (ε := ε) a ⟨e, .known, .done (b.count c handOut).1⟩ (b.get? a)
      ((b.count (ε := ε) c handOut).2.get? a) := by
  obtain ⟨_, h⟩ | ⟨_, o, _, _, h⟩ | ⟨n, next, entry, succ, h⟩ :=
    b.count_cases (ε := ε) c handOut
  · rw [h]
    exact .keep rfl (.inl rfl)
  · rw [h]
    exact .keep rfl (.inl rfl)
  · have counted : counts (ε := ε) a
        ⟨e, .known, .done (if handOut then .nonce n else .advanced)⟩ = decide (c = a) := by
      cases handOut <;> by_cases hc : c = a <;> simp [counts, reserved?, advances, asks, hc]
    rw [h]
    by_cases hc : c = a
    · subst hc
      rw [entry, NonceBook.get?_set_self]
      refine .count (by rw [counted]; simp) rfl ?_ succ
      intro m hm
      cases handOut <;> simp_all [reserved?]
    · rw [NonceBook.get?_set_of_ne (Ne.symm hc)]
      exact .keep (by rw [counted]; simp [hc]) (.inl rfl)

theorem counts_of_reserved {a : String} {t : Turn ε} {n : UInt64} (h : t.reserved? a = some n) :
    t.counts a = true := by
  simp [counts, h]

/-- Counting on presupposes an entry. -/
theorem Effect.ne_none {a : String} {t : Turn ε} {old new : Option UInt64}
    (effect : Effect a t old new) (counted : t.counts a = true) : old ≠ none := by
  cases effect with
  | count => simp
  | keep quiet | insert quiet | renew quiet => simp [counted] at quiet

/-- The nonce that a turn hands out is the entry that it found. -/
theorem Effect.eq_some {a : String} {t : Turn ε} {old new : Option UInt64} {n : UInt64}
    (effect : Effect a t old new) (h : t.reserved? a = some n) : old = some n := by
  have counted := counts_of_reserved h
  cases effect with
  | count _ _ reserved => rw [reserved n h]
  | keep quiet | insert quiet | renew quiet => simp [counted] at quiet

end Turn

/-- A turn of any errand at any place has one of the listed effects on each entry. -/
theorem NonceBook.step_effect {ε : Type} (b : NonceBook) (e : Errand) (stage : Stage ε)
    (a : String) :
    Turn.Effect a ⟨e, stage, (b.step e.asks stage).1⟩ (b.get? a)
      ((b.step e.asks stage).2.get? a) := by
  have quiet (h : stage ≠ .known) {after : Stage ε} : Turn.counts a ⟨e, stage, after⟩ = false :=
    Turn.counts_eq_false fun known => absurd known h
  match stage with
  | .started => exact .keep (quiet (by simp)) (.inl rfl)
  | .asking => exact .keep (quiet (by simp)) (.inl rfl)
  | .done o => exact .keep (quiet (by simp)) (.inl rfl)
  | .answered (.error x) => exact .keep (quiet (by simp)) (.inl rfl)
  | .answered (.ok n) =>
    cases asks : e.asks with
    | refetch c =>
      by_cases hc : c = a
      · subst hc
        simp only [step, get?_set_self]
        exact .renew (quiet (by simp)) (by simp [Turn.renewed?, asks])
      · simp only [step, get?_set_of_ne (Ne.symm hc)]
        exact .keep (quiet (by simp)) (.inl (by simp [Turn.brought?, asks, NonceCall.address, hc]))
    | read c | reserve c | advance c =>
      refine Turn.effect_insertNew (quiet (by simp)) ?_
      simp [Turn.brought?, asks, NonceCall.address]
  | .known =>
    cases asks : e.asks with
    | reserve c => exact Turn.effect_count true asks
    | advance c => exact Turn.effect_count false asks
    | read c | refetch c =>
      have uncounted (after : Stage ε) : Turn.counts a ⟨e, .known, after⟩ = false :=
        Turn.counts_eq_false fun _ => by simp [asks]
      simp only [step, use]
      split <;> exact .keep (uncounted _) (.inl rfl)

namespace Desk
variable {ε : Type}

/-- A desk at which nothing has happened. -/
def ofBook (b : NonceBook) : Desk ε := ⟨b, [], []⟩

/-- The desk after a move. A move of an errand that is not there, or an answer that nobody waits
for, changes nothing. -/
def move (d : Desk ε) : Move ε → Desk ε
  | .arrive e => { d with running := d.running ++ [⟨e, .started⟩] }
  | .answer i r =>
    match d.running[i]? with
    | some ⟨e, .asking⟩ => { d with running := d.running.set i ⟨e, .answered r⟩ }
    | _ => d
  | .turn i =>
    match d.running[i]? with
    | none => d
    | some ⟨e, stage⟩ =>
      let (next, book) := d.book.step e.asks stage
      ⟨book, d.running.set i ⟨e, next⟩, d.turns ++ [⟨e, stage, next⟩]⟩

/-- The desk after moves in the given order. -/
def run (d : Desk ε) (moves : List (Move ε)) : Desk ε := moves.foldl move d

@[simp] theorem run_nil (d : Desk ε) : d.run [] = d := rfl

@[simp] theorem run_cons (d : Desk ε) (m : Move ε) (ms : List (Move ε)) :
    d.run (m :: ms) = (d.move m).run ms := rfl

theorem run_append (d : Desk ε) (ms ns : List (Move ε)) :
    d.run (ms ++ ns) = (d.run ms).run ns := by
  simp [run, List.foldl_append]

/-- A move takes a turn, with its effect on every entry, or leaves book and turns alone. -/
theorem move_cases (d : Desk ε) (m : Move ε) :
    ((d.move m).book = d.book ∧ (d.move m).turns = d.turns) ∨
    ∃ t : Turn ε, (d.move m).turns = d.turns ++ [t] ∧
      t.errand ∈ d.running.map Running.errand ∧
      ∀ a, t.Effect a (d.book.get? a) ((d.move m).book.get? a) := by
  cases m with
  | arrive e => exact .inl ⟨rfl, rfl⟩
  | answer i r =>
    unfold move
    dsimp only
    split <;> exact .inl ⟨rfl, rfl⟩
  | turn i =>
    cases found : d.running[i]? with
    | none => exact .inl (by simp [move, found])
    | some c =>
      obtain ⟨e, stage⟩ := c
      refine .inr ⟨⟨e, stage, (d.book.step e.asks stage).1⟩, by simp [move, found], ?_, ?_⟩
      · exact List.mem_map_of_mem (List.mem_of_getElem? found)
      · intro a
        simpa [move, found] using d.book.step_effect e stage a

/-- Whoever is at the desk after a move was there before or came with it. -/
theorem errand_of_move {d : Desk ε} {m : Move ε} {e : Errand}
    (h : e ∈ (d.move m).running.map Running.errand) :
    e ∈ d.running.map Running.errand ∨ m = .arrive e := by
  have replaced {i : Nat} {c : Running ε} (found : d.running[i]? = some c) (stage : Stage ε)
      (h : e ∈ (d.running.set i ⟨c.errand, stage⟩).map Running.errand) :
      e ∈ d.running.map Running.errand := by
    rw [List.mem_map] at h
    obtain ⟨x, hx, rfl⟩ := h
    rcases List.mem_or_eq_of_mem_set hx with hx | rfl
    · exact List.mem_map_of_mem hx
    · exact List.mem_map.mpr ⟨c, List.mem_of_getElem? found, rfl⟩
  cases m with
  | arrive c =>
    simp only [move, List.map_append, List.map_cons, List.map_nil, List.mem_append,
      List.mem_singleton] at h
    rcases h with h | rfl
    · exact .inl h
    · exact .inr rfl
  | answer i r =>
    unfold move at h
    dsimp only at h
    split at h
    next c found => exact .inl (replaced found _ h)
    next => exact .inl h
  | turn i =>
    rw [move] at h
    dsimp only at h
    split at h
    next => exact .inl h
    next e stage found => exact .inl (replaced found _ h)

end Desk
end ObserverRelay.Chain
