import ObserverRelay.Proofs.Nonce.Interleaving
import Mathlib.Data.List.Induction
/-!
# What becomes of an entry

Once an address is in the book it stays there, whatever errands interleave, and its nonce changes in
two ways only: an errand counts it on, or a refetch puts in the nonce that it was told. An answer that
comes late to a first use is dropped. So a call that was begun for a known address, or that has put
its address in, finds it there when it goes on: of all calls only an advance can miss it.

## Main statements

* `move_changes`: how one move can change the nonce of an address that is known.
* `AllSure.run`: where calls may stand and how they may end, whatever moves were made.
* `asked_of_run`: an answer that an errand has was given to this errand, while it waited.
-/
namespace ObserverRelay.Chain

namespace Turn
variable {ε : Type} {a : String} {t : Turn ε}

theorem of_counts (counted : t.counts a = true) :
    t.before = .known ∧ (t.errand.asks = .reserve a ∨ t.errand.asks = .advance a) := by
  by_contra other
  refine absurd (counts_eq_false fun known => ?_) (Bool.not_eq_false _ ▸ counted)
  simpa [known, not_or] using other

theorem of_renewed {n : UInt64} (renewed : t.renewed? a = some n) :
    t.before = .answered (.ok n) ∧ t.errand.asks = .refetch a := by
  rw [renewed?] at renewed
  split at renewed
  next m before =>
    split at renewed
    next asks =>
      obtain rfl := Option.some.inj renewed
      exact ⟨before, asks⟩
    next => cases renewed
  next => cases renewed

end Turn

namespace NonceBook
variable {ε : Type} {b : NonceBook} {a : String} {n : UInt64}

/-- What one turn of an errand may make of the nonce `n` of an address. -/
inductive Changes (a : String) (n : UInt64) (e : Errand) : Stage ε → UInt64 → Prop
  | same {stage : Stage ε} : Changes a n e stage n
  | counted {next : UInt64} (asks : e.asks = .reserve a ∨ e.asks = .advance a)
      (succ : next.toNat = n.toNat + 1) : Changes a n e .known next
  | refetched {v : UInt64} (asks : e.asks = .refetch a) : Changes a n e (.answered (.ok v)) v

/-- No turn takes an address out of the book. -/
theorem step_changes (e : Errand) (stage : Stage ε) (entry : b.get? a = some n) :
    ∃ m, (b.step e.asks stage).2.get? a = some m ∧ Changes a n e stage m := by
  have effect := b.step_effect e stage a
  rw [entry] at effect
  generalize (b.step e.asks stage).2.get? a = new at effect
  cases effect with
  | keep => exact ⟨n, rfl, .same⟩
  | @count _ next counted _ _ succ =>
    obtain ⟨known, asks⟩ := Turn.of_counts counted
    obtain rfl : stage = .known := known
    exact ⟨next, rfl, .counted asks succ⟩
  | @renew _ v _ renewed =>
    obtain ⟨answered, asks⟩ := Turn.of_renewed renewed
    obtain rfl : stage = .answered (.ok v) := answered
    exact ⟨v, rfl, .refetched asks⟩

theorem tracks_eq_true_iff : b.tracks a = true ↔ ∃ n, b.get? a = some n := Option.isSome_iff_exists

theorem tracks_step {e : Errand} {stage : Stage ε} (tracked : b.tracks a = true) :
    (b.step e.asks stage).2.tracks a = true := by
  obtain ⟨n, entry⟩ := tracks_eq_true_iff.mp tracked
  obtain ⟨m, entry', -⟩ := step_changes e stage entry
  exact tracks_eq_true_iff.mpr ⟨m, entry'⟩

theorem tracks_insertNew (b : NonceBook) (a : String) (n : UInt64) :
    (b.insertNew a n).tracks a = true := by
  unfold insertNew
  split
  next tracked => exact tracked
  next => simp [tracks]

/-- A call only misses its address where it is not in the book. -/
theorem untracked_of_use {call : NonceCall}
    (missed : (b.use (ε := ε) call).1 = .failed (.untracked a)) :
    call.address = a ∧ b.tracks a = false := by
  have missing {c : String} (entry : b.get? c = none)
      (same : Outcome.failed (ε := ε) (.untracked c) = .failed (.untracked a)) :
      c = a ∧ b.tracks a = false := by
    cases same
    exact ⟨rfl, by rw [tracks, entry]; rfl⟩
  have counted {c : String} {handOut : Bool}
      (missed : (b.count (ε := ε) c handOut).1 = .failed (.untracked a)) :
      c = a ∧ b.tracks a = false := by
    obtain ⟨entry, same⟩ | ⟨_, _, _, _, same⟩ | ⟨_, _, _, _, same⟩ :=
      b.count_cases (ε := ε) c handOut
    · exact missing entry (by rw [← missed, same])
    · rw [same] at missed
      cases missed
    · rw [same] at missed
      cases handOut <;> cases missed
  cases call with
  | read c | refetch c =>
    simp only [use] at missed
    split at missed
    next entry => exact missing entry missed
    next => cases missed
  | reserve c | advance c => exact counted missed

end NonceBook

/-- Where the call of an errand may stand: before its last turn its address is in the book, and it
never misses it. An advance alone does not look first. -/
structure Running.Sure {ε : Type} (b : NonceBook) (r : Running ε) : Prop where
  known : r.stage = .known → (∃ a, r.errand.asks = .advance a) ∨
    b.tracks r.errand.asks.address = true
  found : ∀ a, r.stage = .done (.failed (.untracked a)) → r.errand.asks = .advance a

namespace Running.Sure
variable {ε : Type} {b : NonceBook} {r : Running ε}

/-- Anywhere else a call may stand, whatever the book holds. -/
theorem of_ne (unknown : r.stage ≠ .known) (found : ∀ a, r.stage ≠ .done (.failed (.untracked a))) :
    r.Sure b :=
  ⟨fun known => absurd known unknown, fun a missed => absurd missed (found a)⟩

/-- Nothing that the others do to the book takes an address away from a call. -/
theorem mono {b' : NonceBook} (sure : r.Sure b)
    (kept : ∀ a, b.tracks a = true → b'.tracks a = true) : r.Sure b' :=
  ⟨fun known => (sure.known known).imp_right (kept _), sure.found⟩

/-- A turn leads to where the call may stand next. -/
theorem step (sure : r.Sure b) :
    Sure (b.step r.errand.asks r.stage).2 ⟨r.errand, (b.step r.errand.asks r.stage).1⟩ := by
  obtain ⟨e, stage⟩ := r
  cases stage with
  | started =>
    refine ⟨fun known => ?_, fun a found => ?_⟩
    · cases asks : e.asks with
      | advance a => exact .inl ⟨a, rfl⟩
      | refetch a => simp [NonceBook.step, NonceBook.needsSource, asks] at known
      | read a | reserve a =>
        have tracked : b.tracks a = true := by
          simpa [NonceBook.step, NonceBook.needsSource, asks] using known
        exact .inr tracked
    · simp only [NonceBook.step] at found
      split at found <;> cases found
  | asking => exact of_ne (by simp [NonceBook.step]) (by simp [NonceBook.step])
  | answered answer =>
    cases answer with
    | error x => exact of_ne (by simp [NonceBook.step]) (by simp [NonceBook.step])
    | ok n =>
      cases asks : e.asks with
      | refetch a => exact of_ne (by simp [NonceBook.step]) (by simp [NonceBook.step])
      | read a | reserve a | advance a =>
        refine ⟨fun _ => .inr ?_, by simp [NonceBook.step]⟩
        rw [asks]
        exact b.tracks_insertNew a n
  | known =>
    refine ⟨by simp [NonceBook.step], fun a found => ?_⟩
    have missed : (b.use (ε := ε) e.asks).1 = .failed (.untracked a) := by
      simpa [NonceBook.step] using found
    obtain ⟨same, missing⟩ := NonceBook.untracked_of_use missed
    rcases sure.known rfl with ⟨c, asks⟩ | tracked
    · rw [asks, NonceCall.address] at same
      rw [asks, same]
    · rw [same, missing] at tracked
      cases tracked
  | done o => exact ⟨by simp [NonceBook.step], sure.found⟩

end Running.Sure

namespace Desk
variable {ε : Type} {d : Desk ε} {a : String}

/-- The turn that a move takes, if there is an errand of its number. -/
theorem move_turn {i : Nat} {e : Errand} {stage : Stage ε} (found : d.running[i]? = some ⟨e, stage⟩) :
    d.move (.turn i) = ⟨(d.book.step e.asks stage).2,
      d.running.set i ⟨e, (d.book.step e.asks stage).1⟩,
      d.turns ++ [⟨e, stage, (d.book.step e.asks stage).1⟩]⟩ := by
  simp only [move, found]

/-- What a move may make of the nonce of an address: what the turn that it takes makes of it. -/
theorem move_changes {n : UInt64} (entry : d.book.get? a = some n) (m : Move ε) :
    (d.move m).book.get? a = some n ∨
    ∃ i e stage next, m = .turn i ∧ d.running[i]? = some ⟨e, stage⟩ ∧
      (d.move m).book.get? a = some next ∧ NonceBook.Changes a n e stage next := by
  cases m with
  | arrive e => exact .inl entry
  | answer i r =>
    unfold move
    dsimp only
    split <;> exact .inl entry
  | turn i =>
    cases found : d.running[i]? with
    | none => exact .inl (by simpa [move, found] using entry)
    | some r =>
      obtain ⟨e, stage⟩ := r
      obtain ⟨next, entry', changes⟩ := NonceBook.step_changes e stage entry
      exact .inr ⟨i, e, stage, next, rfl, found, by rw [move_turn found]; exact entry', changes⟩

theorem tracks_move (tracked : d.book.tracks a = true) (m : Move ε) :
    (d.move m).book.tracks a = true := by
  obtain ⟨n, entry⟩ := NonceBook.tracks_eq_true_iff.mp tracked
  rcases move_changes entry m with same | ⟨_, _, _, next, _, _, entry', _⟩
  · exact NonceBook.tracks_eq_true_iff.mpr ⟨n, same⟩
  · exact NonceBook.tracks_eq_true_iff.mpr ⟨next, entry'⟩

/-- An address that is in the book stays there. -/
theorem tracks_run (tracked : d.book.tracks a = true) (moves : List (Move ε)) :
    (d.run moves).book.tracks a = true := by
  induction moves generalizing d with
  | nil => exact tracked
  | cons m moves ih => exact ih (tracks_move tracked m)

/-- The calls of all errands at a desk stand where they may. -/
def AllSure (d : Desk ε) : Prop := ∀ r ∈ d.running, r.Sure d.book

theorem allSure_ofBook (b : NonceBook) : (ofBook b : Desk ε).AllSure := by
  simp [AllSure, ofBook]

theorem AllSure.move (sure : d.AllSure) (m : Move ε) : (d.move m).AllSure := by
  have kept (c : String) (tracked : d.book.tracks c = true) : (d.move m).book.tracks c = true :=
    tracks_move tracked m
  have others {r : Running ε} (mem : r ∈ d.running) : r.Sure (d.move m).book := (sure r mem).mono kept
  intro r mem
  cases m with
  | arrive e =>
    rcases List.mem_append.mp mem with old | new
    · exact others old
    · obtain rfl := List.mem_singleton.mp new
      exact .of_ne (by simp) (by simp)
  | answer i answer =>
    cases found : d.running[i]? with
    | none =>
      simp only [Desk.move, found] at mem
      exact others mem
    | some r' =>
      obtain ⟨e, stage⟩ := r'
      cases stage with
      | asking =>
        simp only [Desk.move, found] at mem
        rcases List.mem_or_eq_of_mem_set mem with old | rfl
        · exact others old
        · exact .of_ne (by simp) (by simp)
      | started | answered | known | done =>
        simp only [Desk.move, found] at mem
        exact others mem
  | turn i =>
    cases found : d.running[i]? with
    | none =>
      simp only [Desk.move, found] at mem
      exact others mem
    | some r' =>
      rw [move_turn found] at mem ⊢
      rcases List.mem_or_eq_of_mem_set mem with old | rfl
      · exact (sure r old).mono fun c => NonceBook.tracks_step
      · exact (sure r' (List.mem_of_getElem? found)).step

/-- Whatever moves are made, all calls stand where they may. -/
theorem AllSure.run (sure : d.AllSure) (moves : List (Move ε)) : (d.run moves).AllSure := by
  induction moves generalizing d with
  | nil => exact sure
  | cons m moves ih => exact ih (sure.move m)

/-! ## Where answers come from -/

/-- Only the source gives answers. -/
theorem step_ne_answered (b : NonceBook) (call : NonceCall) (stage : Stage ε)
    (answer : Except ε UInt64) : (b.step call stage).1 ≠ .answered answer := by
  intro same
  match stage with
  | .started =>
    simp only [NonceBook.step] at same
    split at same <;> cases same
  | .asking | .known | .done o | .answered (.error x) => cases same
  | .answered (.ok n) => cases call <;> cases same

/-- An errand that has an answer after a move had it before, or it waited and the move was the
answer. -/
theorem answered_of_move {m : Move ε} {i : Nat} {e : Errand} {answer : Except ε UInt64}
    (found : (d.move m).running[i]? = some ⟨e, .answered answer⟩) :
    d.running[i]? = some ⟨e, .answered answer⟩ ∨
      m = .answer i answer ∧ d.running[i]? = some ⟨e, .asking⟩ := by
  have replaced {j : Nat} {r r' : Running ε} (there : d.running[j]? = some r)
      (found : (d.running.set j r')[i]? = some ⟨e, .answered answer⟩) :
      d.running[i]? = some ⟨e, .answered answer⟩ ∨ i = j ∧ r' = ⟨e, .answered answer⟩ := by
    by_cases same : j = i
    · subst same
      rw [List.getElem?_set_self (List.getElem?_eq_some_iff.mp there).1] at found
      exact .inr ⟨rfl, Option.some.inj found⟩
    · rw [List.getElem?_set_ne same] at found
      exact .inl found
  cases m with
  | arrive c =>
    rw [Desk.move, List.getElem?_append] at found
    split at found
    next => exact .inl found
    next =>
      obtain ⟨_, same⟩ := List.getElem?_eq_some_iff.mp found
      simp at same
  | answer j r =>
    cases there : d.running[j]? with
    | none =>
      simp only [Desk.move, there] at found
      exact .inl found
    | some r' =>
      obtain ⟨c, stage⟩ := r'
      cases stage with
      | asking =>
        simp only [Desk.move, there] at found
        rcases replaced there found with old | ⟨rfl, same⟩
        · exact .inl old
        · cases same
          exact .inr ⟨rfl, there⟩
      | started | answered | known | done =>
        simp only [Desk.move, there] at found
        exact .inl found
  | turn j =>
    cases there : d.running[j]? with
    | none =>
      simp only [Desk.move, there] at found
      exact .inl found
    | some r' =>
      rw [move_turn there] at found
      rcases replaced there found with old | ⟨rfl, same⟩
      · exact .inl old
      · exact absurd (congrArg Running.stage same) (step_ne_answered _ _ _ _)

/-- An answer that an errand has was given to this very errand, while it waited. -/
theorem asked_of_run {b : NonceBook} {moves : List (Move ε)} {i : Nat} {e : Errand}
    {answer : Except ε UInt64}
    (found : ((ofBook b).run moves).running[i]? = some ⟨e, .answered answer⟩) :
    ∃ before after, moves = before ++ .answer i answer :: after ∧
      ((ofBook b).run before).running[i]? = some ⟨e, .asking⟩ := by
  induction moves using List.reverseRecOn with
  | nil => simp [ofBook] at found
  | append_singleton moves m ih =>
    rw [run_append, run_cons, run_nil] at found
    rcases answered_of_move found with earlier | ⟨rfl, waiting⟩
    · obtain ⟨before, after, rfl, waiting⟩ := ih earlier
      exact ⟨before, after ++ [m], by simp, waiting⟩
    · exact ⟨moves, [], rfl, waiting⟩

end Desk

end ObserverRelay.Chain
