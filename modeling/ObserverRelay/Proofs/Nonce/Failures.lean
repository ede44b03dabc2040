import ObserverRelay.Proofs.Nonce.Entries
import ObserverRelay.Proofs.Nonce.Independence
/-!
# Calls that come to nothing

A call fails because the source does or because its address is not in the book, and then it leaves
the book as it was. Among other errands it might as well never have taken a turn: without its turns
the same moves leave the same book, and everybody else stands where they stood. A call that cannot
count on, since the nonce of its address is the last of all, at most puts this nonce in. So the last
of all nonces is never handed out, and no count begins anew.

## Main statements

* `NonceBook.aftermath_perform`: all that a call made alone may leave behind.
* `Desk.AlikeBut.run`: an errand that fails in the end can be left out of a run.
* `Desk.get?_run_of_refused`: an address stays unknown as long as no answer brings a nonce for it.
* `failures_leave_no_trace`: both, and what follows for the last of all nonces.
-/
namespace ObserverRelay.Chain

namespace NonceBook
variable {ε σ : Type} {b b' : NonceBook} {a : String}

/-- The last of all nonces, on which nobody can count. -/
def last : UInt64 := 0xFFFFFFFFFFFFFFFF

theorem eq_last_of_full {n : UInt64} (full : UInt64.size ≤ n.toNat + 1) : n = last := by
  rw [← UInt64.toNat_inj]
  have := n.toNat_lt_size
  simp only [UInt64.size] at this full
  have last_eq : last.toNat = 18446744073709551615 := rfl
  omega

theorem ne_last_of_succ {n next : UInt64} (succ : next.toNat = n.toNat + 1) : n ≠ last := by
  rintro rfl
  have := next.toNat_lt_size
  simp only [UInt64.size] at this
  have last_eq : last.toNat = 18446744073709551615 := rfl
  omega

/-! ## Calls made alone -/

/-- How a call made alone may end, with the book that it leaves. Whatever its end, no entry but that
of its address changes. -/
inductive Aftermath (b : NonceBook) (call : NonceCall) : Outcome ε → NonceBook → Prop
  /-- After a failure the whole book is as it was. -/
  | failed (x : NonceError ε) : Aftermath b call (.failed x) b
  /-- The nonce of the address is the last one, as it was before or as the source said at the first
  use, and stays so. -/
  | overflowed (o : Overflow) {b' : NonceBook}
      (before : b.get? call.address = some last ∨ b.get? call.address = none)
      (entry : b'.get? call.address = some last)
      (others : ∀ c, c ≠ call.address → b'.get? c = b.get? c) : Aftermath b call (.overflowed o) b'
  /-- The nonce that is told stays the next one. -/
  | told {n : UInt64} {b' : NonceBook}
      (quiet : call = .read call.address ∨ call = .refetch call.address)
      (entry : b'.get? call.address = some n)
      (others : ∀ c, c ≠ call.address → b'.get? c = b.get? c) : Aftermath b call (.nonce n) b'
  /-- The nonce that is handed out, or counted past, is followed by the next. -/
  | counted {o : Outcome ε} {n next : UInt64} {b' : NonceBook}
      (asked : call = .reserve call.address ∧ o = .nonce n ∨
        call = .advance call.address ∧ o = .advanced)
      (before : b.get? call.address = some n ∨ b.get? call.address = none)
      (succ : next.toNat = n.toNat + 1) (entry : b'.get? call.address = some next)
      (others : ∀ c, c ≠ call.address → b'.get? c = b.get? c) : Aftermath b call o b'

/-- Counting on from an entry that was there before, or has just been put in. -/
theorem aftermath_count {n : UInt64} {call : NonceCall} (handOut : Bool)
    (asks : call = if handOut then .reserve a else .advance a) (entry : b'.get? a = some n)
    (before : b.get? a = some n ∨ b.get? a = none) (others : ∀ c, c ≠ a → b'.get? c = b.get? c) :
    Aftermath (ε := ε) b call (b'.count a handOut).1 (b'.count (ε := ε) a handOut).2 := by
  have address : call.address = a := by rw [asks]; cases handOut <;> rfl
  obtain ⟨o, full, same⟩ | ⟨next, succ, same⟩ := count_known (ε := ε) entry handOut
  · obtain rfl : n = last := eq_last_of_full full
    rw [same]
    exact .overflowed o (address ▸ before) (address ▸ entry) (address ▸ others)
  · rw [same]
    refine .counted ?_ (address ▸ before) succ ?_ ?_
    · rw [address, asks]
      cases handOut <;> simp
    · rw [address, get?_set_self]
    · intro c other
      rw [address] at other
      rw [get?_set_of_ne other, others c other]

/-- A call goes on with a nonce that was in the book before, or has just been put in. -/
theorem aftermath_use {n : UInt64} {call : NonceCall} (entry : b'.get? call.address = some n)
    (before : (∃ c, call = .refetch c) ∨ b.get? call.address = some n ∨ b.get? call.address = none)
    (others : ∀ c, c ≠ call.address → b'.get? c = b.get? c) :
    Aftermath (ε := ε) b call (b'.use call).1 (b'.use (ε := ε) call).2 := by
  cases call with
  | read a | refetch a =>
    rw [NonceCall.address] at entry
    simp only [use, entry]
    exact .told (by simp [NonceCall.address]) entry others
  | reserve a => exact aftermath_count true rfl entry (before.resolve_left (by simp)) others
  | advance a => exact aftermath_count false rfl entry (before.resolve_left (by simp)) others

/-- What becomes of a call that had to ask the source. -/
theorem aftermath_conclude {call : NonceCall} (asks : b.needsSource call = true)
    (answer : Except ε UInt64) :
    Aftermath b call (b.conclude call answer).1 (b.conclude call answer).2 := by
  cases answer with
  | error x => exact .failed (.source x)
  | ok n =>
    have others (c : String) (other : c ≠ call.address) : (b.absorb n call).get? c = b.get? c :=
      get?_absorb_of_ne other b n
    cases call with
    | refetch a => exact aftermath_use (get?_set_self b a n) (.inl ⟨a, rfl⟩) others
    | advance a => cases asks
    | read a | reserve a =>
      have missing : b.get? a = none := by simpa [needsSource, tracks] using asks
      refine aftermath_use (n := n) ?_ (.inr (.inr missing)) others
      rw [absorb, NonceCall.address, get?_insertNew, if_pos ⟨rfl, missing⟩]

/-- A call made alone, whatever the source does. -/
theorem aftermath_perform (source : σ → String → Except ε UInt64 × σ) (b : NonceBook) (s : σ)
    (call : NonceCall) :
    Aftermath b call (b.perform source s call).1 (b.perform source s call).2.1 := by
  cases asks : b.needsSource call with
  | true =>
    simp only [perform, asks, if_true]
    exact aftermath_conclude asks _
  | false =>
    simp only [perform, asks]
    cases entry : b.get? call.address with
    | some n => exact aftermath_use entry (.inr (.inl entry)) fun _ _ => rfl
    | none =>
      cases call with
      | advance a =>
        rw [NonceCall.address] at entry
        simp only [Bool.false_eq_true, if_false, use, count, entry]
        exact .failed (.untracked a)
      | refetch a => cases asks
      | read a | reserve a =>
        rw [needsSource, tracks, Bool.not_eq_false', Option.isSome_iff_exists] at asks
        obtain ⟨n, there⟩ := asks
        rw [NonceCall.address, there] at entry
        cases entry

/-- A call that misses its address leaves the book alone. -/
theorem book_use_of_untracked {call : NonceCall} (missing : b.get? call.address = none) :
    (b.use (ε := ε) call).2 = b := by
  cases call with
  | read a | refetch a | reserve a | advance a =>
    rw [NonceCall.address] at missing
    simp only [use, count, missing]

/-- A call that finds its address does not fail. -/
theorem use_ne_failed {n : UInt64} {call : NonceCall} (entry : b.get? call.address = some n)
    (x : NonceError ε) : (b.use call).1 ≠ .failed x := by
  have counted {a : String} (handOut : Bool) (entry : b.get? a = some n) :
      (b.count a handOut).1 ≠ .failed x := by
    obtain ⟨_, -, same⟩ | ⟨_, -, same⟩ := count_known (ε := ε) entry handOut
    · rw [same]
      rintro ⟨⟩
    · rw [same]
      cases handOut <;> rintro ⟨⟩
  cases call with
  | read a | refetch a =>
    rw [NonceCall.address] at entry
    simp only [use, entry]
    rintro ⟨⟩
  | reserve a => exact counted true entry
  | advance a => exact counted false entry

/-- A call that cannot count on leaves the book alone in its last turn. -/
theorem use_of_overflowed {call : NonceCall} {o : Overflow}
    (ended : (b.use (ε := ε) call).1 = .overflowed o) :
    b.get? call.address = some last ∧ (b.use (ε := ε) call).2 = b := by
  have counted {a : String} {handOut : Bool}
      (ended : (b.count (ε := ε) a handOut).1 = .overflowed o) :
      b.get? a = some last ∧ (b.count (ε := ε) a handOut).2 = b := by
    obtain ⟨-, same⟩ | ⟨n, x, entry, full, same⟩ | ⟨_, _, -, -, same⟩ :=
      b.count_cases (ε := ε) a handOut
    · rw [same] at ended
      cases ended
    · rw [entry, same]
      exact ⟨congrArg some (eq_last_of_full full), rfl⟩
    · rw [same] at ended
      cases handOut <;> cases ended
  cases call with
  | reserve a | advance a => exact counted ended
  | read a | refetch a =>
    simp only [use] at ended
    split at ended <;> cases ended

/-- A turn leaves all entries alone but that of its address. -/
theorem get?_step_of_ne {call : NonceCall} {c : String} (other : c ≠ call.address) (b : NonceBook)
    (stage : Stage ε) : (b.step call stage).2.get? c = b.get? c := by
  match stage with
  | .started | .asking | .done o | .answered (.error x) => rfl
  | .answered (.ok n) =>
    cases call with
    | refetch a => exact get?_set_of_ne other b n
    | read a | reserve a | advance a => exact get?_absorb_of_ne other b n
  | .known => exact (local_use (ε := ε) call).frame b other

end NonceBook

/-! ## Errands among others -/

/-- A call that cannot fail any more: it has ended otherwise, or its address is in the book and only
its last turn is left. -/
inductive Running.Assured {ε : Type} (b : NonceBook) (e : Errand) : Stage ε → Prop
  | known (tracked : b.tracks e.asks.address = true) : Assured b e .known
  | done {o : Outcome ε} (ended : ∀ x, o ≠ .failed x) : Assured b e (.done o)

namespace Running.Assured
variable {ε : Type} {b b' : NonceBook} {e : Errand} {stage : Stage ε}

theorem mono (assured : Assured b e stage)
    (kept : ∀ a, b.tracks a = true → b'.tracks a = true) : Assured b' e stage := by
  cases assured with
  | known tracked => exact .known (kept _ tracked)
  | done ended => exact .done ended

theorem step (assured : Assured b e stage) :
    Assured (b.step e.asks stage).2 e (b.step e.asks stage).1 := by
  cases assured with
  | done ended => exact .done ended
  | known tracked =>
    obtain ⟨n, entry⟩ := NonceBook.tracks_eq_true_iff.mp tracked
    exact .done (NonceBook.use_ne_failed entry)

/-- A turn that changes the book is one after which the call cannot fail. -/
theorem of_changed (changed : (b.step e.asks stage).2 ≠ b) :
    Assured (b.step e.asks stage).2 e (b.step e.asks stage).1 := by
  match stage with
  | .started | .asking | .done o | .answered (.error x) => exact absurd rfl changed
  | .answered (.ok n) =>
    cases asks : e.asks with
    | refetch a =>
      simp only [NonceBook.step]
      exact .done fun x => by rintro ⟨⟩
    | read a | reserve a | advance a =>
      simp only [NonceBook.step]
      refine .known ?_
      rw [asks]
      exact b.tracks_insertNew a n
  | .known =>
    cases entry : b.get? e.asks.address with
    | some n => exact .done (NonceBook.use_ne_failed entry)
    | none => exact absurd (NonceBook.book_use_of_untracked entry) changed

end Running.Assured

namespace Desk
variable {ε : Type} {d d' : Desk ε} {i : Nat}

/-- The errand of the given number has failed. -/
def FailedAt (d : Desk ε) (i : Nat) : Prop :=
  ∃ e x, d.running[i]? = some ⟨e, .done (.failed x)⟩

/-- The errand of the given number cannot fail any more. -/
def AssuredAt (d : Desk ε) (i : Nat) : Prop :=
  ∃ e stage, d.running[i]? = some ⟨e, stage⟩ ∧ Running.Assured d.book e stage

theorem AssuredAt.not_failedAt (assured : d.AssuredAt i) : ¬d.FailedAt i := by
  rintro ⟨e, x, failed⟩
  obtain ⟨e', stage, found, assured⟩ := assured
  rw [failed] at found
  cases found
  cases assured with
  | done ended => exact ended x rfl

/-- What a move makes of an errand: nothing, or the turn or the answer is its own. -/
theorem running_move {r : Running ε} (found : d.running[i]? = some r) (m : Move ε) :
    (d.move m).running[i]? = some r ∨
    (m = .turn i ∧
      (d.move m).running[i]? = some ⟨r.errand, (d.book.step r.errand.asks r.stage).1⟩) ∨
    ∃ answer, m = .answer i answer ∧ r.stage = .asking ∧
      (d.move m).running[i]? = some ⟨r.errand, .answered answer⟩ := by
  obtain ⟨there, -⟩ := List.getElem?_eq_some_iff.mp found
  cases m with
  | arrive e =>
    left
    rw [move, List.getElem?_append_left there, found]
  | answer j answer =>
    by_cases own : j = i
    · subst own
      obtain ⟨e, stage⟩ := r
      cases stage with
      | asking =>
        refine .inr (.inr ⟨answer, rfl, rfl, ?_⟩)
        simp only [move, found]
        exact List.getElem?_set_self there
      | started | answered | known | done =>
        left
        simp only [move, found]
    · left
      unfold move
      dsimp only
      split
      next => rw [List.getElem?_set_ne own, found]
      next => exact found
  | turn j =>
    by_cases own : j = i
    · subst own
      refine .inr (.inl ⟨rfl, ?_⟩)
      rw [move_turn found]
      exact List.getElem?_set_self there
    · left
      cases here : d.running[j]? with
      | none => simpa only [move, here] using found
      | some r' => rw [move_turn here, List.getElem?_set_ne own, found]

theorem AssuredAt.move (assured : d.AssuredAt i) (m : Move ε) : (d.move m).AssuredAt i := by
  obtain ⟨e, stage, found, assured⟩ := assured
  obtain same | ⟨rfl, taken⟩ | ⟨answer, -, asking, -⟩ := running_move found m
  · exact ⟨e, stage, same, assured.mono fun a tracked => tracks_move tracked m⟩
  · refine ⟨e, _, taken, ?_⟩
    rw [move_turn found]
    exact assured.step
  · obtain rfl : stage = .asking := asking
    cases assured

theorem AssuredAt.run (assured : d.AssuredAt i) (moves : List (Move ε)) :
    (d.run moves).AssuredAt i := by
  induction moves generalizing d with
  | nil => exact assured
  | cons m moves ih => exact ih (assured.move m)

/-- The turns of an errand that fails in the end leave the book alone. -/
theorem book_turn_of_failedAt {moves : List (Move ε)}
    (fails : ((d.move (.turn i)).run moves).FailedAt i) : (d.move (.turn i)).book = d.book := by
  cases found : d.running[i]? with
  | none => simp only [move, found]
  | some r =>
    by_contra changed
    rw [move_turn found] at changed
    have assured : (d.move (.turn i)).AssuredAt i := by
      refine ⟨r.errand, (d.book.step r.errand.asks r.stage).1, ?_, ?_⟩
      · rw [move_turn found]
        exact List.getElem?_set_self (List.getElem?_eq_some_iff.mp found).1
      · rw [move_turn found]
        exact .of_changed changed
    exact (assured.run moves).not_failedAt fails

end Desk

/-- A nonce that is handed out has a next one. -/
theorem Turn.Effect.ne_last {ε : Type} {a : String} {t : Turn ε} {old new : Option UInt64}
    {n : UInt64} (effect : t.Effect a old new) (reserved : t.reserved? a = some n) :
    n ≠ NonceBook.last := by
  have counted := counts_of_reserved reserved
  cases effect with
  | count _ _ own succ =>
    rw [own n reserved]
    exact NonceBook.ne_last_of_succ succ
  | keep quiet | insert quiet | renew quiet => simp [counted] at quiet

/-- A value that is put in was the answer to an errand about the address. -/
theorem Turn.of_brought {ε : Type} {a : String} {t : Turn ε} {n : UInt64}
    (brought : t.brought? a = some n) :
    t.before = .answered (.ok n) ∧ t.errand.asks.address = a := by
  rw [brought?] at brought
  split at brought
  next m before =>
    split at brought
    next asks =>
      obtain rfl := Option.some.inj brought
      exact ⟨before, asks.1⟩
    next => cases brought
  next => cases brought

/-- Without an answer about the address a turn puts nothing in. -/
theorem Turn.Effect.eq_none {ε : Type} {a : String} {t : Turn ε} {new : Option UInt64}
    (effect : t.Effect a none new)
    (refused : t.errand.asks.address = a → ∀ n, t.before ≠ .answered (.ok n)) : new = none := by
  cases effect with
  | keep => rfl
  | insert _ brought =>
    obtain ⟨before, asks⟩ := of_brought brought
    exact absurd before (refused asks _)
  | renew _ renewed =>
    obtain ⟨before, asks⟩ := of_renewed renewed
    exact absurd before (refused (by rw [asks]; rfl) _)

/-- Whether a move is the turn, or the answer, of the errand of the given number. -/
def Move.isOf {ε : Type} (i : Nat) : Move ε → Bool
  | .arrive _ => false
  | .answer j _ | .turn j => j = i

namespace Desk
variable {ε : Type} {d d' : Desk ε} {i : Nat}

/-- Two desks are alike but for where one errand stands. -/
structure AlikeBut (i : Nat) (d d' : Desk ε) : Prop where
  book : d.book = d'.book
  length : d.running.length = d'.running.length
  others : ∀ j, j ≠ i → d.running[j]? = d'.running[j]?

theorem AlikeBut.refl (i : Nat) (d : Desk ε) : AlikeBut i d d := ⟨rfl, rfl, fun _ _ => rfl⟩

theorem AlikeBut.set (alike : AlikeBut i d d') (j : Nat) (r : Running ε) (b : NonceBook)
    (turns turns' : List (Turn ε)) :
    AlikeBut i ⟨b, d.running.set j r, turns⟩ ⟨b, d'.running.set j r, turns'⟩ := by
  refine ⟨rfl, by simp [alike.length], fun k other => ?_⟩
  rw [List.getElem?_set, List.getElem?_set, alike.length, alike.others k other]

theorem running_of_own {m : Move ε} (own : m.isOf i = true) :
    (d.move m).running = d.running ∨ ∃ r, (d.move m).running = d.running.set i r := by
  cases m with
  | arrive e => cases own
  | answer j answer =>
    obtain rfl : j = i := by simpa [Move.isOf] using own
    unfold Desk.move
    dsimp only
    split
    next => exact .inr ⟨_, rfl⟩
    next => exact .inl rfl
  | turn j =>
    obtain rfl : j = i := by simpa [Move.isOf] using own
    cases found : d.running[j]? with
    | none => exact .inl (by simp only [Desk.move, found])
    | some r => exact .inr ⟨_, by rw [move_turn found]⟩

/-- A move of the one errand changes nothing else, unless it changes the book. -/
theorem AlikeBut.own {m : Move ε} (alike : AlikeBut i d d') (own : m.isOf i = true)
    (same : (d.move m).book = d.book) : AlikeBut i (d.move m) d' := by
  obtain kept | ⟨r, replaced⟩ := running_of_own (d := d) own
  · exact ⟨same.trans alike.book, kept ▸ alike.length, kept ▸ alike.others⟩
  · refine ⟨same.trans alike.book, by rw [replaced, List.length_set, alike.length], ?_⟩
    intro k other
    rw [replaced, List.getElem?_set_ne (Ne.symm other), alike.others k other]

/-- All other moves keep two desks alike. -/
theorem AlikeBut.move {m : Move ε} (alike : AlikeBut i d d') (other : m.isOf i = false) :
    AlikeBut i (d.move m) (d'.move m) := by
  cases m with
  | arrive e =>
    refine ⟨alike.book, by simp [Desk.move, alike.length], fun k ne => ?_⟩
    rw [Desk.move, Desk.move, List.getElem?_append, List.getElem?_append, alike.length,
      alike.others k ne]
  | answer j answer =>
    have same := alike.others j (by simpa [Move.isOf] using other)
    simp only [Desk.move, same]
    split
    next => exact alike.book ▸ alike.set j _ d.book d.turns d'.turns
    next => exact alike
  | turn j =>
    have same := alike.others j (by simpa [Move.isOf] using other)
    cases found : d'.running[j]? with
    | none =>
      rw [found] at same
      simpa only [Desk.move, same, found] using alike
    | some r =>
      rw [move_turn (same.trans found), move_turn found, alike.book]
      exact alike.set j _ _ _ _

/-- An answer is not put into the book before the errand takes its turn. -/
theorem book_answer (d : Desk ε) (j : Nat) (answer : Except ε UInt64) :
    (d.move (.answer j answer)).book = d.book := by
  unfold Desk.move
  dsimp only
  split <;> rfl

/-- An errand that fails in the end can be left out of a run. -/
theorem AlikeBut.run {moves : List (Move ε)} (alike : AlikeBut i d d')
    (fails : (d.run moves).FailedAt i) :
    AlikeBut i (d.run moves) (d'.run (moves.filter fun m => !m.isOf i)) := by
  induction moves generalizing d d' with
  | nil => exact alike
  | cons m moves ih =>
    cases own : m.isOf i with
    | false =>
      rw [List.filter_cons_of_pos (by simp [own])]
      exact ih (alike.move own) fails
    | true =>
      rw [List.filter_cons_of_neg (by simp [own])]
      refine ih (alike.own own ?_) fails
      cases m with
      | arrive e => cases own
      | answer j answer => exact d.book_answer j answer
      | turn j =>
        obtain rfl : j = i := by simpa [Move.isOf] using own
        exact book_turn_of_failedAt fails

/-- No turn hands out the last of all nonces. -/
theorem reserved_ne_last {b : NonceBook} {moves : List (Move ε)} {t : Turn ε} {a : String}
    {n : UInt64} (taken : t ∈ ((ofBook b).run moves).turns) (reserved : t.reserved? a = some n) :
    n ≠ NonceBook.last := by
  induction moves using List.reverseRecOn with
  | nil => cases taken
  | append_singleton moves m ih =>
    rw [run_append, run_cons, run_nil] at taken
    obtain ⟨-, same⟩ | ⟨t', new, -, effect⟩ := ((ofBook b).run moves).move_cases m
    · exact ih (same ▸ taken)
    · rw [new] at taken
      obtain old | here := List.mem_append.mp taken
      · exact ih old
      · obtain rfl := List.mem_singleton.mp here
        exact (effect a).ne_last reserved

/-- A known nonce only grows, but for what a refetch puts in. -/
theorem le_of_move {a : String} {n : UInt64} (entry : d.book.get? a = some n) (m : Move ε) :
    ∃ next, (d.move m).book.get? a = some next ∧
      (n ≤ next ∨ ∃ i e, m = .turn i ∧ d.running[i]? = some ⟨e, .answered (.ok next)⟩ ∧
        e.asks = .refetch a) := by
  obtain same | ⟨i, e, stage, next, rfl, found, entry', changes⟩ := move_changes entry m
  · exact ⟨n, same, .inl (UInt64.le_refl n)⟩
  · refine ⟨next, entry', ?_⟩
    cases changes with
    | same => exact .inl (UInt64.le_refl n)
    | counted asks succ => exact .inl (UInt64.le_iff_toNat_le.mpr (by omega))
    | refetched asks => exact .inr ⟨i, e, rfl, found, asks⟩

/-- An address that is not in the book stays unknown as long as the source brings no nonce for it,
whatever else goes on. -/
theorem get?_run_of_refused {b : NonceBook} {a : String} (missing : b.get? a = none)
    {moves : List (Move ε)} (refused : ∀ t ∈ ((ofBook b).run moves).turns,
      t.errand.asks.address = a → ∀ n, t.before ≠ .answered (.ok n)) :
    ((ofBook b).run moves).book.get? a = none := by
  induction moves using List.reverseRecOn with
  | nil => exact missing
  | append_singleton moves m ih =>
    rw [run_append, run_cons, run_nil] at refused ⊢
    obtain ⟨book, turns⟩ | ⟨t, turns, -, effect⟩ := ((ofBook b).run moves).move_cases m
    · rw [turns] at refused
      rw [book]
      exact ih refused
    · rw [turns] at refused
      have unknown := ih fun t' mem => refused t' (List.mem_append_left _ mem)
      have own := refused t (List.mem_append_right _ List.mem_cons_self)
      exact (unknown ▸ effect a).eq_none own

end Desk

/-- Failed calls leave no trace. Made alone, a call ends in one of the listed ways: a failure leaves
the whole book as it was, and a call that cannot count on leaves the last of all nonces in its entry
and everything else alone; the transaction changes only if there is a nonce for it. Made among
others, in any interleaving: without the turns and answers of an errand that failed, the same moves
leave the same book and all others where they stood, and each of these turns leaves the book alone.
An errand that cannot count on finds the last of all nonces and leaves the book alone; no turn
touches the entry of another address. The last of all nonces is never handed out, and without a
refetch no entry ever gets smaller. -/
theorem failures_leave_no_trace {ε σ : Type} (source : σ → String → Except ε UInt64 × σ)
    (b : NonceBook) (s : σ) :
    (∀ call, b.Aftermath call (b.perform source s call).1 (b.perform source s call).2.1) ∧
    (∀ t, b.Aftermath (.reserve t.sender) (b.number source s t).1 (b.number source s t).2.2.1 ∧
      ((∀ n, (b.number source s t).1 ≠ .nonce n) → (b.number source s t).2.1 = t)) ∧
    ∀ moves : List (Move ε),
      let d := (Desk.ofBook b).run moves
      (∀ i, d.FailedAt i →
        Desk.AlikeBut i d ((Desk.ofBook b).run (moves.filter fun m => !m.isOf i)) ∧
        ∀ before after, moves = before ++ .turn i :: after →
          ((Desk.ofBook b).run (before ++ [.turn i])).book = ((Desk.ofBook b).run before).book) ∧
      (∀ i e, d.running[i]? = some ⟨e, .known⟩ → ∀ o,
        (d.move (.turn i)).running[i]? = some ⟨e, .done (.overflowed o)⟩ →
          d.book.get? e.asks.address = some NonceBook.last ∧ (d.move (.turn i)).book = d.book) ∧
      (∀ i e stage, d.running[i]? = some ⟨e, stage⟩ → ∀ c, c ≠ e.asks.address →
        (d.move (.turn i)).book.get? c = d.book.get? c) ∧
      (∀ t ∈ d.turns, ∀ a n, t.reserved? a = some n → n ≠ NonceBook.last) ∧
      ∀ m a n, d.book.get? a = some n → ∃ next, (d.move m).book.get? a = some next ∧
        (n ≤ next ∨ ∃ i e, m = .turn i ∧ d.running[i]? = some ⟨e, .answered (.ok next)⟩ ∧
          e.asks = .refetch a) := by
  refine ⟨b.aftermath_perform source s, ?_, ?_⟩
  · intro t
    refine ⟨b.aftermath_perform source s (.reserve t.sender), fun other => ?_⟩
    have assigned : (b.number source s t).2.1 = (b.number source s t).1.assign t := rfl
    rw [assigned]
    cases ended : (b.number source s t).1 with
    | nonce n => exact absurd ended (other n)
    | advanced | failed x | overflowed o => rfl
  · intro moves d
    refine ⟨?_, ?_, ?_, ?_, ?_⟩
    · intro i fails
      refine ⟨(Desk.AlikeBut.refl i _).run fails, ?_⟩
      rintro before after rfl
      have split : d = (((Desk.ofBook b).run before).move (.turn i)).run after :=
        Desk.run_append _ before (.turn i :: after)
      rw [split] at fails
      rw [Desk.run_append]
      exact Desk.book_turn_of_failedAt fails
    · intro i e known o ended
      rw [Desk.move_turn known] at ended ⊢
      rw [List.getElem?_set_self (List.getElem?_eq_some_iff.mp known).1] at ended
      have used : (d.book.use (ε := ε) e.asks).1 = .overflowed o := by
        simpa [NonceBook.step] using ended
      exact NonceBook.use_of_overflowed used
    · intro i e stage found c other
      rw [Desk.move_turn found]
      exact NonceBook.get?_step_of_ne other d.book stage
    · intro t taken a n reserved
      exact Desk.reserved_ne_last taken reserved
    · intro m a n entry
      exact Desk.le_of_move entry m

end ObserverRelay.Chain
