import ObserverRelay.Proofs.Nonce.Interleaving
/-!
# Addresses keep out of each other's way

Errands come one after the other, for any addresses, and between them the nonces that the source
knows may change. As long as the source answers for an address by what happened to this address
alone, whoever looks at one address sees a run in which the others do not occur.

## Main statements

* `NonceBook.local_conclude`: a call lives on the entry of its address.
* `Session.run_alone`: what a run shows of an address is the run of the steps on this address.
-/
namespace ObserverRelay.Chain

/-- What happens to an address at the source. -/
inductive Event (κ : Type)
  /-- Somebody asks for its nonce. -/
  | fetched
  /-- Something changes that the answers may depend on. -/
  | changed (k : κ)
  deriving DecidableEq

/-- What happened at the source, the latest event last. -/
abbrev History (κ : Type) := List (String × Event κ)

/-- What happened to one address. -/
def History.about {κ : Type} (a : String) (past : History κ) : List (Event κ) :=
  (past.filter (·.1 = a)).map Prod.snd

/-- One of the things that happen one after the other. -/
inductive Step (κ : Type)
  | errand (e : Errand)
  | change (a : String) (k : κ)

/-- What a step shows: how the call ended, and the transaction as it is afterwards. -/
inductive Shown (ε : Type)
  | call (o : Outcome ε)
  | number (o : Outcome ε) (t : Transaction)
  | change
  deriving DecidableEq

/-- The book and the past of its source. -/
structure Session (κ : Type) where
  book : NonceBook
  past : History κ

namespace Step
variable {κ : Type}

/-- The address that a step is about. -/
def address : Step κ → String
  | errand e => e.asks.address
  | change a _ => a

/-- What a step brings to the source: a refetch always asks, and a first use does. -/
def events (b : NonceBook) : Step κ → History κ
  | errand e =>
    match e.asks with
    | .refetch a => [(a, .fetched)]
    | .read a | .reserve a => if b.get? a = none then [(a, .fetched)] else []
    | .advance _ => []
  | change a k => [(a, .changed k)]

theorem events_congr {b b' : NonceBook} {x : Step κ}
    (same : b.get? x.address = b'.get? x.address) : x.events b = x.events b' := by
  cases x with
  | change a k => rfl
  | errand e =>
    rw [address] at same
    cases asks : e.asks with
    | refetch a | advance a => simp only [events, asks]
    | read a | reserve a =>
      rw [asks, NonceCall.address] at same
      simp only [events, asks, same]

end Step

namespace History
variable {κ : Type} {a : String}

theorem about_append (past more : History κ) :
    (past ++ more).about a = past.about a ++ more.about a := by
  simp [about]

theorem about_events_of_ne {x : Step κ} (other : x.address ≠ a) (b : NonceBook) :
    (x.events b).about a = [] := by
  cases x with
  | change c k => simpa [about, Step.events, Step.address] using other
  | errand e =>
    rw [Step.address] at other
    cases asks : e.asks with
    | refetch c => simpa [about, Step.events, NonceCall.address, asks] using other
    | read c | reserve c =>
      rw [asks, NonceCall.address] at other
      simp only [Step.events, asks]
      split <;> simp [about, other]
    | advance c => simp [about, Step.events, asks]

end History

namespace NonceBook
variable {ε σ α : Type}

/-- What is done to a book lives on the entry of one address: it takes no other entry into account
and leaves the others alone. -/
structure LocalAt (a : String) (f : NonceBook → α × NonceBook) : Prop where
  result : ∀ {b b' : NonceBook}, b.get? a = b'.get? a → (f b).1 = (f b').1
  entry : ∀ {b b' : NonceBook}, b.get? a = b'.get? a → (f b).2.get? a = (f b').2.get? a
  frame : ∀ (b : NonceBook) {c : String}, c ≠ a → (f b).2.get? c = b.get? c

theorem local_count (a : String) (handOut : Bool) : LocalAt a (count (ε := ε) · a handOut) where
  result same := by
    simp only [count, same]
    split
    · rfl
    · split <;> rfl
  entry same := by
    simp only [count, same]
    split
    · exact same
    · split
      · exact same
      · simp
  frame b c other := by
    obtain ⟨-, kept⟩ | ⟨_, _, -, -, kept⟩ | ⟨_, _, -, -, counted⟩ :=
      b.count_cases (ε := ε) a handOut
    · rw [kept]
    · rw [kept]
    · rw [counted, get?_set_of_ne other]

theorem local_use (call : NonceCall) : LocalAt call.address (use (ε := ε) · call) := by
  cases call with
  | reserve a => exact local_count a true
  | advance a => exact local_count a false
  | read a | refetch a =>
    refine ⟨fun same => ?_, fun same => ?_, fun b c _ => ?_⟩
    · simp only [use, NonceCall.address] at same ⊢
      rw [same]
      split <;> rfl
    · simp only [use, NonceCall.address] at same ⊢
      split <;> split <;> exact same
    · simp only [use]
      split <;> rfl

theorem get?_absorb_congr {b b' : NonceBook} {call : NonceCall}
    (same : b.get? call.address = b'.get? call.address) (n : UInt64) :
    (b.absorb n call).get? call.address = (b'.absorb n call).get? call.address := by
  cases call with
  | refetch a => simp [absorb, NonceCall.address]
  | read a | reserve a | advance a =>
    simp only [absorb, NonceCall.address, get?_insertNew] at same ⊢
    rw [same]

theorem get?_absorb_of_ne {call : NonceCall} {c : String} (other : c ≠ call.address) (b : NonceBook)
    (n : UInt64) : (b.absorb n call).get? c = b.get? c := by
  cases call with
  | refetch a => exact get?_set_of_ne other b n
  | read a | reserve a | advance a =>
    rw [absorb, get?_insertNew, if_neg fun h => other h.1]

/-- Whatever the source has answered, the call goes on with the entry of its address. -/
theorem local_conclude (call : NonceCall) (answer : Except ε UInt64) :
    LocalAt call.address (conclude · call answer) := by
  cases answer with
  | error e => exact ⟨fun _ => rfl, id, fun _ _ _ => rfl⟩
  | ok n =>
    have used := local_use (ε := ε) call
    exact ⟨fun same => used.result (get?_absorb_congr same n),
      fun same => used.entry (get?_absorb_congr same n),
      fun b c other => (used.frame _ other).trans (get?_absorb_of_ne other b n)⟩

theorem needsSource_congr {b b' : NonceBook} {call : NonceCall}
    (same : b.get? call.address = b'.get? call.address) :
    b.needsSource call = b'.needsSource call := by
  cases call with
  | read a | reserve a =>
    rw [NonceCall.address] at same
    simp only [needsSource, tracks, same]
  | refetch a | advance a => rfl

variable {source : σ → String → Except ε UInt64 × σ}

/-- A call made alone depends on the entry of its address and on what the source says of it. -/
theorem perform_congr {b b' : NonceBook} {s s' : σ} {call : NonceCall}
    (same : b.get? call.address = b'.get? call.address)
    (answer : (source s call.address).1 = (source s' call.address).1) :
    (b.perform source s call).1 = (b'.perform source s' call).1 ∧
      (b.perform source s call).2.1.get? call.address =
        (b'.perform source s' call).2.1.get? call.address := by
  have asks := needsSource_congr same
  simp only [perform]
  rw [← asks]
  split
  · rw [answer]
    have concluded := local_conclude call (source s' call.address).1
    exact ⟨concluded.result same, concluded.entry same⟩
  · exact ⟨(local_use call).result same, (local_use call).entry same⟩

theorem get?_perform_of_ne {call : NonceCall} {c : String} (other : c ≠ call.address)
    (b : NonceBook) (s : σ) : (b.perform source s call).2.1.get? c = b.get? c := by
  simp only [perform]
  split
  · exact (local_conclude call _).frame b other
  · exact (local_use (ε := ε) call).frame b other

/-- The source goes on when it is asked, and only then. -/
theorem source_perform (b : NonceBook) (s : σ) (call : NonceCall) :
    (b.perform source s call).2.2 =
      if b.needsSource call then (source s call.address).2 else s := by
  simp only [perform]
  split <;> rfl

end NonceBook

namespace Session
variable {ε κ : Type}

/-- A source that answers for an address by what happened to this address. -/
def ask (answers : String → List (Event κ) → Except ε UInt64) (past : History κ) (a : String) :
    Except ε UInt64 × History κ :=
  (answers a (past.about a), past ++ [(a, .fetched)])

variable (answers : String → List (Event κ) → Except ε UInt64)

/-- What a step shows, and the session after it. -/
def take (s : Session κ) : Step κ → Shown ε × Session κ
  | .errand (.call c) =>
    let (o, book, past) := s.book.perform (ask answers) s.past c
    (.call o, ⟨book, past⟩)
  | .errand (.number t) =>
    let (o, t, book, past) := s.book.number (ask answers) s.past t
    (.number o t, ⟨book, past⟩)
  | .change a k => (.change, { s with past := s.past ++ [(a, .changed k)] })

/-- All steps with what they show, and the session in the end. An errand that fails or overflows
does not keep the next one from coming. -/
def run (s : Session κ) : List (Step κ) → List (Step κ × Shown ε) × Session κ
  | [] => ([], s)
  | x :: xs =>
    let (shown, s) := s.take answers x
    let (log, s) := run s xs
    ((x, shown) :: log, s)

/-- Two sessions are alike for an address. -/
structure Agrees (a : String) (s s' : Session κ) : Prop where
  entry : s.book.get? a = s'.book.get? a
  past : s.past.about a = s'.past.about a

namespace Agrees
variable {a : String} {s s' s'' : Session κ}

theorem refl (a : String) (s : Session κ) : Agrees a s s := ⟨rfl, rfl⟩

theorem trans (h : Agrees a s s') (h' : Agrees a s' s'') : Agrees a s s'' :=
  ⟨h.entry.trans h'.entry, h.past.trans h'.past⟩

end Agrees

/-- A call ends the same way in two sessions that are alike for its address. -/
theorem Agrees.perform {s s' : Session κ} {call : NonceCall} (agrees : Agrees call.address s s') :
    (s.book.perform (ask answers) s.past call).1 = (s'.book.perform (ask answers) s'.past call).1 ∧
      (s.book.perform (ask answers) s.past call).2.1.get? call.address =
        (s'.book.perform (ask answers) s'.past call).2.1.get? call.address :=
  NonceBook.perform_congr agrees.entry (congrArg (answers call.address) agrees.past)

theorem book_errand (s : Session κ) (e : Errand) :
    (s.take answers (.errand e)).2.book =
      (s.book.perform (ask answers) s.past e.asks).2.1 := by
  cases e <;> rfl

/-- What a step brings to the source stands at the end of its past. -/
theorem past_take (s : Session κ) (x : Step κ) :
    (s.take answers x).2.past = s.past ++ x.events s.book := by
  cases x with
  | change a k => rfl
  | errand e =>
    have went : (s.take answers (.errand e)).2.past =
        (s.book.perform (ask answers) s.past e.asks).2.2 := by
      cases e <;> rfl
    rw [went, NonceBook.source_perform]
    cases asks : e.asks with
    | refetch a => simp [NonceBook.needsSource, Step.events, asks, ask, NonceCall.address]
    | advance a => simp [NonceBook.needsSource, Step.events, asks]
    | read a | reserve a =>
      cases entry : s.book.get? a <;>
        simp [NonceBook.needsSource, NonceBook.tracks, Step.events, asks, ask, NonceCall.address,
          entry]

/-- A step on an address shows the same in two sessions that are alike for it. -/
theorem shown_take {s s' : Session κ} {x : Step κ} (agrees : Agrees x.address s s') :
    (s.take answers x).1 = (s'.take answers x).1 := by
  cases x with
  | change a k => rfl
  | errand e =>
    have ended := (agrees.perform answers).1
    cases e with
    | call c => exact congrArg Shown.call ended
    | number t => exact congrArg (fun o => Shown.number o (o.assign t)) ended

/-- A step on an address keeps two sessions alike for it. -/
theorem Agrees.take {s s' : Session κ} {x : Step κ} (agrees : Agrees x.address s s') :
    Agrees x.address (s.take answers x).2 (s'.take answers x).2 := by
  refine ⟨?_, ?_⟩
  · cases x with
    | change a k => exact agrees.entry
    | errand e =>
      rw [book_errand, book_errand]
      exact (agrees.perform answers).2
  · rw [past_take, past_take, History.about_append, History.about_append, agrees.past,
      Step.events_congr agrees.entry]

/-- A step on another address leaves everything about an address alone. -/
theorem agrees_take_of_ne {a : String} {x : Step κ} (other : x.address ≠ a) (s : Session κ) :
    Agrees a (s.take answers x).2 s := by
  refine ⟨?_, ?_⟩
  · cases x with
    | change c k => rfl
    | errand e =>
      rw [book_errand]
      exact NonceBook.get?_perform_of_ne (Ne.symm other) s.book s.past
  · rw [past_take, History.about_append, History.about_events_of_ne other, List.append_nil]

theorem run_append (s : Session κ) (xs ys : List (Step κ)) :
    (s.run answers (xs ++ ys)).2 = ((s.run answers xs).2.run answers ys).2 := by
  induction xs generalizing s with
  | nil => rfl
  | cons x xs ih => exact ih (s.take answers x).2

/-- The steps on an address show the same, and leave the same of it, whether or not the other
steps are taken. -/
theorem Agrees.run {a : String} {s s' : Session κ} (agrees : Agrees a s s') (steps : List (Step κ)) :
    (s.run answers steps).1.filter (·.1.address = a) =
        (s'.run answers (steps.filter (·.address = a))).1 ∧
      Agrees a (s.run answers steps).2 (s'.run answers (steps.filter (·.address = a))).2 := by
  induction steps generalizing s s' with
  | nil => exact ⟨rfl, agrees⟩
  | cons x steps ih =>
    by_cases own : x.address = a
    · subst own
      obtain ⟨logs, agree⟩ := ih (agrees.take answers)
      refine ⟨?_, by simpa [Session.run] using agree⟩
      simpa [Session.run, shown_take answers agrees] using logs
    · obtain ⟨logs, agree⟩ := ih ((agrees_take_of_ne answers own s).trans agrees)
      exact ⟨by simpa [Session.run, own] using logs, by simpa [Session.run, own] using agree⟩

/-- Addresses do not interfere. Of a run of any steps, what the steps on one address show, the
transactions that they leave behind included, the nonce of the address in the end and what the
source saw of it are those of the run that takes the steps on this address alone. The source is
asked for the address of a refetch, and for that of a first use, and never else. -/
theorem run_alone (answers : String → List (Event κ) → Except ε UInt64) (s : Session κ)
    (steps : List (Step κ)) (a : String) :
    let whole := s.run answers steps
    let alone := s.run answers (steps.filter (·.address = a))
    whole.1.filter (·.1.address = a) = alone.1 ∧
    whole.2.book.get? a = alone.2.book.get? a ∧
    whole.2.past.about a = alone.2.past.about a ∧
    ∀ x, (s.run answers (steps ++ [x])).2.past = whole.2.past ++ x.events whole.2.book := by
  intro whole alone
  obtain ⟨logs, agrees⟩ := (Agrees.refl a s).run answers steps
  refine ⟨logs, agrees.entry, agrees.past, fun x => ?_⟩
  rw [run_append]
  exact past_take answers whole.2 x

/-- For each address the source fails at first. Asked again, it knows the last of all nonces, until
somebody tells it another one. -/
def moody (_ : String) (past : List (Event UInt64)) : Except Unit UInt64 :=
  match past.getLast? with
  | none => .error ()
  | some .fetched => .ok 0xFFFFFFFFFFFFFFFF
  | some (.changed n) => .ok n

example :
    let log := ((⟨.empty, []⟩ : Session UInt64).run moody
      [.errand (.call (.reserve "a")), .change "b" 5, .errand (.call (.reserve "b")),
        .errand (.call (.reserve "a")), .errand (.call (.advance "b")), .change "a" 7,
        .errand (.call (.read "a")), .errand (.call (.refetch "a")),
        .errand (.call (.reserve "a"))]).1
    (log.filter (·.1.address = "a")).map Prod.snd =
      [.call (.failed (.source ())), .call (.overflowed .add), .change,
        .call (.nonce 0xFFFFFFFFFFFFFFFF), .call (.nonce 7), .call (.nonce 7)] := by
  decide +kernel

end Session

end ObserverRelay.Chain
