import ObserverRelay.Chain.Transaction
import ObserverRelay.Chain.Word
/-!
# The nonce book

The next nonce of each account. The first use of an address asks a source for its nonce; from
then on the book counts by itself, and only a refetch asks again. A call that needs the source
is open while it waits, and other calls may go on meanwhile: `Stage` names the places where a
call may stand, and `NonceBook.step` takes it from one to the next.
-/
namespace ObserverRelay.Chain

/-- The next nonce of each known address. -/
structure NonceBook where
  entries : List (String × UInt64)
  deriving DecidableEq, Repr

/-- What can be asked of the book. -/
inductive NonceCall
  /-- The next nonce, which stays the next one. -/
  | read (address : String)
  /-- The next nonce for a transaction of one's own; the book counts on. -/
  | reserve (address : String)
  /-- The nonce that the source has now, in place of the counted one. -/
  | refetch (address : String)
  /-- Counting on, for an address that is known. -/
  | advance (address : String)
  deriving DecidableEq, Repr

/-- The address that a call is about. -/
def NonceCall.address : NonceCall → String
  | read a | reserve a | refetch a | advance a => a

/-- Why a call fails: the address is not in the book, or the source failed. -/
inductive NonceError (ε : Type)
  | untracked (address : String)
  | source (e : ε)
  deriving DecidableEq, Repr

/-- The wording of a failure, given that of the source's failures. -/
def NonceError.message {ε : Type} (sourceMessage : ε → String) : NonceError ε → String
  | untracked address => "no nonce tracked for " ++ address
  | source e => sourceMessage e

/-- How a call ends. -/
inductive Outcome (ε : Type)
  | nonce (n : UInt64)
  | advanced
  | failed (e : NonceError ε)
  /-- The nonce is the last of its kind, and counting on is out of the question. -/
  | overflowed (o : Overflow)
  deriving DecidableEq, Repr

/-- The transaction with the nonce that a call brought, if it did. -/
def Outcome.assign {ε : Type} (t : Transaction) : Outcome ε → Transaction
  | nonce n => { t with nonce := n }
  | _ => t

/-- Where a call stands. -/
inductive Stage (ε : Type)
  | started
  /-- The source has to be asked. -/
  | asking
  /-- The source has answered. -/
  | answered (r : Except ε UInt64)
  /-- The address is in the book. -/
  | known
  | done (o : Outcome ε)

namespace NonceBook
variable {ε σ : Type}

/-- The book of nobody. -/
def empty : NonceBook := ⟨[]⟩

/-- The next nonce of an address. -/
def get? (b : NonceBook) (address : String) : Option UInt64 := b.entries.lookup address

/-- Whether an address is in the book. -/
def tracks (b : NonceBook) (address : String) : Bool := (b.get? address).isSome

/-- The book with the next nonce of an address set. -/
def set (b : NonceBook) (address : String) (n : UInt64) : NonceBook :=
  ⟨(address, n) :: b.entries.filter (fun e => e.1 != address)⟩

/-- The book with an address put in, unless it is there already. -/
def insertNew (b : NonceBook) (address : String) (n : UInt64) : NonceBook :=
  if b.tracks address then b else b.set address n

@[simp] theorem get?_empty (a : String) : empty.get? a = none := rfl

@[simp] theorem get?_set_self (b : NonceBook) (a : String) (n : UInt64) :
    (b.set a n).get? a = some n := by
  simp [get?, set]

theorem lookup_filter_of_ne {a c : String} (h : c ≠ a) (es : List (String × UInt64)) :
    (es.filter (fun e => e.1 != a)).lookup c = es.lookup c := by
  induction es with
  | nil => rfl
  | cons e es ih =>
    obtain ⟨k, n⟩ := e
    by_cases hk : k = a
    · subst hk
      simp [List.lookup_cons, beq_eq_false_iff_ne.mpr h, ih]
    · simp [List.lookup_cons, hk, ih]

theorem get?_set_of_ne {a c : String} (h : c ≠ a) (b : NonceBook) (n : UInt64) :
    (b.set a n).get? c = b.get? c := by
  simp [get?, set, List.lookup_cons, beq_eq_false_iff_ne.mpr h, lookup_filter_of_ne h]

/-- The next nonce of an address that is known, handed out or not, and the book afterwards. -/
def count (b : NonceBook) (address : String) (handOut : Bool) : Outcome ε × NonceBook :=
  match b.get? address with
  | none => (.failed (.untracked address), b)
  | some n =>
    match Word.add n 1 with
    | .error o => (.overflowed o, b)
    | .ok next => (if handOut then .nonce n else .advanced, b.set address next)

/-- What a call does once its address is known. -/
def use (b : NonceBook) : NonceCall → Outcome ε × NonceBook
  | .read a | .refetch a =>
    match b.get? a with
    | none => (.failed (.untracked a), b)
    | some n => (.nonce n, b)
  | .reserve a => b.count a true
  | .advance a => b.count a false

/-- Whether a call has to ask the source. -/
def needsSource (b : NonceBook) : NonceCall → Bool
  | .read a | .reserve a => !b.tracks a
  | .refetch _ => true
  | .advance _ => false

/-- The book with what the source said. A first use never undoes what was counted since. -/
def absorb (b : NonceBook) (n : UInt64) : NonceCall → NonceBook
  | .refetch a => b.set a n
  | .read a | .reserve a | .advance a => b.insertNew a n

/-- The next place of a call and the book afterwards. Only the source leads on from `asking`,
and nothing from `done`. -/
def step (b : NonceBook) (call : NonceCall) : Stage ε → Stage ε × NonceBook
  | .started => (if b.needsSource call then .asking else .known, b)
  | .asking => (.asking, b)
  | .answered (.error e) => (.done (.failed (.source e)), b)
  | .answered (.ok n) =>
    match call with
    | .refetch a => (.done (.nonce n), b.set a n)
    | call => (.known, b.absorb n call)
  | .known => let (o, b) := b.use call; (.done o, b)
  | .done o => (.done o, b)

/-- What becomes of a call that the source has answered, when nothing comes between. -/
def conclude (b : NonceBook) (call : NonceCall) : Except ε UInt64 → Outcome ε × NonceBook
  | .error e => (.failed (.source e), b)
  | .ok n => (b.absorb n call).use call

/-- Makes a call. The state of the source changes with every question. -/
def perform (source : σ → String → Except ε UInt64 × σ) (b : NonceBook) (s : σ)
    (call : NonceCall) : Outcome ε × NonceBook × σ :=
  if b.needsSource call then
    let (answer, s) := source s call.address
    let (o, b) := b.conclude call answer
    (o, b, s)
  else
    let (o, b) := b.use call
    (o, b, s)

/-- Gives a transaction the next nonce of its sender. -/
def number (source : σ → String → Except ε UInt64 × σ) (b : NonceBook) (s : σ)
    (t : Transaction) : Outcome ε × Transaction × NonceBook × σ :=
  let (o, b, s) := b.perform source s (.reserve t.sender)
  (o, o.assign t, b, s)

/-- A call of several: it has ended, or it waits with the source's answer. -/
inductive Begun (ε : Type)
  | ended (o : Outcome ε)
  | waiting (call : NonceCall) (answer : Except ε UInt64)

/-- Begins calls one after the other, each as far as it goes without waiting. The first
overflow ends them all. -/
def begin (source : σ → String → Except ε UInt64 × σ) (b : NonceBook) (s : σ) :
    List NonceCall → Except Overflow (List (Begun ε)) × NonceBook × σ
  | [] => (.ok [], b, s)
  | call :: rest =>
    if b.needsSource call then
      let (answer, s) := source s call.address
      let (more, b, s) := b.begin source s rest
      (more.map (.waiting call answer :: ·), b, s)
    else
      match b.use call with
      | (.overflowed o, b) => (.error o, b, s)
      | (o, b) =>
        let (more, b, s) := b.begin source s rest
        (more.map (.ended o :: ·), b, s)

/-- Ends the calls that wait, one after the other. The first overflow ends them all. -/
def finish (b : NonceBook) : List (Begun ε) → Except Overflow (List (Outcome ε)) × NonceBook
  | [] => (.ok [], b)
  | .ended o :: rest =>
    let (more, b) := b.finish rest
    (more.map (o :: ·), b)
  | .waiting call answer :: rest =>
    match b.conclude call answer with
    | (.overflowed o, b) => (.error o, b)
    | (o, b) =>
      let (more, b) := b.finish rest
      (more.map (o :: ·), b)

/-- Makes calls at the same time: all of them begin before the first one goes on. -/
def performTogether (source : σ → String → Except ε UInt64 × σ) (b : NonceBook) (s : σ)
    (calls : List NonceCall) : Except Overflow (List (Outcome ε)) × NonceBook × σ :=
  match b.begin source s calls with
  | (.error o, b, s) => (.error o, b, s)
  | (.ok begun, b, s) =>
    let (outcomes, b) := b.finish begun
    (outcomes, b, s)

end NonceBook

end ObserverRelay.Chain
