import Mathlib.Data.List.DropRight
import ObserverRelay.Records.Basic
/-!
# Records as their history tells them

What records hold follows from the changes that were made to them, without going through these
one after the other. Of the changes only those behind the last clearing count. Each of them puts
its own member to the end of one list, however often the list holds it already, and a replacement
of the run's transactions hides all replacements before it. The lists that a change is not about
are not in its history, so nothing happens to them.

## Main statements

* `foldl_apply`: changes made one after the other leave the records that their history tells.
* `gives_answer`: a question is answered by the list that it is about, the contracts under a tag
  being all those that have it, in order and as often.
-/
namespace ObserverRelay.Records

variable {r : Records}

/-! ### What a change is about -/

/-- The contract that a change adds. -/
def Change.contract? : Change → Option ContractRecord
  | addContract tag address => some ⟨tag, address⟩
  | _ => none

/-- The custom currency that a change adds. -/
def Change.customCurrency? : Change → Option String
  | addCustomCurrency identifier => some identifier
  | _ => none

/-- The non-fungible token that a change adds. -/
def Change.nonFungibleToken? : Change → Option String
  | addNonFungibleToken identifier => some identifier
  | _ => none

/-- The semi-fungible token that a change adds. -/
def Change.semiFungibleToken? : Change → Option String
  | addSemiFungibleToken identifier => some identifier
  | _ => none

/-- The transactions that a change puts in place of those of the run before. -/
def Change.replacement? : Change → Option (List String)
  | replaceRunTransactions hashes => some hashes
  | _ => none

/-! ### The history -/

/-- The changes that count: those behind the last clearing. -/
def live (cs : List Change) : List Change := cs.rtakeWhile (· ≠ .clear)

/-- What is left of a list that was there before: nothing, once it has been cleared. -/
def remaining {α : Type} (cs : List Change) (xs : List α) : List α :=
  if .clear ∈ cs then [] else xs

/-- The records that a history tells, list by list. -/
def recalled (r : Records) (cs : List Change) : Records where
  contracts := remaining cs r.contracts ++ (live cs).filterMap Change.contract?
  customCurrencies := remaining cs r.customCurrencies ++ (live cs).filterMap Change.customCurrency?
  nonFungibleTokens :=
    remaining cs r.nonFungibleTokens ++ (live cs).filterMap Change.nonFungibleToken?
  semiFungibleTokens :=
    remaining cs r.semiFungibleTokens ++ (live cs).filterMap Change.semiFungibleToken?
  runTransactions :=
    ((live cs).filterMap Change.replacement?).getLastD (remaining cs r.runTransactions)

theorem live_concat {cs : List Change} {c : Change} (counts : c ≠ .clear) :
    live (cs ++ [c]) = live cs ++ [c] :=
  List.rtakeWhile_concat_pos _ _ _ (by simpa using counts)

theorem remaining_concat {α : Type} {cs : List Change} {c : Change} (counts : c ≠ .clear)
    (xs : List α) : remaining (cs ++ [c]) xs = remaining cs xs := by
  simp only [remaining, List.mem_append, List.mem_singleton, counts.symm, or_false]

/-- Clearing leaves nothing, whatever came before. -/
theorem recalled_clear (r : Records) (cs : List Change) :
    r.recalled (cs ++ [.clear]) = ⟨[], [], [], [], []⟩ := by
  have forgotten : live (cs ++ [.clear]) = [] := List.rtakeWhile_concat_neg _ _ _ (by simp)
  simp [recalled, remaining, forgotten]

/-- One more change to what a history tells. -/
theorem recalled_concat (r : Records) (cs : List Change) (c : Change) :
    r.recalled (cs ++ [c]) = (r.recalled cs).apply c := by
  cases c with
  | clear => exact recalled_clear r cs
  | addCustomCurrency | addNonFungibleToken | addSemiFungibleToken | addContract
  | replaceRunTransactions =>
    simp [recalled, apply, live_concat, remaining_concat, Change.contract?, Change.customCurrency?,
      Change.nonFungibleToken?, Change.semiFungibleToken?, Change.replacement?]

@[simp] theorem recalled_nil (r : Records) : r.recalled [] = r := by
  simp [recalled, live, remaining]

/-- Changes made one after the other leave the records that their history tells. -/
theorem foldl_apply (r : Records) (cs : List Change) : cs.foldl apply r = r.recalled cs := by
  -- The history grows at its end, where a clearing hides what came before.
  induction cs using List.reverseRecOn with
  | nil => simp
  | append_singleton cs c ih => simp [List.foldl_append, ih, recalled_concat]

/-- One change leaves the records that it tells. -/
theorem apply_eq_recalled (r : Records) (c : Change) : r.apply c = r.recalled [c] :=
  foldl_apply r [c]

/-! ### Questions -/

/-- What a question is answered with. -/
inductive Gives (r : Records) : Query → Answer → Prop
  | contracts : Gives r (.contracts none) (.contracts r.contracts)
  | under {tag : String} {found : List ContractRecord} (ordered : found.Sublist r.contracts)
      (all : ∀ c, found.count c = if c.tag = tag then r.contracts.count c else 0) :
      Gives r (.contracts (some tag)) (.contracts found)
  | customCurrencies : Gives r .customCurrencies (.texts r.customCurrencies)
  | nonFungibleTokens : Gives r .nonFungibleTokens (.texts r.nonFungibleTokens)
  | semiFungibleTokens : Gives r .semiFungibleTokens (.texts r.semiFungibleTokens)
  | runTransactions : Gives r .runTransactions (.texts r.runTransactions)

/-- The contracts under a tag are those that have it, as often as they were added. -/
theorem count_contractsOf (r : Records) (tag : String) (c : ContractRecord) :
    (r.contractsOf (some tag)).count c = if c.tag = tag then r.contracts.count c else 0 := by
  split
  next same => exact List.count_filter (by simpa using same)
  next other =>
    rw [List.count_eq_zero, contractsOf, List.mem_filter]
    rintro ⟨-, same⟩
    exact other (by simpa using same)

theorem gives_answer (r : Records) (q : Query) : r.Gives q (r.answer q) := by
  match q with
  | .contracts none => exact .contracts
  | .contracts (some tag) => exact .under List.filter_sublist (r.count_contractsOf tag)
  | .customCurrencies => exact .customCurrencies
  | .nonFungibleTokens => exact .nonFungibleTokens
  | .semiFungibleTokens => exact .semiFungibleTokens
  | .runTransactions => exact .runTransactions

/-! ### Operations -/

/-- An operation on records. -/
inductive Operation
  | change (c : Change)
  | ask (q : Query)
  deriving DecidableEq, Repr

/-- The change that an operation makes. -/
def Operation.change? : Operation → Option Change
  | change c => some c
  | ask _ => none

/-- What an operation on records brings: a change nothing, a question its answer. -/
inductive Brings (r : Records) : Operation → Option Answer → Prop
  | change (c : Change) : Brings r (.change c) none
  | ask {q : Query} {a : Answer} (gives : r.Gives q a) : Brings r (.ask q) (some a)

/-- The records after an operation, with the answer if a question was asked. -/
def perform (r : Records) : Operation → Option Answer × Records
  | .change c => (none, r.apply c)
  | .ask q => (some (r.answer q), r)

/-- The answers to operations made one after the other, and the records after them. -/
def performAll (r : Records) : List Operation → List (Option Answer) × Records
  | [] => ([], r)
  | op :: ops =>
    let (answer, r) := r.perform op
    let (answers, r) := r.performAll ops
    (answer :: answers, r)

theorem brings_perform (r : Records) (op : Operation) : r.Brings op (r.perform op).1 := by
  cases op with
  | change c => exact .change c
  | ask q => exact .ask (r.gives_answer q)

/-- Operations leave the records that the history of their changes tells. -/
theorem performAll_snd (r : Records) (ops : List Operation) :
    (r.performAll ops).2 = r.recalled (ops.filterMap Operation.change?) := by
  rw [← foldl_apply]
  induction ops generalizing r with
  | nil => rfl
  | cons op ops ih =>
    cases op with
    | change c => exact ih (r.apply c)
    | ask q => exact ih r

/-- Each operation brings what it brings on the records that the changes before it tell. -/
theorem brings_performAll {ops : List Operation} {i : Nat} {op : Operation} (r : Records)
    (here : ops[i]? = some op) : ∃ result, (r.performAll ops).1[i]? = some result ∧
      (r.recalled ((ops.take i).filterMap Operation.change?)).Brings op result := by
  rw [← performAll_snd]
  induction ops generalizing r i with
  | nil => simp at here
  | cons first ops ih =>
    cases i with
    | zero =>
      obtain rfl : first = op := by simpa using here
      exact ⟨_, rfl, r.brings_perform first⟩
    | succ i => exact ih (r.perform first).2 (by simpa using here)

end ObserverRelay.Records
