import ObserverRelay.Proofs.Files.Saving
import ObserverRelay.Proofs.Records.History
import ObserverRelay.Proofs.Records.RoundTrip
import ObserverRelay.Records.Keeper
/-!
# Kept records are records

Keepers of one path, however many there are and in whatever order they are used, behave like
one value of records in memory, as long as the file system refuses nothing. What one of them
writes is what the next one reads, since the file holds the text of the records and nothing else
is remembered. So what each of them finds is told by the history of all their changes.

## Main statements

* `Keeper.load_save`: what was saved is loaded.
* `Keeper.perform_kept`: one operation, on files as in memory.
* `kept_refines_memory`: any run of operations, through any keepers of one path.
-/
namespace ObserverRelay.Records

open Files

namespace Keeper

variable {k : Keeper} {t u : Tree} {r : Records} {c : Change}

/-- An operation on the records that are kept. -/
def perform (k : Keeper) (t : Tree) : Operation → Except KeepError (Option Answer) × Tree
  | .change c =>
    let (result, t) := k.change t c
    (result.map fun _ => none, t)
  | .ask q => ((k.ask t q).map some, t)

/-- The results of operations made one after the other, each by a keeper, and the files after
them. -/
def performAll (t : Tree) :
    List (Keeper × Operation) → List (Except KeepError (Option Answer)) × Tree
  | [] => ([], t)
  | (k, op) :: run =>
    let (result, t) := k.perform t op
    let (results, t) := performAll t run
    (result :: results, t)

/-- The changes that a run makes, through whichever keepers. -/
def changes (run : List (Keeper × Operation)) : List Change :=
  (run.map Prod.snd).filterMap Operation.change?

/-- The file system refused something. -/
def Refused {α : Type} (result : Except KeepError α) : Prop :=
  ∃ path refusal, result = .error (.files path refusal)

/-- What a keeper finds before its first operation: no file, or the one that a change has left
that went well. -/
inductive Found (path : String) : Tree → Records → Prop
  | absent {t : Tree} (none : t.read path = .error .notFound) : Found path t ⟨[], [], [], [], []⟩
  | left {k : Keeper} {t u : Tree} {r : Records} {c : Change} (kept : k.path = path)
      (held : c = .clear ∨ k.load t = .ok r) (changed : k.change t c = (.ok (), u)) :
      Found path u (r.recalled [c])

/-- What was saved is loaded. -/
theorem load_save (saved : k.save t r = (.ok (), u)) : k.load u = .ok r := by
  simp only [save, Prod.mk.injEq] at saved
  obtain ⟨done, rfl⟩ := saved
  have written : t.save k.path (Bytes.ofText r.text) =
      (.ok (), (t.save k.path (Bytes.ofText r.text)).2) := by
    refine Prod.ext ?_ rfl
    cases h : (t.save k.path (Bytes.ofText r.text)).1 with
    | error e =>
      rw [h] at done
      cases done
    | ok x => rfl
  simp only [load, Tree.read_save written, parse_text]

/-- Records in memory are changed before they are saved. -/
theorem change_eq_save (held : c = .clear ∨ k.load t = .ok r) :
    k.change t c = k.save t (r.apply c) := by
  cases c with
  | clear => rfl
  | addCustomCurrency | addNonFungibleToken | addSemiFungibleToken | addContract
  | replaceRunTransactions =>
    have loaded := held.resolve_left nofun
    simp only [change, loaded]

theorem load_change (held : c = .clear ∨ k.load t = .ok r) (changed : k.change t c = (.ok (), u)) :
    k.load u = .ok (r.apply c) :=
  load_save (change_eq_save held ▸ changed)

/-- Nothing but the file system keeps records from being saved. -/
theorem save_of_not_refused (granted : ¬Refused (k.save t r).1) :
    k.save t r = (.ok (), (k.save t r).2) := by
  refine Prod.ext ?_ rfl
  simp only [save] at granted ⊢
  cases h : (t.save k.path (Bytes.ofText r.text)).1 with
  | error e =>
    rw [h] at granted
    exact absurd ⟨k.path, e, rfl⟩ granted
  | ok x => rfl

theorem Found.load {path : String} (found : Found path t r) : Keeper.load ⟨path⟩ t = .ok r := by
  cases found with
  | absent none => simp only [Keeper.load, none, Records.empty]
  | left kept held changed =>
    subst kept
    rw [← apply_eq_recalled]
    exact load_change held changed

/-- An operation on records that are kept gives what it gives in memory and leaves them as it
leaves them there. -/
theorem perform_kept {op : Operation} (held : k.load t = .ok r)
    (granted : ¬Refused (k.perform t op).1) :
    (k.perform t op).1 = .ok (r.perform op).1 ∧
      k.load (k.perform t op).2 = .ok (r.perform op).2 := by
  cases op with
  | change c =>
    simp only [perform, change_eq_save (c := c) (.inr held)] at granted ⊢
    have saved : k.save t (r.apply c) = (.ok (), (k.save t (r.apply c)).2) := by
      refine save_of_not_refused ?_
      rintro ⟨path, refusal, refused⟩
      exact granted ⟨path, refusal, by rw [refused]; rfl⟩
    rw [saved]
    exact ⟨rfl, load_save saved⟩
  | ask q =>
    have answered : k.ask t q = .ok (r.answer q) := by
      simp only [ask, held]
      rfl
    simp only [perform, answered]
    exact ⟨rfl, held⟩

/-- Whatever operations are made through keepers of one path, their results are those in memory,
and so are the records that are kept in the end. -/
theorem performAll_of_load {path : String} {run : List (Keeper × Operation)}
    (held : load ⟨path⟩ t = .ok r) (handles : ∀ x ∈ run, x.1.path = path)
    (granted : ∀ result ∈ (performAll t run).1, ¬Refused result) :
    (performAll t run).1 = (r.performAll (run.map Prod.snd)).1.map .ok ∧
      load ⟨path⟩ (performAll t run).2 = .ok (r.performAll (run.map Prod.snd)).2 := by
  -- The invariant is `held`: what is kept is what is in memory.
  induction run generalizing t r with
  | nil => exact ⟨rfl, held⟩
  | cons x run ih =>
    obtain ⟨k, op⟩ := x
    obtain rfl : k.path = path := handles _ List.mem_cons_self
    have here := perform_kept held (granted _ List.mem_cons_self)
    have rest := ih here.2 (fun y hy => handles y (List.mem_cons_of_mem _ hy))
      fun result h => granted result (List.mem_cons_of_mem _ h)
    simp only [performAll, Records.performAll, List.map_cons, here.1, rest.1]
    exact ⟨trivial, rest.2⟩

/-- Where a file is taken whatever file was there, no operation is refused. -/
theorem not_refused_of_takes {path : String} {holding : Bytes → Tree}
    (takes : ∀ old new, (holding old).save path new = (.ok (), holding new)) {contents : Bytes}
    (held : load ⟨path⟩ (holding contents) = .ok r) {run : List (Keeper × Operation)}
    (handles : ∀ x ∈ run, x.1.path = path) :
    ∀ result ∈ (performAll (holding contents) run).1, ¬Refused result := by
  induction run generalizing contents r with
  | nil => simp [performAll]
  | cons x run ih =>
    obtain ⟨k, op⟩ := x
    obtain rfl : k.path = path := handles _ List.mem_cons_self
    have rest := fun y hy => handles y (List.mem_cons_of_mem _ hy)
    have saved (r : Records) :
        k.save (holding contents) r = (.ok (), holding (Bytes.ofText r.text)) := by
      rw [save, takes]
      rfl
    cases op with
    | change c =>
      have done := saved (r.apply c)
      simp only [performAll, perform, change_eq_save (c := c) (.inr held), done,
        List.forall_mem_cons]
      refine ⟨?_, ih (load_save done) rest⟩
      rintro ⟨path, refusal, refused⟩
      cases refused
    | ask q =>
      simp only [performAll, perform, ask, held, List.forall_mem_cons]
      refine ⟨?_, ih held rest⟩
      rintro ⟨path, refusal, refused⟩
      cases refused

end Keeper

/-- Operations made one after the other through any keepers of one path give the results that
they give on records in memory, whatever characters the texts hold. Each of them brings what it
brings on the records that the changes before it tell, made through whichever keepers; and what
every keeper of the path finds afterwards is what all the changes tell. -/
theorem kept_refines_memory {path : String} {t : Tree} {r : Records}
    {run : List (Keeper × Operation)} (found : Keeper.Found path t r)
    (handles : ∀ x ∈ run, x.1.path = path)
    (granted : ∀ result ∈ (Keeper.performAll t run).1, ¬Keeper.Refused result) :
    (Keeper.performAll t run).1 = (r.performAll (run.map Prod.snd)).1.map .ok ∧
      (∀ i k op, run[i]? = some (k, op) → ∃ result,
        (Keeper.performAll t run).1[i]? = some (.ok result) ∧
          (r.recalled (Keeper.changes (run.take i))).Brings op result) ∧
      ∀ k : Keeper, k.path = path →
        k.load (Keeper.performAll t run).2 = .ok (r.recalled (Keeper.changes run)) ∧
          ∀ q, ∃ a, k.ask (Keeper.performAll t run).2 q = .ok a ∧
            (r.recalled (Keeper.changes run)).Gives q a := by
  obtain ⟨results, kept⟩ := Keeper.performAll_of_load found.load handles granted
  rw [performAll_snd, ← Keeper.changes] at kept
  refine ⟨results, fun i k op here => ?_, ?_⟩
  · have place : (run.map Prod.snd)[i]? = some op := by rw [List.getElem?_map, here]; rfl
    obtain ⟨result, brought, brings⟩ := brings_performAll r place
    refine ⟨result, by rw [results, List.getElem?_map, brought]; rfl, ?_⟩
    rwa [Keeper.changes, List.map_take]
  · rintro ⟨p⟩ rfl
    refine ⟨kept, fun q => ⟨_, ?_, gives_answer _ q⟩⟩
    simp only [Keeper.ask, kept]
    rfl

/-- What a first keeper leaves at a path where no file was. -/
def leftFile : Tree := (Keeper.change ⟨"m.json"⟩ .empty (.addCustomCurrency "C-0")).2

/-- What two more keepers of the path do by turns. Texts are added twice, the run's transactions
replaced twice, and what was there before is cleared; one tag holds a quote, a backslash and a
control character. -/
def turns : List (Keeper × Operation) :=
  let one : Keeper := ⟨"m.json"⟩
  let other : Keeper := ⟨"m.json"⟩
  [(one, .change (.replaceRunTransactions ["old"])), (other, .ask .customCurrencies),
    (other, .change .clear), (one, .change (.addCustomCurrency "C-1")),
    (other, .change (.addCustomCurrency "C-1")), (one, .change (.addNonFungibleToken "N-1")),
    (other, .change (.addSemiFungibleToken "S-1")),
    (one, .change (.addContract "a\"\\\x01" "erd1")), (other, .change (.addContract "b" "erd2")),
    (one, .change (.replaceRunTransactions ["h", "i"])),
    (other, .change (.replaceRunTransactions ["j"])), (one, .ask .customCurrencies),
    (other, .ask (.contracts (some "a\"\\\x01"))), (one, .ask .runTransactions)]

/-- Both keepers find what the first one left and what the other one adds. -/
theorem kept_refines_memory_two_keepers :
    (Keeper.performAll leftFile turns).1 =
      [.ok none, .ok (some (.texts ["C-0"])), .ok none, .ok none, .ok none, .ok none, .ok none,
        .ok none, .ok none, .ok none, .ok none, .ok (some (.texts ["C-1", "C-1"])),
        .ok (some (.contracts [⟨"a\"\\\x01", "erd1"⟩])), .ok (some (.texts ["j"]))] ∧
    Keeper.load ⟨"m.json"⟩ (Keeper.performAll leftFile turns).2 =
      .ok ⟨[⟨"a\"\\\x01", "erd1"⟩, ⟨"b", "erd2"⟩], ["C-1", "C-1"], ["N-1"], ["S-1"], ["j"]⟩ := by
  let holding (contents : Bytes) : Tree := Tree.empty.put ["m.json"] (.file contents)
  have takes (old new : Bytes) : (holding old).save "m.json" new = (.ok (), holding new) := rfl
  have left : leftFile = holding (Bytes.ofText (empty.apply (.addCustomCurrency "C-0")).text) := rfl
  have found : Keeper.Found "m.json" leftFile (empty.recalled [.addCustomCurrency "C-0"]) :=
    .left (k := ⟨"m.json"⟩) (t := .empty) rfl (.inr rfl) rfl
  have handles : ∀ x ∈ turns, x.1.path = "m.json" := by decide
  have granted := Keeper.not_refused_of_takes takes (left ▸ found.load) handles
  obtain ⟨results, -, kept⟩ := kept_refines_memory found handles (left ▸ granted)
  exact ⟨results.trans rfl, (kept ⟨"m.json"⟩ rfl).1⟩

end ObserverRelay.Records
