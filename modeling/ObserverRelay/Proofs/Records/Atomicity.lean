import ObserverRelay.Proofs.Records.Refinement
/-!
# Changes that happen as a whole or not at all

A file at the path of a keeper may hold anything. If it is read as records, a change leaves the text
of these records with the one change made to them. If not, every change fails as every query does,
and the file stays what it was; only clearing the records does not look at it.

## Main statements

* `Keeper.load_of_grants`: the records that are kept, or the one reason why there are none.
* `Keeper.save_of_grants`: what a save leaves.
* `change_whole_or_not`: what any change does to any file.
-/
namespace ObserverRelay.Records

open Files

/-- The file system lets a path be read, whether or not a file is there, and a file be put there.
It does not look at what the file holds, so an empty one stands for all. -/
structure Grants (t : Tree) (path : String) : Prop where
  reads : t.read path = .error .notFound ∨ ∃ contents, t.read path = .ok contents
  saves : (t.save path []).1 = .ok ()

namespace Keeper

variable {k : Keeper} {t : Tree}

/-- A file that is not there counts as empty records; one that is there is read as records, or it
is the reason why there are none. -/
theorem load_of_grants (granted : Grants t k.path) :
    (∃ r, k.load t = .ok r) ∨ ∃ contents fault, t.read k.path = .ok contents ∧
      parse contents = .error fault ∧
      k.load t = .error (.notRecords k.path (fault.message contents)) := by
  rcases granted.reads with absent | ⟨contents, found⟩
  · exact .inl ⟨empty, by rw [load, absent]⟩
  · cases read : parse contents with
    | ok r => exact .inl ⟨r, by simp only [load, found, read]⟩
    | error fault => exact .inr ⟨contents, fault, found, read, by simp only [load, found, read]⟩

/-- Saved records are the contents of the file as text, and they are what is loaded from it. -/
theorem save_of_grants (granted : Grants t k.path) (r : Records) :
    ∃ u, k.save t r = (.ok (), u) ∧ u.read k.path = .ok (Bytes.ofText r.text) ∧
      k.load u = .ok r := by
  have written : t.save k.path (Bytes.ofText r.text) =
      (.ok (), (t.save k.path (Bytes.ofText r.text)).2) :=
    Prod.ext ((t.fst_save k.path _ []).trans granted.saves) rfl
  have saved : k.save t r = (.ok (), (t.save k.path (Bytes.ofText r.text)).2) := by
    rw [save, written]
    rfl
  exact ⟨_, saved, Tree.read_save written, load_save saved⟩

/-- A change that has to look at the records fails as they cannot be loaded, and does nothing. -/
theorem change_of_load_eq_error {c : Change} {e : KeepError} (looks : c ≠ .clear)
    (broken : k.load t = .error e) : k.change t c = (.error e, t) := by
  cases c with
  | clear => exact absurd rfl looks
  | addCustomCurrency | addNonFungibleToken | addSemiFungibleToken | addContract
  | replaceRunTransactions => simp only [change, broken]

/-- Where the file system refuses nothing, such a change fails exactly as loading does. -/
theorem change_eq_error_iff {c : Change} {e : KeepError} (granted : Grants t k.path)
    (looks : c ≠ .clear) : (k.change t c).1 = .error e ↔ k.load t = .error e := by
  cases loaded : k.load t with
  | ok r =>
    obtain ⟨u, saved, -⟩ := save_of_grants granted (r.apply c)
    rw [change_eq_save (.inr loaded), saved]
    exact ⟨nofun, nofun⟩
  | error broken => simp only [change_of_load_eq_error looks loaded, Except.error.injEq]

/-- Either all queries fail, as loading does, or none. -/
theorem ask_eq_error_iff {e : KeepError} : (∀ q, k.ask t q = .error e) ↔ k.load t = .error e := by
  cases loaded : k.load t with
  | ok r =>
    have answered : k.ask t .runTransactions = .ok (r.answer .runTransactions) := by
      rw [ask, loaded]
      rfl
    simp only [reduceCtorEq, iff_false]
    intro failed
    rw [failed .runTransactions] at answered
    cases answered
  | error broken =>
    have failed (q : Query) : k.ask t q = .error broken := by rw [ask, loaded]; rfl
    simp only [failed, Except.error.injEq]
    exact ⟨fun h => h .runTransactions, fun h _ => h⟩

end Keeper

/-- Let a file be absent or hold any octets, and let the file system refuse nothing. Queries leave
everything as it is. A change other than clearing either leaves the text of the records that were
loaded with this one change made to them, which are those that the change tells of them, or, if the
file's octets are no records, it fails with this reason and leaves everything as it is; it fails
exactly when all queries do, and as they do. Clearing leaves the text of empty records, whatever
the file held. What a change has left is what is loaded afterwards. -/
theorem change_whole_or_not {k : Keeper} {t : Tree} (granted : Grants t k.path) :
    (∀ q, (k.perform t (.ask q)).2 = t) ∧
    (∀ c, c ≠ .clear →
      ((∃ r u, k.load t = .ok r ∧ k.change t c = (.ok (), u) ∧
          u.read k.path = .ok (Bytes.ofText (r.apply c).text) ∧ k.load u = .ok (r.apply c) ∧
          r.apply c = r.recalled [c]) ∨
        ∃ contents fault, t.read k.path = .ok contents ∧ parse contents = .error fault ∧
          k.change t c = (.error (.notRecords k.path (fault.message contents)), t)) ∧
      ∀ e, (k.change t c).1 = .error e ↔ ∀ q, k.ask t q = .error e) ∧
    ∃ u, k.change t .clear = (.ok (), u) ∧ u.read k.path = .ok (Bytes.ofText empty.text) ∧
      k.load u = .ok empty := by
  refine ⟨fun q => rfl, fun c looks => ⟨?_, fun e => ?_⟩, Keeper.save_of_grants granted empty⟩
  · rcases Keeper.load_of_grants granted with ⟨r, loaded⟩ | ⟨contents, fault, found, unread, broken⟩
    · obtain ⟨u, saved, written, reloaded⟩ := Keeper.save_of_grants granted (r.apply c)
      rw [← Keeper.change_eq_save (.inr loaded)] at saved
      exact .inl ⟨r, u, loaded, saved, written, reloaded, apply_eq_recalled r c⟩
    · have failed := Keeper.change_of_load_eq_error looks broken
      exact .inr ⟨contents, fault, found, unread, failed⟩
  · exact (Keeper.change_eq_error_iff granted looks).trans Keeper.ask_eq_error_iff.symm

/-- A file that ends in the middle of a list. -/
def brokenFile : Tree := Tree.empty.put ["m.json"] (.file (Bytes.ofText "\x7b\"contracts\": ["))

/-- A file with two of the five lists, in a layout of its own. -/
def looseFile : Tree := Tree.empty.put ["m.json"]
  (.file (Bytes.ofText "\x7b\"runTransactions\":[\"h\"], \"customCurrencies\":[\"A-1\"]\x7d"))

/-- Nothing can be added to the broken file, which stays as it is, and clearing mends it. To the
loose file a token is added that it already holds, and all else in it stays. -/
theorem change_whole_or_not_broken :
    (Grants brokenFile "m.json" ∧
    Keeper.change ⟨"m.json"⟩ brokenFile (.addCustomCurrency "A-1") =
      (.error (.notRecords "m.json" "EOF while parsing a list at line 1 column 15"), brokenFile) ∧
    ∃ u, Keeper.change ⟨"m.json"⟩ brokenFile .clear = (.ok (), u) ∧
      Keeper.load ⟨"m.json"⟩ u = .ok empty) ∧
    Grants looseFile "m.json" ∧
    ∃ u, Keeper.change ⟨"m.json"⟩ looseFile (.addCustomCurrency "A-1") = (.ok (), u) ∧
      Keeper.load ⟨"m.json"⟩ u = .ok ⟨[], ["A-1", "A-1"], [], [], ["h"]⟩ := by
  constructor
  · have granted : Grants brokenFile (Keeper.mk "m.json").path :=
      ⟨.inr ⟨_, rfl⟩, by decide +kernel⟩
    have broken : Keeper.load ⟨"m.json"⟩ brokenFile =
        .error (.notRecords "m.json" "EOF while parsing a list at line 1 column 15") := by
      decide +kernel
    obtain ⟨-, changes, u, cleared, -, loaded⟩ := change_whole_or_not granted
    refine ⟨granted, ?_, u, cleared, loaded⟩
    obtain ⟨either, fails⟩ := changes (.addCustomCurrency "A-1") nofun
    have failed := (fails _).mpr (Keeper.ask_eq_error_iff.mpr broken)
    rcases either with ⟨r, _, kept, -⟩ | ⟨contents, fault, -, -, changed⟩
    · rw [broken] at kept
      cases kept
    · rw [changed] at failed ⊢
      exact Prod.ext failed rfl
  · have granted : Grants looseFile (Keeper.mk "m.json").path :=
      ⟨.inr ⟨_, rfl⟩, by decide +kernel⟩
    have held : Keeper.load ⟨"m.json"⟩ looseFile = .ok ⟨[], ["A-1"], [], [], ["h"]⟩ := by
      decide +kernel
    obtain ⟨either, -⟩ := (change_whole_or_not granted).2.1 (.addCustomCurrency "A-1") nofun
    refine ⟨granted, ?_⟩
    rcases either with ⟨r, u, kept, changed, -, loaded, told⟩ | ⟨contents, fault, -, -, changed⟩
    · obtain rfl := Except.ok.inj (held.symm.trans kept)
      exact ⟨u, changed, loaded.trans (told ▸ rfl)⟩
    · rw [Keeper.change_eq_save (.inr held)] at changed
      cases changed

end ObserverRelay.Records
