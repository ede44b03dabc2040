import ObserverRelay.Proofs.Json.Acceptance
import ObserverRelay.Proofs.Json.Compact
import ObserverRelay.Proofs.Records.Atomicity
import ObserverRelay.Proofs.Records.Canonical
/-!
# Records are read by their meaning

A file that holds records may have been written by hand: with its members in any order, with other
members among them, with any white space and any escapes. Nothing of this reaches the records. Two
files whose five lists are the same documents give the same answers, and a change made to both
leaves the same octets, those of the records' one form.

## Main statements

* `written_of_parse`: the records that are read from a text, by its document.
* `Written.unique`: the same five lists are the same records.
* `read_by_meaning`: two files that differ in their writing only.
-/
namespace ObserverRelay

open Json Bytes

namespace Json.Document

/-- The member of a record that is written as an object, or as a list with its members by place. -/
def part (name : String) (place : Nat) : LooseDocument → Option LooseDocument
  | .object ms => ms.lookup (some name)
  | .array ds => ds[place]?
  | _ => none

end Json.Document

/-- The names of the loop's members among those of the document. -/
theorem Json.lookup_map_some {β : Type} (name : String) (ms : List (String × β)) :
    (ms.map (Prod.map some id)).lookup (some name) = ms.lookup name := by
  induction ms with
  | nil => rfl
  | cons m ms ih =>
    obtain ⟨k, x⟩ := m
    simp [List.lookup_cons, ih]

namespace ContractRecord

/-- The document says tag and address of a contract. -/
structure Written (doc : LooseDocument) (c : ContractRecord) : Prop where
  tag : doc.part "tag" 0 = some (.string (some c.tag))
  address : doc.part "address" 1 = some (.string (some c.address))

/-- What a member makes of the draft of a contract. -/
def Part (name : String) (state : Option String × Option String) (doc : LooseDocument)
    (next : Option String × Option String) : Prop :=
  ∃ x, doc = .string (some x) ∧
    (if name = "tag" then some x else state.1, if name = "address" then some x else state.2) = next

theorem eq_of_finish {d : Option String × Option String} {c : ContractRecord}
    (finished : (do
      let tag ← Decoder.need "tag" d.1
      let address ← Decoder.need "address" d.2
      return (⟨tag, address⟩ : ContractRecord)) = .ok c) : d = (some c.tag, some c.address) := by
  obtain ⟨_ | x, _ | y⟩ := d
  · cases finished
  · cases finished
  · cases finished
  · cases finished
    rfl

theorem exists_reads (depth : Nat) : ∃ R : LooseDocument → ContractRecord → Prop,
    decoder.Reads (depth + 1) R ∧ ∀ doc c, R doc c → Written doc c := by
  refine ⟨_, Decoder.reads_record (P := Part) ?_, ?_⟩
  · have tag := (Decoder.reads_string depth).slot "tag" true
      (Prod.fst : Option String × Option String → _) (fun s d => (some s, d.2))
    have address := (Decoder.reads_string depth).slot "address" true
      (Prod.snd : Option String × Option String → _) (fun s d => (d.1, some s))
    simp only [List.forall_mem_cons]
    exact ⟨tag, address, List.forall_mem_nil _⟩
  · rintro doc c yields
    cases yields with
    | @names ms last _ steps finished =>
      obtain rfl : last = (some c.tag, some c.address) := eq_of_finish finished
      obtain ⟨-, none⟩ | ⟨doc, tag, atTag, rfl, same⟩ :=
        Decoder.Shape.lookup_of_steps "tag" Prod.fst (fun doc x => doc = .string (some x)) steps rfl
          (fun _ => rfl) rfl (by rintro _ _ _ ⟨x, rfl, rfl⟩; exact ⟨x, rfl, rfl⟩)
          (by rintro _ _ ne _ _ _ ⟨x, rfl, rfl⟩; exact if_neg ne)
      · cases none
      obtain ⟨-, none⟩ | ⟨doc, address, atAddress, rfl, same'⟩ :=
        Decoder.Shape.lookup_of_steps "address" Prod.snd (fun doc x => doc = .string (some x)) steps
          rfl (fun _ => rfl) rfl (by rintro _ _ _ ⟨x, rfl, rfl⟩; exact ⟨x, rfl, rfl⟩)
          (by rintro _ _ ne _ _ _ ⟨x, rfl, rfl⟩; exact if_neg ne)
      · cases none
      rw [← Option.some.inj same] at atTag
      rw [← Option.some.inj same'] at atAddress
      exact ⟨(lookup_map_some "tag" ms).trans atTag, (lookup_map_some "address" ms).trans atAddress⟩
    | places places finished =>
      cases places with
      | done free => cases free _ List.mem_cons_self
      | more tag places =>
        cases places with
        | done free => cases free _ List.mem_cons_self
        | more address places =>
          cases places with
          | done =>
            obtain ⟨x, rfl, rfl⟩ := tag
            obtain ⟨y, rfl, rfl⟩ := address
            have same := eq_of_finish finished
            have tag : some x = some c.tag := congrArg Prod.fst same
            have address : some y = some c.address := congrArg Prod.snd same
            exact ⟨by rw [← tag]; rfl, by rw [← address]; rfl⟩

theorem Written.unique {d e : LooseDocument} {c c' : ContractRecord}
    (written : Written d c) (written' : Written e c') (tag : d.part "tag" 0 = e.part "tag" 0)
    (address : d.part "address" 1 = e.part "address" 1) : c = c' := by
  rw [written.tag, written'.tag] at tag
  rw [written.address, written'.address] at address
  obtain ⟨x, y⟩ := c
  obtain ⟨x', y'⟩ := c'
  obtain rfl : x = x' := by simpa using tag
  obtain rfl : y = y' := by simpa using address
  rfl

end ContractRecord

namespace Records

/-- The list in a member; one that is missing counts as empty. -/
def listed (name : String) (ms : List (Option String × LooseDocument)) : LooseDocument :=
  (ms.lookup (some name)).getD (.array [])

/-- The document is a list of the texts. -/
def AreTexts (doc : LooseDocument) (xs : List String) : Prop :=
  ∃ ds, doc = .array ds ∧ List.Forall₂ (fun d x => d = Document.string (some x)) ds xs

/-- The document is a list of the contracts. -/
def AreContracts (doc : LooseDocument) (cs : List ContractRecord) : Prop :=
  ∃ ds, doc = .array ds ∧ List.Forall₂ ContractRecord.Written ds cs

/-- The members of an object hold the five lists. -/
structure Written (ms : List (Option String × LooseDocument)) (r : Records) : Prop where
  contracts : AreContracts (listed "contracts" ms) r.contracts
  customCurrencies : AreTexts (listed "customCurrencies" ms) r.customCurrencies
  nonFungibleTokens : AreTexts (listed "nonFungibleTokens" ms) r.nonFungibleTokens
  semiFungibleTokens : AreTexts (listed "semiFungibleTokens" ms) r.semiFungibleTokens
  runTransactions : AreTexts (listed "runTransactions" ms) r.runTransactions

/-- The draft with one of its lists of texts set. -/
def Draft.setTexts (d : Draft) (name : String) (xs : List String) : Draft where
  contracts := d.contracts
  customCurrencies := if name = "customCurrencies" then some xs else d.customCurrencies
  nonFungibleTokens := if name = "nonFungibleTokens" then some xs else d.nonFungibleTokens
  semiFungibleTokens := if name = "semiFungibleTokens" then some xs else d.semiFungibleTokens
  runTransactions := if name = "runTransactions" then some xs else d.runTransactions

/-- What a member makes of a draft, given which documents are read as contracts. -/
def Part (C : LooseDocument → List ContractRecord → Prop) (name : String) (state : Draft)
    (doc : LooseDocument) (next : Draft) : Prop :=
  if name = "contracts" then ∃ cs, C doc cs ∧ { state with contracts := some cs } = next
  else ∃ xs, AreTexts doc xs ∧ state.setTexts name xs = next

theorem areTexts_nil : AreTexts (.array []) [] := ⟨[], rfl, .nil⟩

section Steps
variable {shape : Decoder.Shape Draft Records} {C : LooseDocument → List ContractRecord → Prop}
  {ms : List (String × LooseDocument)} {last : Draft} {slot : Decoder.Slot Draft}
  (steps : Steps (shape.Admits (Part C)) shape.empty ms last)
include steps

/-- A list of texts is the one in the member of its name. -/
theorem areTexts_of_steps {name : String} (get : Draft → Option (List String))
    (known : shape.slot? name = some slot) (filled : ∀ d, slot.filled d = (get d).isSome)
    (empty : get shape.empty = none) (noContracts : name ≠ "contracts")
    (own : ∀ (d : Draft) xs, get (d.setTexts name xs) = some xs)
    (other : ∀ (d : Draft) other xs, other ≠ name → get (d.setTexts other xs) = get d)
    (apart : ∀ (d : Draft) cs, get { d with contracts := cs } = get d) :
    AreTexts (listed name (ms.map (Prod.map some id))) ((get last).getD []) := by
  have placed := Decoder.Shape.lookup_of_steps name get AreTexts steps known filled empty
    (fun d doc next part => by
      rw [Part, if_neg noContracts] at part
      obtain ⟨xs, texts, rfl⟩ := part
      exact ⟨xs, texts, own d xs⟩)
    (fun slot' _ ne d doc next part => by
      rw [Part] at part
      split at part
      next =>
        obtain ⟨cs, -, rfl⟩ := part
        exact apart d _
      next =>
        obtain ⟨xs, -, rfl⟩ := part
        exact other d _ xs ne)
  rw [listed, lookup_map_some]
  obtain ⟨missing, none⟩ | ⟨doc, xs, there, texts, some⟩ := placed
  · rw [missing, none]
    exact areTexts_nil
  · rw [there, some]
    exact texts

/-- The contracts are those in the member of their name. -/
theorem contracts_of_steps (known : shape.slot? "contracts" = some slot)
    (filled : ∀ d, slot.filled d = d.contracts.isSome) (empty : shape.empty.contracts = none) :
    (ms.lookup "contracts" = none ∧ last.contracts = none) ∨
      ∃ doc cs, ms.lookup "contracts" = some doc ∧ C doc cs ∧ last.contracts = some cs :=
  Decoder.Shape.lookup_of_steps "contracts" Draft.contracts C steps known filled empty
    (fun d doc next part => by
      rw [Part, if_pos rfl] at part
      obtain ⟨cs, contracts, rfl⟩ := part
      exact ⟨cs, contracts, rfl⟩)
    (fun slot' _ ne d doc next part => by
      rw [Part, if_neg ne] at part
      obtain ⟨xs, -, rfl⟩ := part
      rfl)

end Steps

/-- Of an object the five lists are read, and nothing else. -/
theorem exists_reads (depth : Nat) :
    ∃ R : LooseDocument → Records → Prop, decoder.Reads (depth + 3) R ∧
      ∀ ms r, R (.object ms) r → Written ms r := by
  obtain ⟨C, contract, written⟩ := ContractRecord.exists_reads depth
  have contracts := contract.list
  refine ⟨_, Decoder.reads_record (P := Part _) (List.forall_mem_cons.mpr
    ⟨contracts.slot "contracts" _ _ _, ?_⟩), ?_⟩
  · have texts : textsDecoder.Reads (depth + 2) AreTexts := (Decoder.reads_string (depth + 1)).list
    simp only [List.forall_mem_cons]
    exact ⟨texts.slot "customCurrencies" _ _ _, texts.slot "nonFungibleTokens" _ _ _,
      texts.slot "semiFungibleTokens" _ _ _, texts.slot "runTransactions" _ _ _,
      List.forall_mem_nil _⟩
  · rintro ms r yields
    generalize whole : Document.object ms = doc at yields
    cases yields with
    | places => cases whole
    | @names ms' last _ steps finished =>
      obtain rfl := Document.object.inj whole
      obtain rfl : last.finish = r := Except.ok.inj finished
      refine ⟨?_, ?_, ?_, ?_, ?_⟩
      · rw [listed, lookup_map_some]
        obtain ⟨missing, none⟩ | ⟨doc, cs, there, ⟨ds, rfl, each⟩, some⟩ :=
          contracts_of_steps steps rfl (fun _ => rfl) rfl
        · rw [missing, Draft.finish, none]
          exact ⟨[], rfl, .nil⟩
        · rw [there, Draft.finish, some]
          exact ⟨ds, rfl, each.imp written⟩
      · exact areTexts_of_steps steps Draft.customCurrencies rfl (fun _ => rfl) rfl (by decide)
          (fun _ _ => rfl) (fun _ _ _ ne => if_neg ne) fun _ _ => rfl
      · exact areTexts_of_steps steps Draft.nonFungibleTokens rfl (fun _ => rfl) rfl (by decide)
          (fun _ _ => rfl) (fun _ _ _ ne => if_neg ne) fun _ _ => rfl
      · exact areTexts_of_steps steps Draft.semiFungibleTokens rfl (fun _ => rfl) rfl (by decide)
          (fun _ _ => rfl) (fun _ _ _ ne => if_neg ne) fun _ _ => rfl
      · exact areTexts_of_steps steps Draft.runTransactions rfl (fun _ => rfl) rfl (by decide)
          (fun _ _ => rfl) (fun _ _ _ ne => if_neg ne) fun _ _ => rfl

/-- The records that are read from an object are those of its document. -/
theorem written_of_parse {s : Bytes} {ms : List (Option String × LooseDocument)} {r : Records}
    (spelled : Spells LooseAt s (.object ms)) (read : parse s = .ok r) : Written ms r := by
  obtain ⟨R, reads, written⟩ := exists_reads 124
  exact written ms r ((reads.parse_iff_of_spells spelled).mp read)

/-! ## Files with the same lists -/

/-- The five lists of two objects are the same documents, one that is missing being an empty list.
Of a contract tag and address count. -/
structure SameLists (ms ns : List (Option String × LooseDocument)) : Prop where
  contracts : ∃ ds es, listed "contracts" ms = .array ds ∧ listed "contracts" ns = .array es ∧
    List.Forall₂ (fun d e => d.part "tag" 0 = e.part "tag" 0 ∧
      d.part "address" 1 = e.part "address" 1) ds es
  texts : ∀ name ∈ ["customCurrencies", "nonFungibleTokens", "semiFungibleTokens",
    "runTransactions"], listed name ms = listed name ns

theorem AreTexts.unique {doc : LooseDocument} {xs ys : List String} (texts : AreTexts doc xs)
    (texts' : AreTexts doc ys) : xs = ys := by
  obtain ⟨ds, rfl, each⟩ := texts
  obtain ⟨es, same, each'⟩ := texts'
  obtain rfl := Document.array.inj same
  induction each generalizing ys with
  | nil =>
    cases each'
    rfl
  | cons here _ ih =>
    cases each' with
    | cons here' more' =>
      obtain rfl := Option.some.inj (Document.string.inj (here.symm.trans here'))
      rw [ih rfl more']

theorem contracts_unique {ds es : List LooseDocument} {cs cs' : List ContractRecord}
    (same : List.Forall₂ (fun d e => d.part "tag" 0 = e.part "tag" 0 ∧
      d.part "address" 1 = e.part "address" 1) ds es)
    (each : List.Forall₂ ContractRecord.Written ds cs)
    (each' : List.Forall₂ ContractRecord.Written es cs') : cs = cs' := by
  induction same generalizing cs cs' with
  | nil =>
    cases each
    cases each'
    rfl
  | cons parts _ ih =>
    cases each with
    | cons here more =>
      cases each' with
      | cons here' more' => rw [here.unique here' parts.1 parts.2, ih more more']

/-- The same five lists are the same records. -/
theorem Written.unique {ms ns : List (Option String × LooseDocument)} {r r' : Records}
    (written : Written ms r) (written' : Written ns r') (same : SameLists ms ns) : r = r' := by
  have contracts : r.contracts = r'.contracts := by
    obtain ⟨ds, es, atContracts, atContracts', parts⟩ := same.contracts
    obtain ⟨ds', list, each⟩ := written.contracts
    obtain ⟨es', list', each'⟩ := written'.contracts
    obtain rfl := Document.array.inj (atContracts.symm.trans list)
    obtain rfl := Document.array.inj (atContracts'.symm.trans list')
    exact contracts_unique parts each each'
  have texts (name : String) (mem) {xs ys : List String} (here : AreTexts (listed name ms) xs)
      (here' : AreTexts (listed name ns) ys) : xs = ys :=
    AreTexts.unique here (by rwa [same.texts name mem])
  obtain ⟨cs, a, b, c, d⟩ := r
  obtain ⟨cs', a', b', c', d'⟩ := r'
  obtain rfl : cs = cs' := contracts
  obtain rfl : a = a' :=
    texts "customCurrencies" (by simp) written.customCurrencies written'.customCurrencies
  obtain rfl : b = b' :=
    texts "nonFungibleTokens" (by simp) written.nonFungibleTokens written'.nonFungibleTokens
  obtain rfl : c = c' :=
    texts "semiFungibleTokens" (by simp) written.semiFungibleTokens written'.semiFungibleTokens
  obtain rfl : d = d' :=
    texts "runTransactions" (by simp) written.runTransactions written'.runTransactions
  rfl

/-- A file that is read as records answers with them. -/
theorem Keeper.load_of_parse {k : Keeper} {t : Files.Tree} {s : Bytes} {r : Records}
    (found : t.read k.path = .ok s) (read : parse s = .ok r) : k.load t = .ok r := by
  simp only [load, found, read]

/-- Let two files hold JSON objects that are read as records and have the same five lists, however
they are written and whatever else they hold. Then every query has one answer on both. Any change
to both goes well where the file system refuses nothing, and leaves two files of the same octets:
the changed records in their one form. -/
theorem read_by_meaning {k₁ k₂ : Keeper} {t₁ t₂ : Files.Tree} {s₁ s₂ : Bytes}
    {ms₁ ms₂ : List (Option String × LooseDocument)} {r₁ r₂ : Records}
    (found₁ : t₁.read k₁.path = .ok s₁) (found₂ : t₂.read k₂.path = .ok s₂)
    (spelled₁ : Spells LooseAt s₁ (.object ms₁)) (spelled₂ : Spells LooseAt s₂ (.object ms₂))
    (read₁ : parse s₁ = .ok r₁) (read₂ : parse s₂ = .ok r₂) (same : SameLists ms₁ ms₂) :
    (∀ q, ∃ answer, k₁.ask t₁ q = .ok answer ∧ k₂.ask t₂ q = .ok answer) ∧
      ∀ c, Grants t₁ k₁.path → Grants t₂ k₂.path → ∃ u₁ u₂,
        k₁.change t₁ c = (.ok (), u₁) ∧ k₂.change t₂ c = (.ok (), u₂) ∧
          u₁.read k₁.path = .ok (Bytes.ofText (r₁.apply c).canonical) ∧
          u₂.read k₂.path = .ok (Bytes.ofText (r₁.apply c).canonical) := by
  obtain rfl : r₁ = r₂ :=
    (written_of_parse spelled₁ read₁).unique (written_of_parse spelled₂ read₂) same
  have held₁ := Keeper.load_of_parse found₁ read₁
  have held₂ := Keeper.load_of_parse found₂ read₂
  constructor
  · intro q
    exact ⟨r₁.answer q, by rw [Keeper.ask, held₁]; rfl, by rw [Keeper.ask, held₂]; rfl⟩
  · intro c granted₁ granted₂
    obtain ⟨u₁, saved₁, written₁, -⟩ := Keeper.save_of_grants granted₁ (r₁.apply c)
    obtain ⟨u₂, saved₂, written₂, -⟩ := Keeper.save_of_grants granted₂ (r₁.apply c)
    rw [text_eq_canonical] at written₁ written₂
    exact ⟨u₁, u₂, (Keeper.change_eq_save (.inr held₁)).trans saved₁,
      (Keeper.change_eq_save (.inr held₂)).trans saved₂, written₁, written₂⟩

/-! ## Two files by way of example -/

/-- A list of one text, as short as it can be written. -/
def plainFile : Bytes := ofText "\x7b\"runTransactions\":[\"A\"]\x7d"

/-- The same list with an escape, behind an empty list and with white space. -/
def oddFile : Bytes := ofText "\x7b \"contracts\":[],\n\"runTransactions\":[\"\\u0041\"]\x7d"

/-- A tree with one file. -/
def treeOf (contents : Bytes) : Files.Tree := Files.Tree.empty.put ["m.json"] (.file contents)

theorem looseAt_stringChars (x : String) {s : Bytes} (t : Bytes)
    (quoted : ofChars (stringChars x) ++ t = 0x22 :: s) : LooseAt s (some x) t := by
  obtain ⟨u, quote, text⟩ := textAt_stringChars x t
  obtain rfl := (List.cons.inj (quoted.symm.trans quote)).2
  exact .text text

/-- A list of one text at the end of a file, given how the text is written. -/
theorem documentAt_runTransactions {s u : Bytes} (content : LooseAt s (some "A") (ofText "]\x7d"))
    (bracket : u = 0x5B :: 0x22 :: s) :
    DocumentAt LooseAt u (.array [.string (some "A")]) (ofText "\x7d") := by
  subst bracket
  have item : DocumentAt LooseAt (0x22 :: s) (.string (some "A")) (ofText "]\x7d") :=
    .string (skipSpace_of_not_isSpace (by decide) s) content
  have first : Separated true (0x22 :: s) (0x22 :: s) :=
    .first (skipSpace_of_not_isSpace (by decide) s)
  exact .array (skipSpace_of_not_isSpace (by decide) _)
    (.more first item (.done (by decide +kernel)))

theorem spells_plainFile : Spells LooseAt plainFile
    (.object [(some "runTransactions", .array [.string (some "A")])]) := by
  have content : LooseAt (ofText "A\"]\x7d") (some "A") (ofText "]\x7d") :=
    looseAt_stringChars "A" _ (by decide +kernel)
  have list := documentAt_runTransactions content (u := ofText "[\"A\"]\x7d") (by decide +kernel)
  have name : LooseAt (ofText "runTransactions\":[\"A\"]\x7d") (some "runTransactions")
      (ofText ":[\"A\"]\x7d") :=
    looseAt_stringChars "runTransactions" _ (by decide +kernel)
  have members : MembersAt LooseAt (DocumentAt LooseAt) true
      (ofText "\"runTransactions\":[\"A\"]\x7d")
      [(some "runTransactions", .array [.string (some "A")])] [] :=
    .more (.first (by decide +kernel)) name (by decide +kernel) list (.done (by decide +kernel))
  exact ⟨[], .object (by decide +kernel) members, rfl⟩

theorem spells_oddFile : Spells LooseAt oddFile (.object
    [(some "contracts", .array []), (some "runTransactions", .array [.string (some "A")])]) := by
  have content : LooseAt (ofText "\\u0041\"]\x7d") (some "A") (ofText "]\x7d") := by
    have octets : ofText "\\u0041\"]\x7d" =
        0x5C :: 0x75 :: 0x30 :: 0x30 :: 0x34 :: 0x31 :: 0x22 :: ofText "]\x7d" := by
      decide +kernel
    have digits : HexAt (0x30 :: 0x30 :: 0x34 :: 0x31 :: 0x22 :: ofText "]\x7d") 'A'.toNat
        (0x22 :: ofText "]\x7d") :=
      show HexAt _ (((0 * 16 + 0) * 16 + 4) * 16 + 1) _ from .of rfl rfl rfl rfl _
    have characters : CharactersAt (0x5C :: 0x75 :: 0x30 :: 0x30 :: 0x34 :: 0x31 :: 0x22 ::
        ofText "]\x7d") ['A'] (ofText "]\x7d") := .escaped (.number digits) (.close _)
    rw [octets]
    exact .text characters
  have list := documentAt_runTransactions content (u := ofText "[\"\\u0041\"]\x7d")
    (by decide +kernel)
  have name : LooseAt (ofText "runTransactions\":[\"\\u0041\"]\x7d") (some "runTransactions")
      (ofText ":[\"\\u0041\"]\x7d") :=
    looseAt_stringChars "runTransactions" _ (by decide +kernel)
  have contracts : LooseAt (ofText "contracts\":[],\n\"runTransactions\":[\"\\u0041\"]\x7d")
      (some "contracts") (ofText ":[],\n\"runTransactions\":[\"\\u0041\"]\x7d") :=
    looseAt_stringChars "contracts" _ (by decide +kernel)
  have empty : DocumentAt LooseAt (ofText "[],\n\"runTransactions\":[\"\\u0041\"]\x7d")
      (.array []) (ofText ",\n\"runTransactions\":[\"\\u0041\"]\x7d") :=
    .array (u := ofText "],\n\"runTransactions\":[\"\\u0041\"]\x7d") (by decide +kernel)
      (.done (by decide +kernel))
  have others : MembersAt LooseAt (DocumentAt LooseAt) false
      (ofText ",\n\"runTransactions\":[\"\\u0041\"]\x7d")
      [(some "runTransactions", .array [.string (some "A")])] [] :=
    .more (.comma (v := ofText "\n\"runTransactions\":[\"\\u0041\"]\x7d") (by decide +kernel)
      (by decide +kernel)) name (by decide +kernel) list (.done (by decide +kernel))
  exact ⟨[], .object (u := ofText " \"contracts\":[],\n\"runTransactions\":[\"\\u0041\"]\x7d")
    (by decide +kernel)
    (.more (.first (by decide +kernel)) contracts (by decide +kernel) empty others), rfl⟩

/-- What is added to both files is added to the same records, and leaves the same file. -/
theorem read_by_meaning_odd_file : ∃ u₁ u₂,
    Keeper.change ⟨"m.json"⟩ (treeOf plainFile) (.addCustomCurrency "X-1") = (.ok (), u₁) ∧
      Keeper.change ⟨"m.json"⟩ (treeOf oddFile) (.addCustomCurrency "X-1") = (.ok (), u₂) ∧
      u₁.read "m.json" = u₂.read "m.json" := by
  have same : SameLists [(some "runTransactions", .array [.string (some "A")])]
      [(some "contracts", .array []), (some "runTransactions", .array [.string (some "A")])] :=
    ⟨⟨[], [], rfl, rfl, .nil⟩, by simp [listed, List.lookup_cons]⟩
  have found (contents : Bytes) :
      (treeOf contents).read (Keeper.mk "m.json").path = .ok contents := rfl
  obtain ⟨-, changes⟩ := read_by_meaning (found plainFile) (found oddFile) spells_plainFile
    spells_oddFile
    (show parse plainFile = .ok ⟨[], [], [], [], ["A"]⟩ by decide +kernel)
    (show parse oddFile = .ok ⟨[], [], [], [], ["A"]⟩ by decide +kernel) same
  obtain ⟨u₁, u₂, changed₁, changed₂, left₁, left₂⟩ := changes (.addCustomCurrency "X-1")
    ⟨.inr ⟨_, found plainFile⟩, by decide +kernel⟩ ⟨.inr ⟨_, found oddFile⟩, by decide +kernel⟩
  exact ⟨u₁, u₂, changed₁, changed₂, left₁.trans left₂.symm⟩

end Records

end ObserverRelay
