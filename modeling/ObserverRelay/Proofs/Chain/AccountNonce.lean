import Mathlib.Data.Option.Basic
import Mathlib.Data.Prod.Basic
import Mathlib.Tactic.Convert
import ObserverRelay.Chain.AccountSource
import ObserverRelay.Net.Network
import ObserverRelay.Proofs.Json.Acceptance
import ObserverRelay.Proofs.Json.Compact
import ObserverRelay.Proofs.Net.Limits
import ObserverRelay.Proofs.Nonce.Failures
/-!
# The nonce that the proxy tells of an account

An exchange about an account is judged from its start to its end: whether it came about, its status,
whether the body came whole, and only then what the body holds. The nonce is the natural number at
`data.account.nonce`; of all else that stands in the body nothing matters but that it is JSON. An
exchange that brings no nonce leaves a book of nonces as it was. Only without a limit may a question
have no answer.

## Main statements

* `nonceDecoder_parse_iff`: which bodies hold a nonce, and which one.
* `account_nonce_judged`: what becomes of a question, however the proxy behaves.
-/
namespace ObserverRelay.Chain

open Json Net
open Relay (Duration)
open Url (DomainNames)

/-- The URL that a failure names. -/
def SourceError.url? : SourceError → Option String
  | transport url _ | badStatus url _ | unexpected url _ => some url
  | badArgument _ => none

/-- A failure that names a URL says so. -/
theorem SourceError.exists_message_eq {e : SourceError} {url : String} (named : e.url? = some url) :
    ∃ before after, e.message = before ++ url ++ after := by
  cases e with
  | transport u reason =>
    obtain rfl := Option.some.inj named
    exact ⟨"proxy request to ", " failed: " ++ reason, String.append_assoc⟩
  | badStatus u status =>
    obtain rfl := Option.some.inj named
    exact ⟨"proxy ", " returned HTTP " ++ toString status, String.append_assoc⟩
  | unexpected u reason =>
    obtain rfl := Option.some.inj named
    exact ⟨"unexpected proxy response from ", ": " ++ reason, String.append_assoc⟩
  | badArgument reason => cases named

namespace AccountSource

/-! ## Records of a single member -/

section Single
variable {α : Type} {d : Decoder α} {R : LooseDocument → α → Prop} {title name : String}
  {ms : List (String × LooseDocument)} {a : α}

/-- The shape of a record of a single member. -/
def singleShape (title name : String) (d : Decoder α) : Decoder.Shape (Option α) α :=
  ⟨title, [.of name true id (fun a _ => some a) d], none, Decoder.need name⟩

/-- What the member makes of the draft. -/
def Alone (R : LooseDocument → α → Prop) (_ : String) (_ : Option α) (doc : LooseDocument)
    (next : Option α) : Prop :=
  ∃ a, R doc a ∧ some a = next

theorem reads_single {depth : Nat} (title name : String) (reads : d.Reads depth R) :
    (single title name d).Reads (depth + 1) ((singleShape title name d).Yields (Alone R)) :=
  Decoder.reads_record (List.forall_mem_singleton.mpr (reads.slot name true id fun a _ => some a))

theorem slot?_self :
    (singleShape title name d).slot? name = some (.of name true id (fun a _ => some a) d) := by
  simp [singleShape, Decoder.Shape.slot?, Decoder.Slot.of]

theorem slot?_of_ne {k : String} (ne : k ≠ name) : (singleShape title name d).slot? k = none := by
  simp [singleShape, Decoder.Shape.slot?, Decoder.Slot.of, ne.symm]

/-- Members of other names leave the draft. -/
theorem steps_of_not_mem (others : ∀ m ∈ ms, m.1 ≠ name) (state : Option α) :
    Steps ((singleShape title name d).Admits (Alone R)) state ms state := by
  induction ms with
  | nil => exact .done state
  | cons m ms ih =>
    obtain ⟨here, more⟩ := List.forall_mem_cons.mp others
    exact .more (by rw [Decoder.Shape.Admits, slot?_of_ne here]) (ih more)

/-- The member is read that has the name, if no name is repeated. -/
theorem steps_single_iff (distinct : (ms.map Prod.fst).Nodup) :
    Steps ((singleShape title name d).Admits (Alone R)) none ms (some a) ↔
      ∃ doc, (name, doc) ∈ ms ∧ R doc a := by
  constructor
  · intro steps
    obtain ⟨-, none⟩ | ⟨doc, b, there, allowed, same⟩ :=
      Decoder.Shape.lookup_of_steps name id R steps slot?_self (fun _ => rfl) rfl
        (by rintro _ _ _ ⟨b, allowed, rfl⟩; exact ⟨b, allowed, rfl⟩)
        (by
          rintro slot' mem ne
          obtain rfl := List.mem_singleton.mp mem
          exact absurd rfl ne)
    · cases none
    · obtain rfl := Option.some.inj same
      obtain ⟨pre, post, rfl, -⟩ := List.lookup_eq_some_iff.mp there
      exact ⟨doc, List.mem_append_cons_self, allowed⟩
  · rintro ⟨doc, mem, allowed⟩
    obtain ⟨pre, post, rfl⟩ := List.append_of_mem mem
    rw [List.map_append, List.map_cons, List.nodup_append, List.nodup_cons] at distinct
    obtain ⟨-, ⟨fresh, -⟩, apart⟩ := distinct
    have before : ∀ m ∈ pre, m.1 ≠ name := fun m hm =>
      apart _ (List.mem_map_of_mem hm) _ List.mem_cons_self
    have behind : ∀ m ∈ post, m.1 ≠ name := fun m hm same =>
      fresh (List.mem_map.mpr ⟨m, hm, same⟩)
    refine steps_append_iff.mpr
      ⟨none, steps_of_not_mem before none, .more ?_ (steps_of_not_mem behind _)⟩
    rw [Decoder.Shape.Admits, slot?_self]
    exact ⟨rfl, a, allowed, rfl⟩

theorem eq_some_of_need {last : Option α} (finished : Decoder.need name last = .ok a) :
    last = some a := by
  cases last with
  | none => cases finished
  | some b => rw [Except.ok.inj finished]

theorem yields_single_iff (distinct : (ms.map Prod.fst).Nodup) :
    (singleShape title name d).Yields (Alone R) (.object (ms.map (Prod.map some id))) a ↔
      ∃ doc, (name, doc) ∈ ms ∧ R doc a := by
  constructor
  · intro yields
    generalize whole : Document.object (ms.map (Prod.map some id)) = doc at yields
    cases yields with
    | places => cases whole
    | @names ms' last _ steps finished =>
      have inject : Function.Injective (Prod.map some id : String × LooseDocument → _) :=
        (Option.some_injective _).prodMap Function.injective_id
      obtain rfl := List.map_injective_iff.mpr inject (Document.object.inj whole)
      rw [eq_some_of_need finished] at steps
      exact (steps_single_iff distinct).mp steps
  · exact fun there => .names ((steps_single_iff distinct).mpr there) rfl

end Single

/-! ## The document of an answer -/

/-- The document is an object with the member. -/
def Has (d : Document String) (name : String) (x : Document String) : Prop :=
  ∃ ms, d = .object ms ∧ (name, x) ∈ ms

/-- The document is no list, and if it is an object, no name is repeated in it. -/
structure Plain (d : Document String) : Prop where
  noList : ∀ ds, d ≠ .array ds
  distinct : ∀ ms, d = .object ms → (ms.map Prod.fst).Nodup

/-- Where a nonce would stand, no list stands for an object and no name is repeated. -/
structure Unequivocal (d : Document String) : Prop where
  whole : Plain d
  data : ∀ data, Has d "data" data → Plain data
  account : ∀ data account, Has d "data" data → Has data "account" account → Plain account

/-- The document is the number, written in digits only. -/
def IsWord {α : Type} (d : Document α) (n : UInt64) : Prop := ∃ l, d = .number l ∧ l.Names n.toNat

/-- At `data.account.nonce` the document has the number. -/
def HoldsNonce (d : Document String) (n : UInt64) : Prop :=
  ∃ data, Has d "data" data ∧ ∃ account, Has data "account" account ∧
    ∃ nonce, Has account "nonce" nonce ∧ IsWord nonce n

/-- What a record of a single member reads from a document that is no list and repeats no name,
given what its member reads. -/
theorem yields_single_of_loosened {α : Type} {title name : String} {dec : Decoder α}
    {R : LooseDocument → α → Prop} {S : Document String → Prop} {a : α} {d : Document String}
    {e : LooseDocument} (loosened : d.Loosened e) (plain : Plain d)
    (inner : ∀ x, Has d name x → ∀ y, x.Loosened y → (R y a ↔ S x)) :
    (singleShape title name dec).Yields (Alone R) e a ↔ ∃ x, Has d name x ∧ S x := by
  cases d with
  | array ds => exact absurd rfl (plain.noList ds)
  | null | bool _ | number _ | string _ =>
    constructor
    · intro yields
      cases loosened
      cases yields
    · rintro ⟨_, ⟨_, object, -⟩, -⟩
      cases object
  | object ms =>
    obtain ⟨ns, rfl, each⟩ := loosened.members
    have distinct : (ns.map Prod.fst).Nodup := by
      rw [Document.names_of_loosened each]
      exact plain.distinct ms rfl
    rw [yields_single_iff distinct]
    constructor
    · rintro ⟨y, mem, allowed⟩
      obtain ⟨⟨k, x⟩, mem', rfl, loosened⟩ := exists_mem_of_forall₂ each mem
      have has : Has (.object ms) k x := ⟨ms, rfl, mem'⟩
      exact ⟨x, has, (inner x has y loosened).mp allowed⟩
    · rintro ⟨x, has, holds⟩
      have ⟨_, same, mem⟩ := has
      obtain rfl := Document.object.inj same
      obtain ⟨⟨k, y⟩, mem', rfl, loosened⟩ := exists_mem_of_forall₂ each.flip mem
      exact ⟨y, mem', (inner x has y loosened).mpr holds⟩

theorem reads_word (depth : Nat) : (Decoder.natural64.map Nat.toUInt64).Reads depth IsWord := by
  have reads := (Decoder.reads_natural le_rfl "u64" depth).map Nat.toUInt64
  intro s u t
  rw [Decoder.natural64, reads s u t]
  refine exists_congr fun doc => and_congr_right fun _ => ?_
  constructor
  · rintro ⟨n, ⟨l, rfl, names, low⟩, rfl⟩
    exact ⟨l, rfl, by rwa [Nat.toUInt64, UInt64.toNat_ofNat_of_lt' low]⟩
  · rintro ⟨l, rfl, names⟩
    exact ⟨u.toNat, ⟨l, rfl, names, u.toNat_lt⟩, UInt64.ofNat_toNat⟩

theorem isWord_of_loosened {d : Document String} {e : LooseDocument} (loosened : d.Loosened e)
    {n : UInt64} : IsWord e n ↔ IsWord d n := by
  constructor
  · rintro ⟨l, rfl, names⟩
    cases loosened
    exact ⟨l, rfl, names⟩
  · rintro ⟨l, rfl, names⟩
    cases loosened
    exact ⟨l, rfl, names⟩

/-- What is read from an unequivocal document is the nonce that it holds. -/
theorem exists_reads : ∃ R : LooseDocument → UInt64 → Prop, nonceDecoder.Reads maxDepth R ∧
    ∀ (d : Document String) e n, d.Loosened e → Unequivocal d → (R e n ↔ HoldsNonce d n) := by
  refine ⟨_, reads_single "struct AccountEnvelope" "data" <|
    reads_single "struct AccountData" "account" <|
      reads_single "struct AccountRecord" "nonce" <| reads_word 124, ?_⟩
  intro d e n loosened unequivocal
  -- each record reads the member that the document has under its name
  exact yields_single_of_loosened loosened unequivocal.whole fun data has y loosened =>
    yields_single_of_loosened loosened (unequivocal.data data has) fun account has' y loosened =>
      yields_single_of_loosened loosened (unequivocal.account data account has has')
        fun x _ y loosened => isWord_of_loosened loosened

/-- A nonce is read exactly if the document holds it. -/
theorem nonceDecoder_parse_iff {s : Bytes} {d : Document String} {n : UInt64}
    (spelled : Spells TextAt s d) (unequivocal : Unequivocal d) :
    nonceDecoder.parse s = .ok n ↔ HoldsNonce d n := by
  obtain ⟨R, reads, holds⟩ := exists_reads
  obtain ⟨t, document, blank⟩ := spelled
  obtain ⟨e, document', loosened⟩ := document.loose
  rw [reads.parse_iff_of_spells ⟨t, document', blank⟩, holds d e n loosened unequivocal]

/-- Only JSON texts are read. -/
theorem isJson_of_parse {s : Bytes} {n : UInt64} (read : nonceDecoder.parse s = .ok n) :
    IsJson s := by
  obtain ⟨R, reads, -⟩ := exists_reads
  obtain ⟨e, spelled, -⟩ := reads.parse_iff.mp read
  exact isJson_iff_loose.mpr ⟨e, spelled⟩

/-! ## Questions to the proxy -/

/-- How the ending of an exchange about an account is judged. -/
structure Judged (url : String) (ending : Ending) (result : Option (Except SourceError UInt64)) :
    Prop where
  /-- Nothing is known of a reply that is waited for without end. -/
  silent : ending = .silent → result = none
  /-- Without a reply the exchange has failed. -/
  unsent : ∀ reason, ending = .failed reason ∨ ending = .late reason →
    result = some (.error (.transport url reason))
  /-- A refusal stands whatever becomes of the body, and if it never comes. -/
  refused : ∀ status body, ending = .answered status body → isSuccess status = false →
    result = some (.error (.badStatus url status))
  endless : ∀ status, ending = .answered status none → isSuccess status = true → result = none
  /-- A body that does not come whole is no answer. -/
  incomplete : ∀ status arrival, ending = .answered status (some arrival) →
    isSuccess status = true → (∀ s, arrival ≠ .whole s) →
      ∃ reason, result = some (.error (.transport url reason))
  noJson : ∀ status s, ending = .answered status (some (.whole s)) → isSuccess status = true →
    ¬IsJson s → ∃ reason, result = some (.error (.unexpected url reason))
  nonce : ∀ status s d n, ending = .answered status (some (.whole s)) → isSuccess status = true →
    Spells TextAt s d → Unequivocal d → HoldsNonce d n → result = some (.ok n)
  noNonce : ∀ status s d, ending = .answered status (some (.whole s)) → isSuccess status = true →
    Spells TextAt s d → Unequivocal d → (∀ n, ¬HoldsNonce d n) →
      ∃ reason, result = some (.error (.unexpected url reason))
  named : ∀ e, result = some (.error e) → e.url? = some url ∧
    ∃ before after, e.message = before ++ url ++ after

/-- What is no nonce to the decoder is an unexpected answer. -/
theorem judge_whole_of_ne {url : String} {status : Nat} {s : Bytes}
    (fulfilled : isSuccess status = true) (unread : ∀ n, nonceDecoder.parse s ≠ .ok n) :
    ∃ reason, judge url (.answered status (some (.whole s))) =
      some (.error (.unexpected url reason)) := by
  simp only [judge, fulfilled, not_true, if_false]
  cases read : nonceDecoder.parse s with
  | error fault => exact ⟨_, rfl⟩
  | ok n => exact absurd read (unread n)

theorem url?_of_judge {url : String} {ending : Ending} {e : SourceError}
    (failed : judge url ending = some (.error e)) : e.url? = some url := by
  cases ending with
  | silent => cases failed
  | failed reason | late reason =>
    cases failed
    rfl
  | answered status body =>
    cases fulfilled : isSuccess status with
    | false =>
      simp only [judge, fulfilled] at failed
      cases failed
      rfl
    | true =>
      simp only [judge, fulfilled, not_true, if_false] at failed
      match body with
      | none => cases failed
      | some (.broken reason) | some (.late reason) =>
        cases failed
        rfl
      | some (.whole s) =>
        cases read : nonceDecoder.parse s with
        | ok n =>
          simp only [read] at failed
          cases failed
        | error fault =>
          simp only [read] at failed
          cases failed
          rfl

theorem judged_judge (url : String) (ending : Ending) : Judged url ending (judge url ending) where
  silent := by
    rintro rfl
    rfl
  unsent := by rintro reason (rfl | rfl) <;> rfl
  refused := by
    rintro status body rfl refused
    simp [judge, refused]
  endless := by
    rintro status rfl fulfilled
    simp [judge, fulfilled]
  incomplete := by
    rintro status arrival rfl fulfilled broken
    simp only [judge, fulfilled, not_true, if_false]
    cases arrival with
    | broken reason | late reason => exact ⟨reason, rfl⟩
    | whole s => exact absurd rfl (broken s)
  noJson := by
    rintro status s rfl fulfilled noJson
    exact judge_whole_of_ne fulfilled fun n read => noJson (isJson_of_parse read)
  nonce := by
    rintro status s d n rfl fulfilled spelled unequivocal holds
    simp [judge, fulfilled, (nonceDecoder_parse_iff spelled unequivocal).mpr holds]
  noNonce := by
    rintro status s d rfl fulfilled spelled unequivocal missing
    exact judge_whole_of_ne fulfilled fun n read =>
      missing n ((nonceDecoder_parse_iff spelled unequivocal).mp read)
  named e failed := ⟨url?_of_judge failed, SourceError.exists_message_eq (url?_of_judge failed)⟩

/-- A question goes without an answer only for want of an end. -/
theorem isEndless_of_judge {url : String} {ending : Ending} (missing : judge url ending = none) :
    ending.IsEndless := by
  cases ending with
  | silent => exact .reply
  | failed reason | late reason => cases missing
  | answered status body =>
    cases fulfilled : isSuccess status with
    | false => simp [judge, fulfilled] at missing
    | true =>
      simp only [judge, fulfilled, not_true, if_false] at missing
      match body with
      | none => exact .body status
      | some (.broken reason) | some (.late reason) => cases missing
      | some (.whole s) =>
        dsimp only at missing
        split at missing <;> cases missing

/-! ## The book over this source -/

section Book

variable {σ : Type} [Transport σ]

/-- What a book of nonces is told. To a question without an answer there is a spare one. -/
def answers (source : AccountSource) (spare : Except SourceError UInt64) (n : σ)
    (address : String) : Except SourceError UInt64 × σ :=
  ((source.ask n address).1.getD spare, (source.ask n address).2.1)

theorem exists_urlFor [DomainNames] {proxyUrl : String} {timeout : Option Duration}
    {source : AccountSource} (made : AccountSource.new proxyUrl timeout = .ok source)
    (address : String) : source.timeout = timeout ∧ ∃ u, source.urlFor address = .ok u := by
  rw [AccountSource.new] at made
  split at made
  next => cases made
  next base parsed =>
    split at made
    next => cases made
    next extensible =>
      cases made
      have extended : (base.extend? ["address", address]).isSome = true := by
        rw [Url.isSome_extend?, Bool.not_eq_true', ← Bool.not_eq_true]
        exact extensible
      obtain ⟨u, extended⟩ := Option.isSome_iff_exists.mp extended
      exact ⟨rfl, u, by rw [urlFor, extended]⟩

/-- A failure to ask leaves the book as it was, and so does a call about an address that is not in
it. -/
theorem perform_of_failed {source : AccountSource} {n : σ} {e : SourceError} {call : NonceCall}
    (failed : (source.ask n call.address).1 = some (.error e))
    (spare : Except SourceError UInt64) (b : NonceBook) :
    (b.needsSource call = true → b.perform (source.answers spare) n call =
      (.failed (.source e), b, (source.ask n call.address).2.1)) ∧
    (b.tracks call.address = false → (b.perform (source.answers spare) n call).2.1 = b) := by
  have failure (asks : b.needsSource call = true) : b.perform (source.answers spare) n call =
      (.failed (.source e), b, (source.ask n call.address).2.1) := by
    simp only [NonceBook.perform, asks, if_true, answers, failed, Option.getD_some,
      NonceBook.conclude]
  refine ⟨failure, fun untracked => ?_⟩
  cases asks : b.needsSource call with
  | true => rw [failure asks]
  | false =>
    have missing : b.get? call.address = none := by
      rwa [NonceBook.tracks, Option.isSome_eq_false_iff, Option.isNone_iff_eq_none] at untracked
    simp only [NonceBook.perform, asks, Bool.false_eq_true, if_false]
    exact NonceBook.book_use_of_untracked missing

end Book

end AccountSource

/-- An answer with the nonce 7. -/
def sevenBody : Bytes := Bytes.ofText "\x7b\"data\":\x7b\"account\":\x7b\"nonce\":7\x7d\x7d\x7d"

/-- The document of that answer. -/
def sevenDocument : Document String :=
  .object [("data", .object [("account", .object [("nonce", .number ⟨false, [0x37], [], none⟩)])])]

theorem spells_sevenBody : Spells TextAt sevenBody sevenDocument := by
  have digits : DigitsAt [0x37, 0x7D, 0x7D, 0x7D] [0x37] [0x7D, 0x7D, 0x7D] :=
    ⟨rfl, by simp, List.forall_mem_singleton.mpr rfl, by rintro _ ⟨⟩; rfl⟩
  have number : DocumentAt TextAt [0x37, 0x7D, 0x7D, 0x7D] (.number ⟨false, [0x37], [], none⟩)
      [0x7D, 0x7D, 0x7D] :=
    .number (.plain (.of digits (by decide) (.none (by decide)) (.none ⟨by decide, by decide⟩)))
  have whole := documentAt_member "data" (documentAt_member "account"
    (documentAt_member "nonce" number))
  refine ⟨[], ?_, rfl⟩
  convert whole using 1
  · decide +kernel
  · rfl

/-- Each object of that document has one member. -/
theorem eq_of_has_single {name k : String} {x y : Document String}
    (has : AccountSource.Has (.object [(name, x)]) k y) : k = name ∧ y = x := by
  obtain ⟨ms, same, mem⟩ := has
  obtain rfl := Document.object.inj same
  exact Prod.mk.inj (List.mem_singleton.mp mem)

theorem plain_single {name : String} {x : Document String} :
    AccountSource.Plain (.object [(name, x)]) where
  noList := by rintro ds ⟨⟩
  distinct := by
    rintro ms ⟨⟩
    exact List.nodup_singleton name

section

attribute [local instance] DomainNames.untranslated

/-- A proxy that answers with that document. -/
def sevenProxy : Network :=
  .scripted [.replies .zero ⟨200, by decide⟩ (.whole ⟨40⟩ sevenBody)]

/-- A source that waits for a twentieth of a second. -/
def proxySource : AccountSource :=
  ⟨⟨"http", some ⟨"", none, .name "proxy", none⟩, false, .segments [""], none, none⟩, some ⟨50⟩⟩

end

end ObserverRelay.Chain
