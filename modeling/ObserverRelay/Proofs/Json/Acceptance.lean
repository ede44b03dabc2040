import ObserverRelay.Proofs.Json.Agreement
import ObserverRelay.Proofs.Json.Loose
/-!
# What decoders read, by the documents in a text

Which texts a decoder reads and what it makes of them depends on the document that stands in the
text and on nothing else: `Reads R` says that the relation `R` between documents and results is the
whole of it. Each way to build decoders has its relation. Of a record written as an object only
the members with its own names count; whatever else is there is passed over and may hold any JSON
text.

## Main statements

* `reads_string`, `reads_natural`, `Reads.map`, `Reads.list`: the relations of these decoders.
* `reads_record`: a record, written with names or by place.
* `Reads.parse_iff`: what is read from a text as a whole.
-/
namespace ObserverRelay.Json

variable {α β σ : Type} {s t u w : Bytes}

/-- The places of a list are filled one after the other. -/
theorem steps_collect_iff {R : β → α → Prop} {xs : List β} {start last : List α} :
    Steps (fun done x next => ∃ a, R x a ∧ next = a :: done) start xs last ↔
      ∃ as, List.Forall₂ R xs as ∧ last = as.reverse ++ start := by
  induction xs generalizing start with
  | nil => simp [eq_comm]
  | cons x xs ih =>
    simp only [steps_cons_iff, ih, List.forall₂_cons_left_iff]
    constructor
    · rintro ⟨_, ⟨a, here, rfl⟩, as, more, rfl⟩
      exact ⟨a :: as, ⟨a, as, here, more, rfl⟩, by simp⟩
    · rintro ⟨_, ⟨a, as, here, more, rfl⟩, rfl⟩
      exact ⟨a :: start, ⟨a, here, rfl⟩, as, more, by simp⟩

section Lookup
variable {Q : σ → String × β → σ → Prop} {get : σ → Option α} {name : String} {R : β → α → Prop}
  (own : ∀ state x next, Q state (name, x) next → get state = none ∧ ∃ a, R x a ∧ get next = some a)
  (other : ∀ state m next, m.1 ≠ name → Q state m next → get next = get state)
include own other

/-- What has been read into a place stays there, and no other member is read into it. -/
theorem Steps.kept {start last : σ} {ms : List (String × β)} (steps : Steps Q start ms last) {a : α}
    (filled : get start = some a) : get last = some a := by
  induction steps with
  | done => exact filled
  | @more state next last m ms step _ ih =>
    by_cases here : m.1 = name
    · obtain ⟨k, x⟩ := m
      obtain rfl : k = name := here
      rw [(own _ _ _ step).1] at filled
      cases filled
    · exact ih ((other _ _ _ here step).trans filled)

/-- A place holds in the end what the first member of its name says, if there is one. -/
theorem Steps.lookup {start last : σ} {ms : List (String × β)} (steps : Steps Q start ms last)
    (empty : get start = none) :
    (ms.lookup name = none ∧ get last = none) ∨
      ∃ x a, ms.lookup name = some x ∧ R x a ∧ get last = some a := by
  induction steps with
  | done => exact .inl ⟨rfl, empty⟩
  | @more state next last m ms step more ih =>
    obtain ⟨k, x⟩ := m
    by_cases here : k = name
    · subst here
      obtain ⟨-, a, read, filled⟩ := own _ _ _ step
      exact .inr ⟨x, a, by simp, read, more.kept own other filled⟩
    · rw [List.lookup_cons, beq_eq_false_iff_ne.mpr (Ne.symm here)]
      exact ih ((other _ _ _ here step).trans empty)

end Lookup

/-- Where each step may be taken, a loop over members takes them. -/
theorem memberRun_of_steps {R : Bytes → β → Bytes → Prop} {Q : σ → String × β → σ → Prop}
    {check : String → σ → Option Cause} {step : String → σ → Reader σ} {start last : σ}
    {ms : List (String × β)} (steps : Steps Q start ms last)
    (each : ∀ state m next, Q state m next → check m.1 state = none ∧
      ∀ s t, R s m.2 t → (step m.1 state s).view = .ok (next, t)) :
    MemberRun R check step start ms last := by
  induction steps with
  | done state => exact .done state
  | more here _ ih =>
    obtain ⟨checked, taken⟩ := each _ _ _ here
    exact .more checked taken ih

theorem closeList_iff : (closeList s).view = .ok ((), t) ↔ skipSpace s = 0x5D :: t := by
  constructor
  · intro closed
    rw [closeList] at closed
    split at closed
    next => cases closed
    next b r h looked =>
      have front := front_eq_octet_iff.mp looked
      split at closed
      next bracket =>
        cases closed
        rw [front, bracket]
      next =>
        split at closed
        · split at closed <;> cases closed
        · cases closed
  · intro close
    obtain ⟨shorter, looked⟩ := front_eq_octet close
    simp [closeList, looked]

/-- Members under names that are texts. -/
theorem membersAt_some_iff {R : Bytes → β → Bytes → Prop} {first : Bool} {ms : List (String × β)} :
    MembersAt LooseAt R first s (ms.map (Prod.map some id)) t ↔ MembersAt TextAt R first s ms t := by
  induction ms generalizing first s with
  | nil =>
    constructor
    · intro h
      cases h with
      | done close => exact .done close
    · intro h
      cases h with
      | done close => exact .done close
  | cons m ms ih =>
    constructor
    · intro h
      cases h with
      | more separated key colon value more =>
        exact .more separated (looseAt_some_iff.mp key) colon value (ih.mp more)
    · intro h
      cases h with
      | more separated key colon value more =>
        exact .more separated (.text key) colon value (ih.mpr more)

namespace Literal

/-- The number is written as a natural number, with neither sign nor point nor exponent. -/
structure Names (l : Literal) (n : Nat) : Prop where
  noSign : l.negative = false
  noFraction : l.fraction = []
  noExponent : l.exponent = none
  value : natural l.whole = n

end Literal

/-- A number that is written so and fits into 64 bits is kept. -/
theorem Literal.Names.becomes {l : Literal} {n : Nat} (names : l.Names n)
    (fits : n < Numeral.bound64) : Becomes l (.integer n) := by
  obtain ⟨noSign, noFraction, noExponent, rfl⟩ := names
  have absorbed : l.absorbed = (natural l.whole, []) := by
    refine l.absorbed_eq ?_
    rwa [significand, noFraction, List.append_nil]
  have becomes : Becomes l (integerNumber l.negative l.absorbed.1) :=
    .plain ⟨noFraction, noExponent, by rw [absorbed]⟩
  rwa [noSign, absorbed] at becomes

/-- Digits that fit are those that name a number that fits. -/
theorem natural_of_absorb {ds : Bytes} {n m : Nat} (small : n < Numeral.bound64)
    (taken : absorb n (ds.map digitValue) = (m, [])) :
    naturalFrom n ds = m ∧ m < Numeral.bound64 := by
  induction ds generalizing n with
  | nil =>
    obtain rfl : n = m := (Prod.mk.inj taken).1
    exact ⟨rfl, small⟩
  | cons b ds ih =>
    rw [List.map_cons, absorb] at taken
    split at taken
    next fits => exact ih fits taken
    next => cases taken

namespace Decoder

/-! ## Scalars and lists -/

/-- What the decoder reads from a text is what the relation allows for the document at its front. -/
def Reads (d : Decoder α) (depth : Nat) (R : LooseDocument → α → Prop) : Prop :=
  ∀ s a t, (d.fromText depth s).view = .ok (a, t) ↔ ∃ doc, DocumentAt LooseAt s doc t ∧ R doc a

variable {d : Decoder α} {depth : Nat} {R : LooseDocument → α → Prop}

theorem Reads.parse_iff (reads : d.Reads maxDepth R) {a : α} :
    d.parse s = .ok a ↔ ∃ doc, Spells LooseAt s doc ∧ R doc a := by
  rw [parse, readWhole_eq_ok_iff]
  simp only [reads s a]
  constructor
  · rintro ⟨t, ⟨doc, document, allowed⟩, blank⟩
    exact ⟨doc, ⟨t, document, blank⟩, allowed⟩
  · rintro ⟨doc, ⟨t, document, blank⟩, allowed⟩
    exact ⟨t, ⟨doc, document, allowed⟩, blank⟩

/-- What is read from a text is what the relation allows for its document. -/
theorem Reads.parse_iff_of_spells (reads : d.Reads maxDepth R) {doc : LooseDocument}
    (spelled : Spells LooseAt s doc) {a : α} : d.parse s = .ok a ↔ R doc a := by
  rw [reads.parse_iff]
  constructor
  · rintro ⟨doc', spelled', allowed⟩
    rwa [spelled.unique unambiguous_looseAt spelled']
  · exact fun allowed => ⟨doc, spelled, allowed⟩

theorem eq_ok_of_naturalBelow {bound : Nat} {expected : String} {n : Number} {m : Nat}
    (judged : naturalBelow bound expected n = .ok m) :
    ∃ k : Int, 0 ≤ k ∧ k < bound ∧ n = .integer k ∧ m = k.toNat := by
  cases n with
  | binary x => cases judged
  | integer k =>
    rw [naturalBelow] at judged
    split at judged
    next range => exact ⟨k, range.1, range.2, rfl, (Except.ok.inj judged).symm⟩
    next => cases judged

theorem reads_string (depth : Nat) : string.Reads depth fun doc x => doc = .string (some x) := by
  intro s x t
  simp only [string]
  constructor
  · intro read
    split at read
    next => cases read
    next b r h looked =>
      split at read
      next quote =>
        rw [Outcome.view_within, view_readString_iff] at read
        have front := front_eq_octet_iff.mp looked
        exact ⟨_, .string (by rw [front, quote]) (.text read), rfl⟩
      next => cases read
  · rintro ⟨_, document, rfl⟩
    cases document with
    | string quote content =>
      obtain ⟨shorter, looked⟩ := front_eq_octet quote
      simpa [looked, view_readString_iff] using content

/-- Among the numbers the natural ones below the bound are read. -/
theorem naturalBelow_of_becomes {bound : Nat} (fits : bound ≤ Numeral.bound64) (expected : String)
    {l : Literal} {n : Number} (becomes : Becomes l n) {m : Nat} :
    naturalBelow bound expected n = .ok m ↔ l.Names m ∧ m < bound := by
  constructor
  · intro judged
    obtain ⟨k, low, high, rfl, rfl⟩ := eq_ok_of_naturalBelow judged
    generalize number : Number.integer k = n at becomes
    cases becomes with
    | plain plain =>
      obtain ⟨noFraction, noExponent, all⟩ := plain
      obtain ⟨value, -⟩ := natural_of_absorb (by decide)
        (show absorb 0 (l.whole.map digitValue) = (l.absorbed.1, []) from Prod.ext rfl all)
      cases minus : l.negative with
      | false =>
        rw [minus] at number
        obtain rfl := Number.integer.inj number
        exact ⟨⟨minus, noFraction, noExponent, value⟩, by omega⟩
      | true =>
        rw [minus, integerNumber, if_neg (by decide)] at number
        split at number
        next => cases number
        next odd =>
          obtain rfl := Number.integer.inj number
          omega
    | scaled _ scaled => cases scaled <;> cases number
  · rintro ⟨names, low⟩
    obtain rfl := becomes.unique (names.becomes (by omega))
    simp [naturalBelow, low]

theorem reads_natural {bound : Nat} (fits : bound ≤ Numeral.bound64) (expected : String)
    (depth : Nat) : (natural bound expected).Reads depth fun doc n =>
      ∃ l, doc = .number l ∧ l.Names n ∧ n < bound := by
  intro s n t
  simp only [natural]
  constructor
  · intro read
    split at read
    next => cases read
    next b r h looked =>
      split at read
      next start =>
        split at read
        next => cases read
        next number taken =>
          obtain ⟨value, rest, shorter⟩ := number
          obtain ⟨l, numberAt, becomes⟩ := view_readNumber_iff.mp
            (show (readNumber (b :: r)).view = .ok (value, rest) by rw [taken]; rfl)
          rw [← front_eq_octet_iff.mp looked] at numberAt
          split at read
          next => cases read
          next m judged =>
            cases read
            exact ⟨_, .number numberAt, l, rfl,
              (naturalBelow_of_becomes fits expected becomes).mp judged⟩
      next => cases read
  · rintro ⟨_, document, l, rfl, names, low⟩
    cases document with
    | number number =>
      obtain ⟨b, r, front, start⟩ := number.exists_cons
      obtain ⟨shorter, looked⟩ := front_eq_octet front
      have becomes := names.becomes (by omega)
      have taken := view_readNumber_iff.mpr ⟨l, number, becomes⟩
      rw [front] at taken
      obtain ⟨shorter', taken⟩ := Outcome.eq_of_view taken
      have judged : naturalBelow bound expected (.integer n) = .ok n :=
        (naturalBelow_of_becomes fits expected becomes).mpr ⟨names, low⟩
      simp only [looked, if_pos start, taken, judged]
      rfl

theorem Reads.map (f : α → β) (reads : d.Reads depth R) :
    (d.map f).Reads depth fun doc b => ∃ a, R doc a ∧ f a = b := by
  intro s b t
  simp only [Decoder.map, Outcome.view_map_eq_ok_iff, reads s]
  constructor
  · rintro ⟨a, ⟨doc, document, allowed⟩, same⟩
    exact ⟨doc, document, a, allowed, same⟩
  · rintro ⟨doc, document, a, allowed, same⟩
    exact ⟨a, ⟨doc, document, allowed⟩, same⟩

/-- Items are collected, the last one first, exactly if each is allowed. -/
theorem Reads.view_readItems_iff (reads : d.Reads depth R) {last : List α} :
    (readItems (fun _ done u => Outcome.map (· :: done) (d.fromText depth u)) [] s).view =
        .ok (last, t) ↔
      ∃ ds as, ItemsAt (DocumentAt LooseAt) true s ds t ∧ List.Forall₂ R ds as ∧
        last = as.reverse := by
  constructor
  · intro read
    obtain ⟨ds, items, steps⟩ := itemsAt_of_itemLoop (R := DocumentAt LooseAt)
      (Q := fun done x next => ∃ a, R x a ∧ next = a :: done) (fun _ done next v w taken => by
        obtain ⟨a, here, rfl⟩ := Outcome.view_map_eq_ok_iff.mp taken
        obtain ⟨doc, document, allowed⟩ := (reads v a w).mp here
        exact ⟨doc, document, a, allowed, rfl⟩) read
    obtain ⟨as, each, made⟩ := steps_collect_iff.mp steps
    exact ⟨ds, as, items, each, by rw [made, List.append_nil]⟩
  · rintro ⟨ds, as, items, each, rfl⟩
    have run : ItemRun (DocumentAt LooseAt)
        (fun _ done u => Outcome.map (· :: done) (d.fromText depth u)) 0 [] ds (as.reverse ++ []) :=
      itemRun_collect
        (each.imp fun x a allowed s t document => (reads s a t).mpr ⟨x, document, allowed⟩) 0 []
    rw [List.append_nil] at run
    exact view_readItems (opens_documentAt LooseAt) run items

theorem Reads.list (reads : d.Reads depth R) :
    (Decoder.list d).Reads (depth + 1) fun doc as =>
      ∃ ds, doc = .array ds ∧ List.Forall₂ R ds as := by
  intro s as t
  simp only [Decoder.list]
  constructor
  · intro read
    split at read
    next => cases read
    next b u h looked =>
      split at read
      next bracket =>
        split at read
        next => cases read
        next r taken =>
          cases read
          obtain ⟨ds, as, items, each, made⟩ := reads.view_readItems_iff.mp
            (show _ = Except.ok (r.value, r.rest) by rw [taken]; rfl)
          refine ⟨_, .array (by rw [front_eq_octet_iff.mp looked, bracket]) items, ds, rfl, ?_⟩
          simpa [made] using each
      next => cases read
  · rintro ⟨_, document, ds, rfl, each⟩
    cases document with
    | array bracket content =>
      obtain ⟨shorter, looked⟩ := front_eq_octet bracket
      obtain ⟨shorter', taken⟩ :=
        Outcome.eq_of_view (reads.view_readItems_iff.mpr ⟨ds, as, content, each, rfl⟩)
      simp [looked, taken, Taken.map]

/-! ## Records -/

/-- What the decoder of a member makes of a draft is what the relation allows for the document at
the front of a text. -/
def Slot.Reads (slot : Slot σ) (depth : Nat) (P : σ → LooseDocument → σ → Prop) : Prop :=
  ∀ s state next t, (slot.fromText depth state s).view = .ok (next, t) ↔
    ∃ doc, DocumentAt LooseAt s doc t ∧ P state doc next

theorem Reads.slot (reads : d.Reads depth R) (name : String) (required : Bool)
    (get : σ → Option α) (put : α → σ → σ) :
    (Slot.of name required get put d).Reads depth fun state doc next =>
      ∃ a, R doc a ∧ put a state = next :=
  fun s state next t => reads.map (fun a => put a state) s next t

namespace Shape

variable {shape : Shape σ α} {P : String → σ → LooseDocument → σ → Prop}

/-- What a member of an object makes of a draft, given what a member of each own name makes of it:
one of another name leaves it, one of an own name must find its place empty. -/
def Admits (shape : Shape σ α) (P : String → σ → LooseDocument → σ → Prop) (state : σ)
    (m : String × LooseDocument) (next : σ) : Prop :=
  match shape.slot? m.1 with
  | none => next = state
  | some slot => slot.filled state = false ∧ P m.1 state m.2 next

/-- Members by their place in a list, which may end before those that need not be there. -/
inductive Places (P : String → σ → LooseDocument → σ → Prop) :
    List (Slot σ) → σ → List LooseDocument → σ → Prop
  | done {slots : List (Slot σ)} {state : σ} (free : ∀ slot ∈ slots, slot.required = false) :
      Places P slots state [] state
  | more {slot : Slot σ} {slots : List (Slot σ)} {state next last : σ} {doc : LooseDocument}
      {ds : List LooseDocument} (part : P slot.name state doc next)
      (more : Places P slots next ds last) : Places P (slot :: slots) state (doc :: ds) last

/-- The record that a document stands for, written with names or by place. -/
inductive Yields (shape : Shape σ α) (P : String → σ → LooseDocument → σ → Prop) :
    LooseDocument → α → Prop
  | names {ms : List (String × LooseDocument)} {last : σ} {a : α}
      (steps : Steps (shape.Admits P) shape.empty ms last) (finished : shape.finish last = .ok a) :
      Yields shape P (.object (ms.map (Prod.map some id))) a
  | places {ds : List LooseDocument} {last : σ} {a : α}
      (places : Places P shape.slots shape.empty ds last) (finished : shape.finish last = .ok a) :
      Yields shape P (.array ds) a

theorem Admits.objection {state next : σ} {m : String × LooseDocument}
    (admits : shape.Admits P state m next) : shape.objection m.1 state = none := by
  rw [Admits] at admits
  rw [Shape.objection]
  cases known : shape.slot? m.1 with
  | none => rfl
  | some slot =>
    rw [known] at admits
    simp [admits.1]

/-- After the members of an object a place of the draft holds what the first member of its name
says, if there is one. -/
theorem lookup_of_steps {γ : Type} (name : String) (get : σ → Option γ)
    (R : LooseDocument → γ → Prop) {ms : List (String × LooseDocument)} {last : σ}
    (steps : Steps (shape.Admits P) shape.empty ms last) {slot : Slot σ}
    (known : shape.slot? name = some slot)
    (filled : ∀ state, slot.filled state = (get state).isSome) (empty : get shape.empty = none)
    (own : ∀ state doc next, P name state doc next → ∃ c, R doc c ∧ get next = some c)
    (other : ∀ slot' ∈ shape.slots, slot'.name ≠ name → ∀ state doc next,
      P slot'.name state doc next → get next = get state) :
    (ms.lookup name = none ∧ get last = none) ∨
      ∃ doc c, ms.lookup name = some doc ∧ R doc c ∧ get last = some c := by
  refine steps.lookup (fun state doc next admits => ?_) (fun state m next ne admits => ?_) empty
  · simp only [Admits, known, filled, Option.isSome_eq_false_iff, Option.isNone_iff_eq_none]
      at admits
    exact ⟨admits.1, own _ _ _ admits.2⟩
  · rw [Admits] at admits
    split at admits
    next => rw [admits]
    next slot' known' =>
      obtain ⟨mem, same⟩ := mem_of_slot? known'
      rw [← same] at ne admits
      exact other slot' mem ne _ _ _ admits.2

theorem firstRequired_eq_none_iff {index : Nat} {slots : List (Slot σ)} :
    firstRequired index slots = none ↔ ∀ slot ∈ slots, slot.required = false := by
  induction slots generalizing index with
  | nil => simp [firstRequired]
  | cons slot rest ih =>
    rw [firstRequired, List.forall_mem_cons]
    cases slot.required <;> simp [ih]

section Each
variable (each : ∀ slot ∈ shape.slots, slot.Reads depth (P slot.name))
include each

/-- A member is read or passed over as the document behind its name allows. -/
theorem view_readMember_iff {name : String} {state next : σ} :
    shape.objection name state = none ∧ (shape.readMember depth name state s).view = .ok (next, t) ↔
      ∃ doc, DocumentAt LooseAt s doc t ∧ shape.Admits P state (name, doc) next := by
  simp only [Shape.objection, readMember, Admits]
  cases known : shape.slot? name with
  | none =>
    simp only [Outcome.view_map_eq_ok_iff, true_and]
    constructor
    · rintro ⟨⟨⟩, passed, rfl⟩
      obtain ⟨doc, document⟩ := view_passValue_iff_loose.mp passed
      exact ⟨doc, document, rfl⟩
    · rintro ⟨doc, document, rfl⟩
      exact ⟨(), view_passValue_iff_loose.mpr ⟨doc, document⟩, rfl⟩
  | some slot =>
    obtain ⟨own, rfl⟩ := mem_of_slot? known
    simp only [each slot own s state next t]
    cases slot.filled state <;> simp

theorem view_readNames_iff_yields {a : α} :
    (shape.readNames depth s).view = .ok (a, t) ↔ ∃ ms last,
      MembersAt TextAt (DocumentAt LooseAt) true s ms t ∧
        Steps (shape.Admits P) shape.empty ms last ∧ shape.finish last = .ok a := by
  rw [view_readNames_iff]
  constructor
  · rintro ⟨last, read, finished⟩
    obtain ⟨ms, members, steps⟩ := membersAt_of_memberLoop
      (fun name state next s t checked taken => (view_readMember_iff each).mp ⟨checked, taken⟩) read
    exact ⟨ms, last, members, steps, finished⟩
  · rintro ⟨ms, last, members, steps, finished⟩
    have run : MemberRun (DocumentAt LooseAt) shape.objection (shape.readMember depth) shape.empty
        ms last :=
      memberRun_of_steps steps fun state m next admits =>
        ⟨admits.objection, fun s t document =>
          ((view_readMember_iff each).mpr ⟨m.2, document, admits⟩).2⟩
    rw [← nameAt_eq_textAt] at members
    exact ⟨last, view_readMembers run members, finished⟩

theorem slotLoop_of_places {slots : List (Slot σ)} (among : ∀ slot ∈ slots, slot ∈ shape.slots)
    (index : Nat) {state last : σ} {ds : List LooseDocument} (le : u.length ≤ s.length)
    (places : Places P slots state ds last)
    (items : ItemsAt (DocumentAt LooseAt) (index == 0) u ds t) :
    ∃ closed v le', shape.slotLoop depth s index state u le slots = .ok (last, closed, ⟨v, le'⟩) ∧
      if closed then v = t else skipSpace v = 0x5D :: t := by
  induction places generalizing u index with
  | @done slots state free =>
    cases items with
    | done close =>
      cases slots with
      | nil => exact ⟨false, u, le, rfl, close⟩
      | cons slot rest =>
        obtain ⟨shorter, next⟩ := nextItem_close (index == 0) close
        have all : firstRequired index (slot :: rest) = none := firstRequired_eq_none_iff.mpr free
        exact ⟨true, t, le_of_shorter_of_le shorter le, by rw [slotLoop]; simp only [next, all], rfl⟩
  | @more slot slots state next last doc ds part more ih =>
    cases items with
    | more separated here rest =>
      obtain ⟨le', upcoming⟩ := nextItem_more (opens_documentAt LooseAt) separated here
      obtain ⟨own, others⟩ := List.forall_mem_cons.mp among
      obtain ⟨shorter, read⟩ := Outcome.eq_of_view ((each slot own _ _ _ _).mpr ⟨doc, here, part⟩)
      obtain ⟨closed, v, le'', taken, ends⟩ := ih others (index + 1) _ rest
      refine ⟨closed, v, le'', ?_, ends⟩
      rw [slotLoop]
      simp only [upcoming, read]
      exact taken

theorem places_of_slotLoop {slots : List (Slot σ)} (among : ∀ slot ∈ slots, slot ∈ shape.slots)
    {index : Nat} {state last : σ} {closed : Bool} {v : Bytes} {le : u.length ≤ s.length}
    {le' : v.length ≤ s.length}
    (taken : shape.slotLoop depth s index state u le slots = .ok (last, closed, ⟨v, le'⟩))
    (ends : if closed then v = t else skipSpace v = 0x5D :: t) :
    ∃ ds, ItemsAt (DocumentAt LooseAt) (index == 0) u ds t ∧ Places P slots state ds last := by
  induction slots generalizing u index state with
  | nil =>
    cases taken
    exact ⟨[], .done ends, .done (List.forall_mem_nil _)⟩
  | cons slot rest ih =>
    obtain ⟨own, others⟩ := List.forall_mem_cons.mp among
    rw [slotLoop] at taken
    split at taken
    next => cases taken
    next w hw next =>
      split at taken
      next => cases taken
      next all =>
        cases taken
        obtain ⟨_, _, done, close⟩ | ⟨_, _, more, _⟩ := nextItem_eq_ok next
        · cases done
          obtain rfl : v = t := ends
          exact ⟨[], .done close, .done (firstRequired_eq_none_iff.mp all)⟩
        · cases more
    next w hw next =>
      split at taken
      next => cases taken
      next state' x hx read =>
        obtain ⟨_, _, done, _⟩ | ⟨_, _, more, separated⟩ := nextItem_eq_ok next
        · cases done
        · cases more
          obtain ⟨doc, document, part⟩ := (each slot own _ _ _ _).mp
            (show (slot.fromText depth state w).view = .ok (state', x) by rw [read]; rfl)
          obtain ⟨ds, items, places⟩ := ih others taken
          exact ⟨doc :: ds, .more separated document items, .more part places⟩

theorem view_readPlaces_iff {a : α} {b : UInt8} :
    (shape.readPlaces depth s b).view = .ok (a, t) ↔ ∃ ds last,
      ItemsAt (DocumentAt LooseAt) true s ds t ∧
        Places P shape.slots shape.empty ds last ∧ shape.finish last = .ok a := by
  constructor
  · intro read
    rw [readPlaces] at read
    split at read
    next => cases read
    next last closed u hu taken =>
      split at read
      next => cases read
      next a' finished =>
        have ends : a' = a ∧ if closed then u = t else skipSpace u = 0x5D :: t := by
          split at read
          next isClosed =>
            cases read
            exact ⟨rfl, by rw [isClosed]; rfl⟩
          next isOpen =>
            split at read
            next => cases read
            next r closing =>
              cases read
              rw [if_neg isOpen]
              exact ⟨rfl, closeList_iff.mp (by rw [closing]; rfl)⟩
        obtain ⟨rfl, ends⟩ := ends
        obtain ⟨ds, items, places⟩ := places_of_slotLoop each (fun _ own => own) taken ends
        exact ⟨ds, last, items, places, finished⟩
  · rintro ⟨ds, last, items, places, finished⟩
    obtain ⟨closed, v, le, taken, ends⟩ :=
      slotLoop_of_places each (fun _ own => own) 0 (length_le_self s) places items
    rw [readPlaces]
    simp only [taken, finished]
    cases closed with
    | true =>
      obtain rfl : v = t := ends
      rfl
    | false =>
      obtain ⟨shorter, closing⟩ := Outcome.eq_of_view (closeList_iff.mpr ends)
      simp only [closing]
      rfl

end Each

end Shape

/-- A record is read as its members have it, each of which is read as its relation has it. -/
theorem reads_record {shape : Shape σ α} {P : String → σ → LooseDocument → σ → Prop}
    (each : ∀ slot ∈ shape.slots, slot.Reads depth (P slot.name)) :
    (record shape).Reads (depth + 1) (shape.Yields P) := by
  intro s a t
  simp only [record]
  constructor
  · intro read
    split at read
    next => cases read
    next b u h looked =>
      have front := front_eq_octet_iff.mp looked
      split_ifs at read with bracket brace
      · obtain ⟨ds, last, items, places, finished⟩ :=
          (Shape.view_readPlaces_iff each).mp (by simpa using read)
        exact ⟨_, .array (by rw [front, bracket]) items, .places places finished⟩
      · obtain ⟨ms, last, members, steps, finished⟩ :=
          (Shape.view_readNames_iff_yields each).mp (by simpa using read)
        exact ⟨_, .object (by rw [front, brace]) (membersAt_some_iff.mpr members),
          .names steps finished⟩
      · cases read
  · rintro ⟨_, document, yields⟩
    cases yields with
    | places places finished =>
      cases document with
      | array bracket content =>
        obtain ⟨shorter, looked⟩ := front_eq_octet bracket
        simpa [looked] using
          (Shape.view_readPlaces_iff each (b := 0x5B)).mpr ⟨_, _, content, places, finished⟩
    | names steps finished =>
      cases document with
      | object brace content =>
        obtain ⟨shorter, looked⟩ := front_eq_octet brace
        simpa [looked] using (Shape.view_readNames_iff_yields each).mpr
          ⟨_, _, membersAt_some_iff.mp content, steps, finished⟩

end Decoder

end ObserverRelay.Json
