import ObserverRelay.Json.Decoder
import ObserverRelay.Proofs.Json.Completeness
import ObserverRelay.Proofs.Json.Recognition
/-!
# Decoders that read a text as they read its value

A decoder agrees on a document if from each text of it, whatever its white space, its escapes and
the spelling of its numbers, the decoder reads just what it reads from the value that the document
means: the same thing, or nothing both times. The decoders of scalars agree on every document, and
so do those that are built from them. A record agrees on an object if none of its own names is
repeated there; members of other names may be repeated and need only be passed over.

## Main statements

* `view_memberLoop_iff`: the loop over members takes exactly the steps that their values allow.
* `Agrees.refine`, `Agrees.optional`: the decoders built from one.
* `agrees_record`: a record by its members.
* `Agrees.parse_iff`: what is read from a text as a whole.
-/
namespace ObserverRelay.Json

variable {α β σ : Type} {s t u : Bytes}

/-! ## Steps -/

section Steps
variable {Q P : σ → β → σ → Prop} {start last : σ} {x : β} {xs ys : List β}

@[simp] theorem steps_nil_iff : Steps Q start [] last ↔ start = last := by
  constructor
  · intro steps
    cases steps
    rfl
  · rintro rfl
    exact .done start

@[simp] theorem steps_cons_iff :
    Steps Q start (x :: xs) last ↔ ∃ next, Q start x next ∧ Steps Q next xs last := by
  constructor
  · intro steps
    cases steps with
    | more step more => exact ⟨_, step, more⟩
  · rintro ⟨next, step, more⟩
    exact .more step more

theorem steps_append_iff :
    Steps Q start (xs ++ ys) last ↔ ∃ mid, Steps Q start xs mid ∧ Steps Q mid ys last := by
  induction xs generalizing start with
  | nil => simp
  | cons x xs ih =>
    simp only [List.cons_append, steps_cons_iff, ih]
    constructor
    · rintro ⟨next, step, mid, front, back⟩
      exact ⟨mid, ⟨next, step, front⟩, back⟩
    · rintro ⟨mid, ⟨next, step, front⟩, back⟩
      exact ⟨next, step, mid, front, back⟩

end Steps

/-- The steps for the members of a document are the steps for the values that they mean. -/
theorem steps_means_iff {Q : σ → String × Value → σ → Prop} {start last : σ}
    {ms : List (String × Document String)} {vs : Members}
    (names : ms.map Prod.fst = vs.map Prod.fst)
    (values : List.Forall₂ (Means Becomes) (ms.map Prod.snd) (vs.map Prod.snd)) :
    Steps (fun state m next => ∃ v, Means Becomes m.2 v ∧ Q state (m.1, v) next) start ms last ↔
      Steps Q start vs last := by
  induction vs generalizing ms start with
  | nil =>
    obtain rfl : ms = [] := by simpa using names
    simp
  | cons w vs ih =>
    cases ms with
    | nil => cases names
    | cons m ms =>
      obtain ⟨k, v⟩ := w
      obtain ⟨k', d⟩ := m
      obtain ⟨rfl, others⟩ : k' = k ∧ ms.map Prod.fst = vs.map Prod.fst := by simpa using names
      obtain ⟨here, rest⟩ := List.forall₂_cons.mp values
      have same (start next : σ) :
          (∃ v', Means Becomes d v' ∧ Q start (k', v') next) ↔ Q start (k', v) next := by
        constructor
        · rintro ⟨v', means, step⟩
          obtain rfl : v = v' :=
            here.unique (fun _ _ _ number number' => number.unique number') means
          exact step
        · exact fun step => ⟨v, here, step⟩
      simp only [steps_cons_iff, same, ih others rest]

/-- On members that a text spells, the loop takes exactly the steps that are allowed for each of
them, checks included, and leaves what follows them. -/
theorem view_memberLoop_iff {R : Bytes → β → Bytes → Prop} {Q : σ → String × β → σ → Prop}
    {check : String → σ → Option Cause} {step : String → σ → Reader σ} {xs : List (String × β)}
    {first : Bool} {state last : σ} {w : Bytes} {le : u.length ≤ s.length}
    (each : ∀ m ∈ xs, ∀ s t, R s m.2 t → ∀ state next w,
      check m.1 state = none ∧ (step m.1 state s).view = .ok (next, w) ↔ Q state m next ∧ w = t)
    (members : MembersAt TextAt R first u xs t) :
    (memberLoop check step s first state u le).view = .ok (last, w) ↔
      Steps Q state xs last ∧ w = t := by
  induction members generalizing state with
  | @done first u t close =>
    obtain ⟨shorter, next⟩ := nextName_close first close
    rw [memberLoop]
    simp [next, eq_comm]
  | @more first u v w' x y t name d xs separated key colon value more ih =>
    obtain ⟨here, others⟩ := List.forall_mem_cons.mp each
    obtain ⟨le', next⟩ := nextName_more separated
    obtain ⟨shorter, read⟩ := Outcome.eq_of_view (view_readString_iff.mpr key)
    obtain ⟨shorter', behind⟩ := takeColon_eq colon
    have allowed := here x y value state
    rw [memberLoop]
    simp only [next, read, behind, steps_cons_iff]
    cases checked : check name state with
    | some cause =>
      simp only [checked] at allowed
      have none : ¬∃ after, Q state (name, d) after ∧ Steps Q after xs last := by
        rintro ⟨after, taken, -⟩
        cases ((allowed after y).mpr ⟨taken, rfl⟩).1
      simp [none]
    | none =>
      simp only [checked, true_and] at allowed
      cases outcome : step name state x with
      | error e =>
        simp only [outcome, Outcome.view_error] at allowed
        have none : ¬∃ after, Q state (name, d) after ∧ Steps Q after xs last := by
          rintro ⟨after, taken, -⟩
          cases (allowed after y).mpr ⟨taken, rfl⟩
        simp [none]
      | ok r =>
        obtain ⟨after, rest, shorter''⟩ := r
        simp only [outcome, Outcome.view_ok, Except.ok.injEq, Prod.mk.injEq] at allowed
        obtain ⟨taken, rfl⟩ := (allowed after rest).mp ⟨rfl, rfl⟩
        rw [ih others]
        constructor
        · rintro ⟨later, ended⟩
          exact ⟨⟨after, taken, later⟩, ended⟩
        · rintro ⟨⟨after', taken', later⟩, ended⟩
          obtain ⟨rfl, -⟩ := (allowed after' rest).mpr ⟨taken', rfl⟩
          exact ⟨later, ended⟩

/-- The loop over the members of a document takes exactly the steps that are allowed for the values
that these mean. -/
theorem view_readMembers_iff {Q : σ → String × Value → σ → Prop}
    {check : String → σ → Option Cause} {step : String → σ → Reader σ} {start last : σ} {w : Bytes}
    {ms : List (String × Document String)} {vs : Members} (names : ms.map Prod.fst = vs.map Prod.fst)
    (values : List.Forall₂ (Means Becomes) (ms.map Prod.snd) (vs.map Prod.snd))
    (each : ∀ m ∈ ms, ∀ s t v, DocumentAt TextAt s m.2 t → Means Becomes m.2 v →
      ∀ state next w, check m.1 state = none ∧ (step m.1 state s).view = .ok (next, w) ↔
        Q state (m.1, v) next ∧ w = t)
    (members : MembersAt TextAt (DocumentAt TextAt) true s ms t) :
    (readMembers check step start s).view = .ok (last, w) ↔ Steps Q start vs last ∧ w = t := by
  rw [← steps_means_iff names values]
  refine view_memberLoop_iff (fun m mem s t document state next w => ?_) members
  obtain ⟨v, -, means⟩ :=
    exists_mem_of_forall₂ (List.Forall₂.flip (R := flip (Means Becomes)) values)
      (List.mem_map_of_mem mem)
  constructor
  · intro read
    obtain ⟨allowed, rest⟩ := (each m mem s t v document means state next w).mp read
    exact ⟨⟨v, means, allowed⟩, rest⟩
  · rintro ⟨⟨v', means', allowed⟩, rest⟩
    exact (each m mem s t v' document means' state next w).mpr ⟨allowed, rest⟩

/-! ## Decoders that agree -/

namespace Decoder

/-- From each text of the document the decoder reads what it reads from the value that the
document means, and nothing else. -/
def Agrees (d : Decoder α) (depth : Nat) (doc : Document String) : Prop :=
  ∀ s t v, DocumentAt TextAt s doc t → Means Becomes doc v →
    ∀ a w, (d.fromText depth s).view = .ok (a, w) ↔ d.fromValue v = .ok a ∧ w = t

variable {d : Decoder α} {depth : Nat} {doc : Document String}

/-- A decoder agrees on what it refuses both ways. -/
theorem agrees_of_refused
    (text : ∀ s t a w, DocumentAt TextAt s doc t → (d.fromText depth s).view ≠ .ok (a, w))
    (value : ∀ v a, Means Becomes doc v → d.fromValue v ≠ .ok a) : d.Agrees depth doc := by
  intro s t v document means a w
  constructor
  · exact fun read => absurd read (text s t a w document)
  · exact fun decoded => absurd decoded.1 (value v a means)

theorem agrees_string (depth : Nat) (doc : Document String) : string.Agrees depth doc := by
  have other (noString : doc.kind ≠ .string) (s t : Bytes) (a : String) (w : Bytes)
      (document : DocumentAt TextAt s doc t) : (string.fromText depth s).view ≠ .ok (a, w) := by
    obtain ⟨b, r, front, kind⟩ := document.kind
    obtain ⟨shorter, looked⟩ := front_eq_octet front
    have noQuote : b ≠ 0x22 := by
      rintro rfl
      exact noString (Option.some.inj kind).symm
    simp [string, looked, if_neg noQuote]
  cases doc with
  | string x =>
    intro s t v document means a w
    cases means
    cases document with
    | string quote content =>
      obtain ⟨shorter, looked⟩ := front_eq_octet quote
      simp only [string, looked, if_true, Outcome.view_within, view_readString_iff]
      constructor
      · intro content'
        obtain ⟨rfl, rfl⟩ := unambiguous_textAt _ _ _ _ _ content content'
        exact ⟨rfl, rfl⟩
      · rintro ⟨same, rfl⟩
        rwa [← Except.ok.inj same]
  | null | number | array | object =>
    refine agrees_of_refused (other (by rintro ⟨⟩)) fun v a means decoded => ?_
    cases means
    cases decoded
  | bool b =>
    refine agrees_of_refused (other (by cases b <;> rintro ⟨⟩)) fun v a means decoded => ?_
    cases means
    cases decoded

/-- A number is read as it becomes, and what it becomes is judged alike both ways. -/
theorem agrees_natural (bound : Nat) (expected : String) (depth : Nat) (doc : Document String) :
    (natural bound expected).Agrees depth doc := by
  have other (noNumber : doc.kind ≠ .number) (s t : Bytes) (a : Nat) (w : Bytes)
      (document : DocumentAt TextAt s doc t) :
      ((natural bound expected).fromText depth s).view ≠ .ok (a, w) := by
    obtain ⟨b, r, front, kind⟩ := document.kind
    obtain ⟨shorter, looked⟩ := front_eq_octet front
    have noDigit : ¬(b = 0x2D ∨ isDigit b = true) := by
      intro start
      rw [Kind.of?_number start] at kind
      exact noNumber (Option.some.inj kind).symm
    simp [natural, looked, if_neg noDigit]
  cases doc with
  | number l =>
    intro s t v document means a w
    cases means with
    | @number _ n becomes =>
      cases document with
      | number number =>
        obtain ⟨b, r, front, start⟩ := number.exists_cons
        obtain ⟨shorter, looked⟩ := front_eq_octet front
        have read := view_readNumber_iff.mpr ⟨l, number, becomes⟩
        rw [front] at read
        obtain ⟨shorter', read⟩ := Outcome.eq_of_view read
        simp only [natural, looked, if_pos start, read]
        cases judged : naturalBelow bound expected n with
        | error cause => simp
        | ok m => simp [Taken.map, eq_comm]
  | null | string | array | object =>
    refine agrees_of_refused (other (by rintro ⟨⟩)) fun v a means decoded => ?_
    cases means
    cases decoded
  | bool b =>
    refine agrees_of_refused (other (by cases b <;> rintro ⟨⟩)) fun v a means decoded => ?_
    cases means
    cases decoded

theorem map_eq_ok_iff {ε : Type} {f : α → β} {x : Except ε α} {b : β} :
    x.map f = .ok b ↔ ∃ a, x = .ok a ∧ f a = b := by
  cases x <;> simp [Except.map]

theorem Agrees.map (f : α → β) (agrees : d.Agrees depth doc) : (d.map f).Agrees depth doc := by
  intro s t v document means b w
  simp only [Decoder.map, Outcome.view_map_eq_ok_iff, map_eq_ok_iff, agrees s t v document means]
  constructor
  · rintro ⟨a, ⟨decoded, rfl⟩, same⟩
    exact ⟨⟨a, decoded, same⟩, rfl⟩
  · rintro ⟨⟨a, decoded, same⟩, rfl⟩
    exact ⟨a, ⟨decoded, rfl⟩, same⟩

theorem view_refine_iff {f : α → Except String β} {b : β} :
    ((d.refine f).fromText depth s).view = .ok (b, t) ↔
      ∃ a, (d.fromText depth s).view = .ok (a, t) ∧ f a = .ok b := by
  simp only [Decoder.refine]
  cases d.fromText depth s with
  | error e => simp
  | ok r => cases made : f r.value <;> simp [made, Taken.map, and_comm]

theorem fromValue_refine_iff {f : α → Except String β} {v : Value} {b : β} :
    (d.refine f).fromValue v = .ok b ↔ ∃ a, d.fromValue v = .ok a ∧ f a = .ok b := by
  simp only [Decoder.refine]
  cases d.fromValue v with
  | error e => simp
  | ok a => cases made : f a <;> simp [made, Except.mapError]

theorem Agrees.refine {f : α → Except String β} (agrees : d.Agrees depth doc) :
    (d.refine f).Agrees depth doc := by
  intro s t v document means b w
  simp only [view_refine_iff, fromValue_refine_iff, agrees s t v document means]
  constructor
  · rintro ⟨a, ⟨decoded, rfl⟩, accepted⟩
    exact ⟨⟨a, decoded, accepted⟩, rfl⟩
  · rintro ⟨⟨a, decoded, accepted⟩, rfl⟩
    exact ⟨a, ⟨decoded, rfl⟩, accepted⟩

/-- A text whose first octet is no letter of `null` is handed on without the blanks before it. -/
theorem Agrees.optional (agrees : d.Agrees depth doc) : (Decoder.optional d).Agrees depth doc := by
  intro s t v document means a w
  by_cases null : doc = .null
  · subst null
    cases means
    cases document with
    | null word =>
      obtain ⟨shorter, looked⟩ := front_eq_octet word
      simp only [Decoder.optional, looked, if_true, Outcome.view_weaken, view_readWord_iff]
      simp [eq_comm]
  · obtain ⟨b, r, front, kind⟩ := document.kind
    obtain ⟨shorter, looked⟩ := front_eq_octet front
    have noLetter : b ≠ 0x6E := by
      rintro rfl
      have same := (Option.some.inj kind).symm
      cases doc with
      | null => exact null rfl
      | bool b => cases b <;> cases same
      | number | string | array | object => cases same
    have noNull : v ≠ .null := by
      rintro rfl
      cases means
      exact null rfl
    have handed : (Decoder.optional d).fromValue v = (d.fromValue v).map some := by
      cases v <;> first | rfl | exact absurd rfl noNull
    have trimmed : DocumentAt TextAt (b :: r) doc t :=
      document.of_skipSpace_eq (by rw [← front, skipSpace_skipSpace])
    rw [handed]
    refine Iff.trans ?_ (agrees.map some (b :: r) t v trimmed means a w)
    simp only [Decoder.optional, Decoder.map, looked, if_neg noLetter, Outcome.view_map_eq_ok_iff,
      Outcome.view_weaken]

/-- A text of the document as a whole is read as the value that it means. -/
theorem Agrees.parse_iff (agrees : d.Agrees maxDepth doc) {v : Value} {a : α}
    (spelled : Spells TextAt s doc) (means : Means Becomes doc v) :
    d.parse s = .ok a ↔ d.fromValue v = .ok a := by
  obtain ⟨t, document, blank⟩ := spelled
  rw [parse, readWhole_eq_ok_iff]
  simp only [agrees s t v document means]
  constructor
  · rintro ⟨_, ⟨decoded, rfl⟩, -⟩
    exact decoded
  · exact fun decoded => ⟨t, ⟨decoded, rfl⟩, blank⟩

/-! ## Records -/

/-- A member is read into each draft from the texts of the document as from its value. -/
def Slot.Agrees (slot : Slot σ) (depth : Nat) (doc : Document String) : Prop :=
  ∀ s t v, DocumentAt TextAt s doc t → Means Becomes doc v → ∀ state next w,
    (slot.fromText depth state s).view = .ok (next, w) ↔ slot.fromValue state v = .ok next ∧ w = t

theorem Slot.Agrees.of {name : String} {required : Bool} {get : σ → Option α} {put : α → σ → σ}
    (agrees : d.Agrees depth doc) : (Slot.of name required get put d).Agrees depth doc :=
  fun s t v document means state next w =>
    agrees.map (fun a => put a state) s t v document means next w

namespace Shape
variable {shape : Shape σ α}

/-- What a member of an object makes of a draft: one of another name leaves it, one of its own is
read into its place, which must be empty. -/
def Allows (shape : Shape σ α) (state : σ) (m : String × Value) (next : σ) : Prop :=
  match shape.slot? m.1 with
  | none => next = state
  | some slot => slot.filled state = false ∧ slot.fromValue state m.2 = .ok next

theorem fromMembers_eq_ok_iff {start last : σ} {ms : Members} :
    shape.fromMembers start ms = .ok last ↔ Steps shape.Allows start ms last := by
  induction ms generalizing start with
  | nil => simp [fromMembers]
  | cons m ms ih =>
    obtain ⟨name, v⟩ := m
    rw [fromMembers, steps_cons_iff]
    simp only [Allows]
    cases shape.slot? name with
    | none => simp [ih]
    | some slot =>
      cases empty : slot.filled start with
      | true => simp [empty]
      | false => cases taken : slot.fromValue start v <;> simp [empty, taken, ih]

/-- The name is one of the record's own. -/
def Owns (shape : Shape σ α) (name : String) : Prop := (shape.slot? name).isSome

instance (shape : Shape σ α) (name : String) : Decidable (shape.Owns name) :=
  inferInstanceAs (Decidable ((shape.slot? name).isSome = true))

theorem mem_of_slot? {name : String} {slot : Slot σ} (known : shape.slot? name = some slot) :
    slot ∈ shape.slots ∧ slot.name = name :=
  ⟨List.mem_of_find?_eq_some known, by simpa using List.find?_some known⟩

theorem owns_iff {name : String} : shape.Owns name ↔ name ∈ shape.slots.map Slot.name := by
  simp [Owns, slot?]

/-- Members of other names do not matter to a record. -/
theorem fromMembers_filter (start : σ) (ms : Members) :
    shape.fromMembers start (ms.filter fun m => shape.Owns m.1) = shape.fromMembers start ms := by
  induction ms generalizing start with
  | nil => rfl
  | cons m ms ih =>
    obtain ⟨name, v⟩ := m
    cases known : shape.slot? name with
    | none =>
      rw [List.filter_cons_of_neg (by simp [Owns, known]), ih, fromMembers]
      simp only [known]
    | some slot =>
      rw [List.filter_cons_of_pos (by simp [Owns, known]), fromMembers, fromMembers]
      simp only [known, ih]

/-- What becomes of repeated members of other names does not matter to a record. -/
theorem fromMembers_assignAll {vs : Members} (start : σ)
    (once : ∀ name, shape.Owns name → (Members.names vs).count name ≤ 1) :
    shape.fromMembers start (Members.assignAll [] vs) = shape.fromMembers start vs := by
  have own : (Members.assignAll [] vs).filter (fun m => shape.Owns m.1) =
      vs.filter fun m => shape.Owns m.1 :=
    Members.filter_assignAll_nil (p := fun name => shape.Owns name)
      fun name owned => once name (by simpa using owned)
  rw [← fromMembers_filter, own, fromMembers_filter]

/-- The objection to a member whose place is taken. -/
def objection (shape : Shape σ α) (name : String) (state : σ) : Option Cause :=
  match shape.slot? name with
  | some slot => if slot.filled state then some (.repeatedMember name) else none
  | none => none

/-- Reads a member into its place, or passes over one of another name. -/
def readMember (shape : Shape σ α) (depth : Nat) (name : String) (state : σ) : Reader σ := fun s =>
  match shape.slot? name with
  | some slot => slot.fromText depth state s
  | none => Outcome.map (fun _ => state) (passValue s)

theorem readNames_eq (shape : Shape σ α) (depth : Nat) (s : Bytes) :
    shape.readNames depth s =
      match readMembers shape.objection (shape.readMember depth) shape.empty s with
      | .error e => .error (e.settle leaveObject)
      | .ok r =>
        match shape.finish r.value with
        | .error cause => .error (.here cause r.rest)
        | .ok a => .ok (r.map fun _ => a) := rfl

theorem view_readNames_iff {a : α} :
    (shape.readNames depth s).view = .ok (a, t) ↔ ∃ last,
      (readMembers shape.objection (shape.readMember depth) shape.empty s).view = .ok (last, t) ∧
        shape.finish last = .ok a := by
  rw [readNames_eq]
  cases readMembers shape.objection (shape.readMember depth) shape.empty s with
  | error e => simp
  | ok r => cases made : shape.finish r.value <;> simp [made, Taken.map, and_comm]

/-- The decoders of the record's members agree on a member of an object. -/
def AgreesOn (shape : Shape σ α) (depth : Nat) (m : String × Document String) : Prop :=
  ∀ slot, shape.slot? m.1 = some slot → slot.Agrees depth m.2

/-- A member is read from a text as its value allows. -/
theorem AgreesOn.step_iff {m : String × Document String} (agrees : shape.AgreesOn depth m)
    (document : DocumentAt TextAt s m.2 t) {v : Value} (means : Means Becomes m.2 v)
    {state next : σ} {w : Bytes} :
    shape.objection m.1 state = none ∧ (shape.readMember depth m.1 state s).view = .ok (next, w) ↔
      shape.Allows state (m.1, v) next ∧ w = t := by
  simp only [objection, readMember, Allows]
  cases known : shape.slot? m.1 with
  | none =>
    obtain ⟨e, form⟩ := document.form
    obtain ⟨shorter, passed⟩ := Outcome.eq_of_view (view_passValue_iff.mpr ⟨e, form⟩)
    simp [passed, Outcome.map, Taken.map, eq_comm]
  | some slot =>
    simp only [agrees slot known s t v document means state next w]
    cases slot.filled state <;> simp

end Shape

/-- From members of which none has a place twice, the record's are read as from the value. -/
theorem Shape.view_readMembers_iff {shape : Shape σ α}
    {ms : List (String × Document String)} {vs : Members} (names : ms.map Prod.fst = vs.map Prod.fst)
    (values : List.Forall₂ (Means Becomes) (ms.map Prod.snd) (vs.map Prod.snd))
    (once : ∀ name, shape.Owns name → (ms.map Prod.fst).count name ≤ 1)
    (each : ∀ m ∈ ms, shape.AgreesOn depth m)
    (members : MembersAt TextAt (DocumentAt TextAt) true s ms t) {last : σ} {w : Bytes} :
    (readMembers shape.objection (shape.readMember depth) shape.empty s).view = .ok (last, w) ↔
      shape.fromMembers shape.empty (Members.assignAll [] vs) = .ok last ∧ w = t := by
  have once' : ∀ name, shape.Owns name → (Members.names vs).count name ≤ 1 := by
    rwa [Members.names, ← names]
  rw [fromMembers_assignAll _ once', fromMembers_eq_ok_iff]
  exact Json.view_readMembers_iff names values
    (fun m mem s t v document means state next w => (each m mem).step_iff document means) members

/-- A record agrees on an object with its own names once each, if it does on their members. -/
theorem agrees_record {shape : Shape σ α} {ms : List (String × Document String)}
    (once : ∀ name, shape.Owns name → (ms.map Prod.fst).count name ≤ 1)
    (each : ∀ m ∈ ms, shape.AgreesOn depth m) :
    (record shape).Agrees (depth + 1) (.object ms) := by
  intro s t v document means a w
  cases means with
  | @object _ vs names values =>
    cases document with
    | object brace content =>
      obtain ⟨shorter, looked⟩ := front_eq_octet brace
      have noList : ¬(0x7B : UInt8) = 0x5B := by decide
      simp only [record, looked, if_neg noList, if_true, Outcome.view_within,
        Shape.view_readNames_iff,
        Shape.view_readMembers_iff names values once each content]
      cases shape.fromMembers shape.empty (Members.assignAll [] vs) with
      | error e => simp
      | ok last => simp [and_comm]

end Decoder

end ObserverRelay.Json
