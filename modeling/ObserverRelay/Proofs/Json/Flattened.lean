import ObserverRelay.Proofs.Json.Agreement
/-!
# Objects with one member of their own kind

Such an object is read from a text member by member: its own member must not be repeated, and of
any other name the last member is kept in the place of the first. A value has been read in the same
way before, so that both ways agree on an object whose own member stands there once at most. A text
that repeats it is refused; its value is not, since it holds the last of them only.

## Main statements

* `agrees_members`, `agrees_withRest`: where the two ways agree.
* `readsAlike_members`, `readsAlike_withRest`, `ReadsAlike.parse`: what is read from a text is read
  from its value.
-/
namespace ObserverRelay.Json

variable {α β : Type} {s t u : Bytes}

/-- Only objects mean objects. -/
theorem Means.exists_object {N : Literal → Number → Prop} {doc : Document String} {vs : Members}
    (means : Means N doc (.object vs)) : ∃ ms, doc = .object ms := by
  cases means
  exact ⟨_, rfl⟩

theorem Members.get?_filter (name : String) (ms : Members) :
    get? name (ms.filter fun m => m.1 = name) = get? name ms := by
  induction ms with
  | nil => rfl
  | cons m ms ih =>
    obtain ⟨k, w⟩ := m
    by_cases same : k = name
    · simp [get?, same]
    · simp [get?, same, ih]

theorem Members.get?_append_of_not_mem {name : String} {pre : Members} (before : name ∉ names pre)
    (ms : Members) : get? name (pre ++ ms) = get? name ms := by
  induction pre with
  | nil => rfl
  | cons m pre ih =>
    obtain ⟨k, w⟩ := m
    simp only [names, List.map_cons, List.mem_cons, not_or] at before
    rw [List.cons_append, get?, if_neg (Ne.symm before.1), ih before.2]

theorem Members.filter_ne_of_not_mem {name : String} {ms : Members} (fresh : name ∉ names ms) :
    ms.filter (fun m => m.1 ≠ name) = ms := by
  refine List.filter_eq_self.mpr fun m mem => ?_
  have other : m.1 ≠ name := by
    rintro rfl
    exact fresh (List.mem_map_of_mem mem)
  simpa using other

namespace Decoder

variable {d : Decoder α} {depth : Nat} {doc : Document String} {name title : String}

/-! ## Objects with any members -/

theorem fromValue_members_iff {v : Value} {ms : Members} :
    members.fromValue v = .ok ms ↔ v = .object ms := by
  cases v <;> simp [members, refuse]

theorem view_members_iff {ms : Members} : (members.fromText depth s).view = .ok (ms, t) ↔
    ∃ u inner, skipSpace s = 0x7B :: u ∧ depth = inner + 1 ∧
      (readValueMembers (readValue inner) u).view = .ok (ms, t) := by
  constructor
  · intro read
    simp only [members] at read
    split at read
    next => cases read
    next b u shorter looked =>
      split at read
      next brace =>
        split at read
        next => cases read
        next inner =>
          exact ⟨u, inner, by rw [front_eq_octet_iff.mp looked, brace], rfl, by simpa using read⟩
      next => cases read
  · rintro ⟨u, inner, brace, rfl, read⟩
    obtain ⟨shorter, looked⟩ := front_eq_octet brace
    simpa only [members, looked, if_true, Outcome.view_within] using read

/-- An object that is not nested too deep is read from a text as it is. -/
theorem agrees_members (within : doc.Within depth) : members.Agrees depth doc := by
  intro s t v document means ms w
  have read := view_readValue document means within
  rw [view_members_iff, fromValue_members_iff]
  constructor
  · rintro ⟨u, inner, brace, rfl, taken⟩
    have whole := Outcome.view_map Value.object taken
    rw [← view_readValue_object brace, read] at whole
    cases whole
    exact ⟨rfl, rfl⟩
  · rintro ⟨same, rfl⟩
    cases means with
    | object =>
      cases document with
      | object brace content =>
        cases within with
        | object inner =>
          rw [view_readValue_object brace] at read
          obtain ⟨ms', taken, whole⟩ := Outcome.view_map_eq_ok_iff.mp read
          cases whole.trans same
          exact ⟨_, _, brace, rfl, taken⟩
    | null | bool | number | string | array => cases same

/-! ## Objects with one member of their own kind -/

section Rest
variable {a : α} {rest : Members} {state last next : Option α × Members} {vs : Members}

theorem fromValue_withRest_iff (title : String) {name : String} {d : Decoder α} {v : Value}
    {x : α × Members} :
    (withRest title name d).fromValue v = .ok x ↔
      ∃ ms w a, v = .object ms ∧ Members.get? name ms = some w ∧ d.fromValue w = .ok a ∧
        x = (a, ms.filter fun m => m.1 ≠ name) := by
  constructor
  · intro h
    cases v with
    | object ms =>
      simp only [withRest] at h
      split at h
      next => cases h
      next w found =>
        cases decoded : d.fromValue w with
        | error e =>
          rw [decoded] at h
          cases h
        | ok a =>
          rw [decoded] at h
          cases h
          exact ⟨ms, w, a, rfl, found, decoded, rfl⟩
    | null | bool | number | string | array => cases h
  · rintro ⟨ms, w, a, rfl, found, decoded, rfl⟩
    simp only [withRest, found, decoded]
    rfl

/-- What a member makes of the own member and the other ones: an own one is read into its place,
which must be empty, and any other one is kept. -/
def Sorts (name : String) (d : Decoder α) (state : Option α × Members) (m : String × Value)
    (next : Option α × Members) : Prop :=
  if m.1 = name then state.1 = none ∧ ∃ a, d.fromValue m.2 = .ok a ∧ next = (some a, state.2)
  else next = (state.1, Members.assign m.1 m.2 state.2)

theorem steps_sorts_of_not_mem (fresh : name ∉ Members.names vs) :
    Steps (Sorts name d) state vs last ↔ last = (state.1, Members.assignAll state.2 vs) := by
  induction vs generalizing state with
  | nil => simp [Members.assignAll, eq_comm]
  | cons m vs ih =>
    simp only [Members.names, List.map_cons, List.mem_cons, not_or] at fresh
    simp only [steps_cons_iff, Sorts, if_neg (Ne.symm fresh.1), exists_eq_left, ih fresh.2]
    rfl

/-- Members with the name at most once are sorted as the value that they become is taken apart. -/
theorem steps_sorts_iff (once : (Members.names vs).count name ≤ 1) :
    Steps (Sorts name d) (none, []) vs (some a, rest) ↔
      ∃ w, Members.get? name (Members.assignAll [] vs) = some w ∧ d.fromValue w = .ok a ∧
        rest = (Members.assignAll [] vs).filter fun m => m.1 ≠ name := by
  have own : (Members.assignAll [] vs).filter (fun m => m.1 = name) =
      vs.filter fun m => m.1 = name := by
    refine Members.filter_assignAll_nil (p := fun key => key = name) fun key same => ?_
    rwa [of_decide_eq_true same]
  have others := Members.filter_assignAll (fun key => key ≠ name) [] vs
  rw [← Members.get?_filter, own, Members.get?_filter, others]
  by_cases there : name ∈ Members.names vs
  · obtain ⟨pre, w, post, rfl, before⟩ := Members.exists_first there
    have behind : name ∉ Members.names post := by
      simp only [Members.names, List.map_append, List.map_cons, List.count_append,
        List.count_cons_self] at once
      exact List.count_eq_zero.mp (by rw [Members.names]; omega)
    have found : Members.get? name (pre ++ (name, w) :: post) = some w := by
      rw [Members.get?_append_of_not_mem before]
      simp [Members.get?]
    have kept : (pre ++ (name, w) :: post).filter (fun m => m.1 ≠ name) = pre ++ post := by
      rw [List.filter_append, List.filter_cons_of_neg (by simp), Members.filter_ne_of_not_mem before,
        Members.filter_ne_of_not_mem behind]
    rw [found, kept]
    simp only [steps_append_iff, steps_sorts_of_not_mem before, exists_eq_left, steps_cons_iff,
      Sorts, if_true, steps_sorts_of_not_mem behind, true_and]
    constructor
    · rintro ⟨next, ⟨b, read, rfl⟩, same⟩
      obtain ⟨rfl, rfl⟩ : a = b ∧ rest = _ := by simpa using same
      exact ⟨w, rfl, read, (List.foldl_append ..).symm⟩
    · rintro ⟨w', same, read, rfl⟩
      obtain rfl := Option.some.inj same
      exact ⟨_, ⟨a, read, rfl⟩, by rw [Members.assignAll, List.foldl_append]; rfl⟩
  · have none := Members.get?_eq_none_iff.mpr there
    simp [steps_sorts_of_not_mem there, none]

/-- The objection to an own member that is repeated. -/
def objection (name key : String) (state : Option α × Members) : Option Cause :=
  if key = name ∧ state.1.isSome then some (.repeatedMember name) else none

/-- Reads an own member into its place, or any other one as a value that is kept. -/
def readMember (name : String) (d : Decoder α) (depth : Nat) (key : String)
    (state : Option α × Members) : Reader (Option α × Members) := fun s =>
  if key = name then Outcome.map (fun a => (some a, state.2)) (d.fromText depth s)
  else Outcome.map (fun v => (state.1, Members.assign key v state.2)) (readValue depth s)

/-- What is made of the members when the closing brace has been taken. -/
def finish (name : String) (shorter : t.length < s.length) :
    Outcome t (Option α × Members) → Outcome s (α × Members)
  | .error e => .error (e.settle leaveObject)
  | .ok r =>
    match r.value.1 with
    | none => .error (.here (.missingMember name) r.rest)
    | some a => .ok ((r.map fun _ => (a, r.value.2)).within shorter)

theorem view_finish_iff {o : Outcome t (Option α × Members)} {shorter : t.length < s.length} :
    (finish name shorter o).view = .ok ((a, rest), u) ↔ o.view = .ok ((some a, rest), u) := by
  cases o with
  | error e => simp [finish]
  | ok r =>
    obtain ⟨⟨own, others⟩, v, h⟩ := r
    cases own <;> simp [finish, Taken.map, Taken.within]

theorem fromText_withRest (title name : String) (d : Decoder α) (depth : Nat) (s : Bytes) :
    (withRest title name d).fromText depth s =
      match front s with
      | .nothing => .error (.next .endInValue [])
      | .octet b t h =>
        if b = 0x7B then
          match depth with
          | 0 => .error (.next .tooDeep (b :: t))
          | depth + 1 =>
            finish name h (readMembers (objection name) (readMember name d depth) (none, []) t)
        else .error (mismatch title (b :: t)) := rfl

theorem view_withRest_iff : ((withRest title name d).fromText depth s).view = .ok ((a, rest), t) ↔
    ∃ u inner, skipSpace s = 0x7B :: u ∧ depth = inner + 1 ∧
      (readMembers (objection name) (readMember name d inner) (none, []) u).view =
        .ok ((some a, rest), t) := by
  rw [fromText_withRest]
  constructor
  · intro read
    split at read
    next => cases read
    next b u shorter looked =>
      split at read
      next brace =>
        split at read
        next => cases read
        next inner =>
          exact ⟨u, inner, by rw [front_eq_octet_iff.mp looked, brace], rfl,
            view_finish_iff.mp read⟩
      next => cases read
  · rintro ⟨u, inner, brace, rfl, read⟩
    obtain ⟨shorter, looked⟩ := front_eq_octet brace
    simpa only [looked, if_true, view_finish_iff] using read

/-- A member is read as its value is sorted: an own one if the decoder agrees on it, any other one
if it is not nested too deep. -/
theorem view_readMember_iff {m : String × Document String} {v : Value} {w : Bytes}
    (own : m.1 = name → d.Agrees depth m.2) (within : m.2.Within depth)
    (document : DocumentAt TextAt s m.2 t) (means : Means Becomes m.2 v) :
    objection name m.1 state = none ∧ (readMember name d depth m.1 state s).view = .ok (next, w) ↔
      Sorts name d state (m.1, v) next ∧ w = t := by
  simp only [objection, readMember, Sorts]
  by_cases same : m.1 = name
  · obtain ⟨own', others⟩ := state
    simp only [if_pos same, Outcome.view_map_eq_ok_iff, own same s t v document means]
    cases own' with
    | none =>
      constructor
      · rintro ⟨-, a, ⟨read, rest⟩, rfl⟩
        exact ⟨⟨rfl, a, read, rfl⟩, rest⟩
      · rintro ⟨⟨-, a, read, rfl⟩, rest⟩
        exact ⟨by simp, a, ⟨read, rest⟩, rfl⟩
    | some a => simp [same]
  · obtain ⟨shorter, read⟩ := Outcome.eq_of_view (view_readValue document means within)
    have noObjection : ¬(m.1 = name ∧ state.1.isSome) := fun h => same h.1
    simp only [if_neg same, if_neg noObjection, read, Outcome.map, Taken.map, Outcome.view_ok,
      Except.ok.injEq, Prod.mk.injEq, true_and]
    exact and_congr eq_comm eq_comm

/-- An object with its own member once at most is read as its value, if the own member is. -/
theorem agrees_withRest {ms : List (String × Document String)} (title : String)
    (once : (ms.map Prod.fst).count name ≤ 1) (own : ∀ m ∈ ms, m.1 = name → d.Agrees depth m.2)
    (within : ∀ m ∈ ms, m.2.Within depth) :
    (withRest title name d).Agrees (depth + 1) (.object ms) := by
  intro s t v document means x w
  obtain ⟨a, rest⟩ := x
  cases means with
  | @object _ vs names values =>
    cases document with
    | @object _ u _ _ brace content =>
      have once' : (Members.names vs).count name ≤ 1 := by
        rwa [Members.names, ← names]
      have read {w : Bytes} : (readMembers (objection name) (readMember name d depth) (none, [])
          u).view = .ok ((some a, rest), w) ↔
            Steps (Sorts name d) (none, []) vs (some a, rest) ∧ w = t :=
        view_readMembers_iff names values
          (fun m mem _ _ _ document means _ _ _ =>
            view_readMember_iff (own m mem) (within m mem) document means) content
      rw [view_withRest_iff, fromValue_withRest_iff]
      constructor
      · rintro ⟨_, _, brace', depth', taken⟩
        obtain rfl := Nat.succ.inj depth'
        obtain rfl := (List.cons.inj (brace.symm.trans brace')).2
        obtain ⟨steps, rest'⟩ := read.mp taken
        obtain ⟨v, found, decoded, rfl⟩ := (steps_sorts_iff once').mp steps
        exact ⟨⟨_, v, a, rfl, found, decoded, rfl⟩, rest'⟩
      · rintro ⟨⟨_, v, _, object, found, decoded, whole⟩, rest'⟩
        obtain rfl := Value.object.inj object
        obtain ⟨rfl, rfl⟩ := Prod.mk.inj whole
        have steps := (steps_sorts_iff once').mpr ⟨v, found, decoded, rfl⟩
        exact ⟨u, depth, brace, rfl, read.mpr ⟨steps, rest'⟩⟩

/-- What is no object is refused both ways. -/
theorem agrees_withRest_of_kind_ne (noObject : doc.kind ≠ .object) :
    (withRest title name d).Agrees depth doc := by
  refine agrees_of_refused (fun s t x w document read => ?_) fun v x means decoded => ?_
  · obtain ⟨u, inner, brace, -⟩ := view_withRest_iff.mp read
    obtain ⟨b, r, front, kind⟩ := document.kind
    rw [brace] at front
    obtain rfl := (List.cons.inj front).1
    exact noObject (Option.some.inj kind).symm
  · obtain ⟨vs, w, a, rfl, -⟩ := (fromValue_withRest_iff title).mp decoded
    obtain ⟨ms, rfl⟩ := means.exists_object
    exact noObject rfl

end Rest

/-! ## What is read from a text -/

/-- What the decoder reads from a text is a document on which its two ways agree, and one that is
read as a value, too. -/
def ReadsAlike (d : Decoder α) : Prop :=
  ∀ depth s t a, (d.fromText depth s).view = .ok (a, t) → ∃ doc v,
    DocumentAt TextAt s doc t ∧ Means Becomes doc v ∧ doc.Within depth ∧ d.Agrees depth doc

theorem readsAlike_members : members.ReadsAlike := by
  intro depth s t ms read
  obtain ⟨u, inner, brace, rfl, taken⟩ := view_members_iff.mp read
  obtain ⟨docs, content, means, within⟩ :=
    membersAt_of_readValueMembers (fun _ _ _ => document_of_readValue) taken
  have whole := Document.Within.object within
  exact ⟨.object docs, .object ms, .object brace content, means, whole, agrees_members whole⟩

theorem ReadsAlike.map (f : α → β) (alike : d.ReadsAlike) : (d.map f).ReadsAlike := by
  intro depth s t b read
  obtain ⟨a, taken, rfl⟩ := Outcome.view_map_eq_ok_iff.mp read
  obtain ⟨doc, v, document, means, within, agrees⟩ := alike depth s t a taken
  exact ⟨doc, v, document, means, within, agrees.map f⟩

/-- If each member with the name fills a place that was empty, then there is one at most. -/
theorem count_le_of_steps {Q : Option α × Members → String × β → Option α × Members → Prop}
    (fills : ∀ state m next, Q state m next →
      if m.1 = name then state.1 = none ∧ next.1.isSome else next.1 = state.1)
    {start last : Option α × Members} {ms : List (String × β)} (steps : Steps Q start ms last) :
    (ms.map Prod.fst).count name ≤ if start.1.isSome then 0 else 1 := by
  induction steps with
  | done => exact Nat.zero_le _
  | @more state next _ m _ step _ ih =>
    have here := fills state m next step
    by_cases same : m.1 = name
    · rw [if_pos same] at here
      rw [here.2] at ih
      rw [List.map_cons, same, List.count_cons_self, here.1]
      exact Nat.succ_le_succ ih
    · rw [if_neg same] at here
      rw [List.map_cons, List.count_cons_of_ne same, ← here]
      exact ih

theorem readsAlike_withRest (title name : String) (alike : d.ReadsAlike) :
    (withRest title name d).ReadsAlike := by
  rintro depth s t ⟨a, rest⟩ read
  obtain ⟨u, inner, brace, rfl, taken⟩ := view_withRest_iff.mp read
  let Q (state : Option α × Members) (m : String × Document String)
      (next : Option α × Members) : Prop :=
    ((∃ v, Means Becomes m.2 v) ∧ m.2.Within inner ∧ (m.1 = name → d.Agrees inner m.2)) ∧
      if m.1 = name then state.1 = none ∧ next.1.isSome else next.1 = state.1
  have each : ∀ key (state next : Option α × Members) s t, objection name key state = none →
      (readMember name d inner key state s).view = .ok (next, t) →
        ∃ doc, DocumentAt TextAt s doc t ∧ Q state (key, doc) next := by
    intro key state next s t empty taken
    simp only [objection, readMember] at empty taken
    by_cases same : key = name
    · rw [if_pos same] at taken
      obtain ⟨a, here, rfl⟩ := Outcome.view_map_eq_ok_iff.mp taken
      obtain ⟨doc, v, document, means, within, agrees⟩ := alike inner s t a here
      have place : state.1 = none := by simpa [same] using empty
      exact ⟨doc, document, ⟨⟨v, means⟩, within, fun _ => agrees⟩, by simp [same, place]⟩
    · rw [if_neg same] at taken
      obtain ⟨v, here, rfl⟩ := Outcome.view_map_eq_ok_iff.mp taken
      obtain ⟨doc, document, means, within⟩ := document_of_readValue here
      exact ⟨doc, document, ⟨⟨v, means⟩, within, fun own => absurd own same⟩, by simp [same]⟩
  obtain ⟨ms, content, steps⟩ := membersAt_of_memberLoop each taken
  have parts := steps.forall_mem fun _ _ _ step => step.1
  have once := count_le_of_steps (fun _ _ _ step => step.2) steps
  have within := fun m mem => (parts m mem).2.1
  obtain ⟨vs, names, values⟩ :=
    exists_members (P := flip (Means Becomes)) fun m mem => (parts m mem).1
  exact ⟨.object ms, .object (Members.assignAll [] vs), .object brace content,
    .object names.symm values.flip, .object within,
    agrees_withRest title once (fun m mem => (parts m mem).2.2) within⟩

/-- What is read from a text as a whole is read from the value that the text is. -/
theorem ReadsAlike.parse (alike : d.ReadsAlike) {a : α} (read : d.parse s = .ok a) :
    ∃ v, Value.parse s = .ok v ∧ d.fromValue v = .ok a := by
  obtain ⟨t, taken, blank⟩ := readWhole_eq_ok_iff.mp read
  obtain ⟨doc, v, document, means, within, agrees⟩ := alike maxDepth s t a taken
  have spelled : Spells TextAt s doc := ⟨t, document, blank⟩
  exact ⟨v, parse_eq_ok_iff.mpr ⟨doc, spelled, means, within⟩,
    (agrees.parse_iff spelled means).mp read⟩

end Decoder

end ObserverRelay.Json
