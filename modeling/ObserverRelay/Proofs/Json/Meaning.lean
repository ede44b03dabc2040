import ObserverRelay.Proofs.Json.Characters
import ObserverRelay.Proofs.Json.Members
import Mathlib.Data.List.Forall2
/-!
# What a document means as a value

A value keeps what a document says but for two things: its numbers are no longer spelled, and of
members with one name it keeps the place of the first and the value of the last. Which number a
spelling becomes is the parameter `N`.

So two documents that mean one value are alike but for the spelling of their numbers, if no name is
repeated.

## Main statements

* `Means.unique`: what a document means is determined.
* `exists_alike`: where numbers can be spelled another way, documents can.
-/
namespace ObserverRelay.Json

variable {α β γ : Type} {N M : Literal → Number → Prop} {R : Literal → Literal → Prop}
  {d : Document String} {v : Value}

/-- A document becomes a value, given what spelled numbers become. -/
inductive Means (N : Literal → Number → Prop) : Document String → Value → Prop
  | null : Means N .null .null
  | bool (b : Bool) : Means N (.bool b) (.bool b)
  | number {l : Literal} {n : Number} (number : N l n) : Means N (.number l) (.number n)
  | string (x : String) : Means N (.string x) (.string x)
  | array {ds : List (Document String)} {vs : List Value} (items : List.Forall₂ (Means N) ds vs) :
      Means N (.array ds) (.array vs)
  | object {ms : List (String × Document String)} {vs : Members}
      (names : ms.map Prod.fst = vs.map Prod.fst)
      (values : List.Forall₂ (Means N) (ms.map Prod.snd) (vs.map Prod.snd)) :
      Means N (.object ms) (.object (Members.assignAll [] vs))

/-- No object in the document names two members alike. -/
inductive Document.NoRepeats : Document α → Prop
  | null : NoRepeats .null
  | bool (b : Bool) : NoRepeats (.bool b)
  | number (l : Literal) : NoRepeats (.number l)
  | string (x : α) : NoRepeats (.string x)
  | array {ds : List (Document α)} (items : ∀ d ∈ ds, NoRepeats d) : NoRepeats (.array ds)
  | object {ms : List (α × Document α)} (names : (ms.map Prod.fst).Nodup)
      (members : ∀ m ∈ ms, NoRepeats m.2) : NoRepeats (.object ms)

/-- What holds of related parts one by one, given where the first of each pair stands. -/
theorem forall₂_imp_mem {R S : α → β → Prop} {xs : List α} {ys : List β}
    (h : List.Forall₂ R xs ys) (step : ∀ x ∈ xs, ∀ y, R x y → S x y) : List.Forall₂ S xs ys := by
  have both := (List.forall₂_and_left (p := (· ∈ xs)) xs ys).mpr ⟨fun _ hx => hx, h⟩
  exact both.imp fun x y hxy => step x hxy.1 y hxy.2

theorem exists_mem_of_forall₂ {S : α → β → Prop} {xs : List α} {ys : List β}
    (h : List.Forall₂ S xs ys) {y : β} (mem : y ∈ ys) : ∃ x ∈ xs, S x y := by
  induction h with
  | nil => cases mem
  | @cons x _ xs _ here _ ih =>
    cases mem with
    | head => exact ⟨x, List.mem_cons_self, here⟩
    | tail _ mem =>
      obtain ⟨x', mem', related⟩ := ih mem
      exact ⟨x', List.mem_cons_of_mem x mem', related⟩

/-- Where each part is related to one that stands for another, the wholes are. -/
theorem exists_forall₂ {A : α → γ → Prop} {B : γ → β → Prop} {xs : List α} {ys : List β}
    (h : List.Forall₂ (fun x y => ∃ z, A x z ∧ B z y) xs ys) :
    ∃ zs, List.Forall₂ A xs zs ∧ List.Forall₂ B zs ys := by
  induction h with
  | nil => exact ⟨[], .nil, .nil⟩
  | cons here _ ih =>
    obtain ⟨z, left, right⟩ := here
    obtain ⟨zs, lefts, rights⟩ := ih
    exact ⟨z :: zs, .cons left lefts, .cons right rights⟩

/-- What follows from being related to something holds of all that is. -/
theorem forall_mem_of_forall₂ {P : α → Prop} {R : α → β → Prop} {xs : List α} {ys : List β}
    (h : List.Forall₂ R xs ys) (imp : ∀ x y, R x y → P x) : ∀ x ∈ xs, P x := by
  intro x mem
  obtain ⟨y, -, related⟩ := exists_mem_of_forall₂ h.flip mem
  exact imp x y related

theorem exists_forall₂_of_forall_mem {P : α → β → Prop} {ys : List β}
    (each : ∀ y ∈ ys, ∃ x, P x y) : ∃ xs, List.Forall₂ P xs ys := by
  induction ys with
  | nil => exact ⟨[], .nil⟩
  | cons y ys ih =>
    obtain ⟨⟨x, here⟩, others⟩ := List.forall_mem_cons.mp each
    obtain ⟨xs, more⟩ := ih others
    exact ⟨x :: xs, .cons here more⟩

/-- Parts that each have a partner have partners under the same names. -/
theorem exists_members {P : α → β → Prop} {ys : List (γ × β)} (each : ∀ m ∈ ys, ∃ x, P x m.2) :
    ∃ xs : List (γ × α), xs.map Prod.fst = ys.map Prod.fst ∧
      List.Forall₂ P (xs.map Prod.snd) (ys.map Prod.snd) := by
  induction ys with
  | nil => exact ⟨[], rfl, .nil⟩
  | cons m ys ih =>
    obtain ⟨⟨x, here⟩, others⟩ := List.forall_mem_cons.mp each
    obtain ⟨xs, names, more⟩ := ih others
    exact ⟨(m.1, x) :: xs, by simp [names], .cons here more⟩

theorem Members.assignAll_nil {ms : Members} (distinct : (names ms).Nodup) :
    assignAll [] ms = ms := by
  have none : (names []).Nodup := List.nodup_nil
  rw [assignAll_eq none distinct]
  simp [names]

/-- Of names that are not repeated an object has the members that were written. -/
theorem Members.filter_assignAll_nil {p : String → Bool} {ms : Members}
    (once : ∀ name, p name → (names ms).count name ≤ 1) :
    (assignAll [] ms).filter (fun m => p m.1) = ms.filter fun m => p m.1 := by
  have kept : names (ms.filter fun m => p m.1) = (names ms).filter p := by
    rw [names, names, List.filter_map]
    rfl
  rw [filter_assignAll, List.filter_nil, assignAll_nil]
  rw [kept, List.nodup_iff_count_le_one]
  intro name
  cases own : p name with
  | true => exact (List.count_filter own).trans_le (once name own)
  | false => exact (List.count_eq_zero.mpr (by simp [own])).trans_le (Nat.zero_le 1)

/-! ## What a document means is determined -/

/-- Where each part is related to one thing at most, so are the parts together. -/
theorem eq_of_forall₂ {S : α → β → Prop} {xs : List α} {ys zs : List β} (h : List.Forall₂ S xs ys)
    (h' : List.Forall₂ S xs zs) (each : ∀ x ∈ xs, ∀ y z, S x y → S x z → y = z) : ys = zs := by
  induction h generalizing zs with
  | nil =>
    cases h'
    rfl
  | cons here _ ih =>
    cases h' with
    | cons here' more' =>
      obtain ⟨first, others⟩ := List.forall_mem_cons.mp each
      rw [first _ _ here here', ih more' others]

/-- A document means one value at most, if each number becomes one at most. -/
theorem Means.unique (numbers : ∀ l m n, N l m → N l n → m = n) {w : Value} (h : Means N d v)
    (h' : Means N d w) : v = w := by
  induction d generalizing v w with
  | null | bool | string =>
    cases h
    cases h'
    rfl
  | number l =>
    cases h with
    | number number =>
      cases h' with
      | number number' => rw [numbers _ _ _ number number']
  | array ds ih =>
    cases h with
    | array items =>
      cases h' with
      | array items' => rw [eq_of_forall₂ items items' fun d hd _ _ here here' => ih d hd here here']
  | object ms ih =>
    cases h with
    | @object _ vs names values =>
      cases h' with
      | @object _ ws names' values' =>
        have same : vs.map Prod.snd = ws.map Prod.snd := by
          refine eq_of_forall₂ values values' fun d hd _ _ here here' => ?_
          obtain ⟨m, hm, rfl⟩ := List.mem_map.mp hd
          exact ih m hm here here'
        have members : vs = ws := by
          rw [← List.zip_unzip vs, ← List.zip_unzip ws, List.unzip_eq_map, List.unzip_eq_map, same,
            names.symm.trans names']
        rw [members]

/-! ## Documents that are alike -/

/-- Two documents that say the same, but for numbers: those in one place are related by `R`. -/
inductive Document.Alike (R : Literal → Literal → Prop) : Document α → Document α → Prop
  | null : Alike R .null .null
  | bool (b : Bool) : Alike R (.bool b) (.bool b)
  | number {l m : Literal} (number : R l m) : Alike R (.number l) (.number m)
  | string (x : α) : Alike R (.string x) (.string x)
  | array {ds es : List (Document α)} (items : List.Forall₂ (Alike R) ds es) :
      Alike R (.array ds) (.array es)
  | object {ms ns : List (α × Document α)} (names : ms.map Prod.fst = ns.map Prod.fst)
      (values : List.Forall₂ (Alike R) (ms.map Prod.snd) (ns.map Prod.snd)) :
      Alike R (.object ms) (.object ns)

/-- Documents that are alike repeat names alike. -/
theorem Document.Alike.noRepeats {d e : Document α} (alike : d.Alike R e) (noRepeats : d.NoRepeats) :
    e.NoRepeats := by
  induction d generalizing e with
  | null | bool | number | string =>
    cases alike
    constructor
  | array ds ih =>
    cases alike with
    | array items =>
      cases noRepeats with
      | array repeats =>
        refine .array fun e he => ?_
        obtain ⟨d, hd, here⟩ := exists_mem_of_forall₂ items he
        exact ih d hd here (repeats d hd)
  | object ms ih =>
    cases alike with
    | object names values =>
      cases noRepeats with
      | object distinct repeats =>
        refine .object (names ▸ distinct) fun n hn => ?_
        obtain ⟨d, hd, here⟩ := exists_mem_of_forall₂ values (List.mem_map_of_mem hn)
        obtain ⟨m, hm, rfl⟩ := List.mem_map.mp hd
        exact ih m hm here (repeats m hm)

/-- If each number that documents become can be spelled another way, each document can. -/
theorem exists_alike (spell : ∀ l n, N l n → ∃ m, R l m ∧ M m n) (means : Means N d v) :
    ∃ e, d.Alike R e ∧ Means M e v := by
  induction d generalizing v with
  | null =>
    cases means with
    | null => exact ⟨.null, .null, .null⟩
  | bool b =>
    cases means with
    | bool => exact ⟨.bool b, .bool b, .bool b⟩
  | number l =>
    cases means with
    | number number =>
      obtain ⟨m, related, number⟩ := spell _ _ number
      exact ⟨.number m, .number related, .number number⟩
  | string x =>
    cases means with
    | string => exact ⟨.string x, .string x, .string x⟩
  | array ds ih =>
    cases means with
    | array items =>
      obtain ⟨es, alike, items⟩ := exists_forall₂ (forall₂_imp_mem items fun d hd _ here => ih d hd here)
      exact ⟨.array es, .array alike, .array items⟩
  | object ms ih =>
    cases means with
    | @object _ vs names values =>
      have each : List.Forall₂ (fun d v => ∃ e, d.Alike R e ∧ Means M e v) (ms.map Prod.snd)
          (vs.map Prod.snd) := by
        refine forall₂_imp_mem values fun d hd v here => ?_
        obtain ⟨m, hm, rfl⟩ := List.mem_map.mp hd
        exact ih m hm here
      obtain ⟨es, alike, values⟩ := exists_forall₂ each
      have length : (ms.map Prod.fst).length = es.length := by
        rw [List.length_map, ← List.length_map (f := Prod.snd), alike.length_eq]
      have fst : ((ms.map Prod.fst).zip es).map Prod.fst = ms.map Prod.fst :=
        List.map_fst_zip length.le
      have snd : ((ms.map Prod.fst).zip es).map Prod.snd = es := List.map_snd_zip length.ge
      refine ⟨.object ((ms.map Prod.fst).zip es), .object fst.symm ?_, .object (fst.trans names) ?_⟩
      · rwa [snd]
      · rwa [snd]

/-! ## Objects with one number -/

/-- An object with one member that is a number becomes one with one member that is a number. -/
theorem means_member_iff {x : String} {l : Literal} :
    Means N (.object [(x, .number l)]) v ↔ ∃ n, v = .object [(x, .number n)] ∧ N l n := by
  constructor
  · intro means
    cases means with
    | @object _ vs names values =>
      cases vs with
      | nil => cases names
      | cons m vs =>
        obtain ⟨k, w⟩ := m
        obtain ⟨here, others⟩ := List.forall₂_cons.mp values
        obtain rfl : vs = [] := by simpa using others
        obtain rfl : x = k := by simpa using names
        cases here with
        | @number _ n number => exact ⟨n, rfl, number⟩
  · rintro ⟨n, rfl, number⟩
    have means : Means N (.object [(x, .number l)])
        (.object (Members.assignAll [] [(x, .number n)])) :=
      .object rfl (.cons (.number number) .nil)
    exact means

/-- An object with one member that is a number is like one with one member that is a number. -/
theorem alike_member_iff {x : α} {l : Literal} {e : Document α} :
    (Document.object [(x, .number l)]).Alike R e ↔ ∃ m, e = .object [(x, .number m)] ∧ R l m := by
  constructor
  · intro alike
    cases alike with
    | @object _ ns names values =>
      cases ns with
      | nil => cases names
      | cons n ns =>
        obtain ⟨k, f⟩ := n
        obtain ⟨here, others⟩ := List.forall₂_cons.mp values
        obtain rfl : ns = [] := by simpa using others
        obtain rfl : x = k := by simpa using names
        cases here with
        | @number _ m number => exact ⟨m, rfl, number⟩
  · rintro ⟨m, rfl, number⟩
    exact .object rfl (.cons (.number number) .nil)

end ObserverRelay.Json
