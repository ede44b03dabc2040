import ObserverRelay.Proofs.Json.ReadBack
/-!
# Members with one name

Members are assigned one after the other. What is left of them is one member for each name, at the
place where the name came first and with the value that came last. So a value restates a document
without mention of how it was made.

## Main statements

* `inFirstOrder_assignAll`: the names that are left, in order.
* `get?_assignAll`: the value that is left for a name.
* `Means.restates`: what a document with integers means restates it.
-/
namespace ObserverRelay.Json

variable {α β : Type}

/-- Names without repeats, in the order in which they come first. -/
structure InFirstOrder (all : List String) (names : List String) : Prop where
  mem_iff : ∀ x, x ∈ names ↔ x ∈ all
  order : names.Pairwise fun x y => all.idxOf x < all.idxOf y

/-- A value restates a document: it has the same strings, the same numbers, the same items, and of
the members with one name the last one, where the first one was. -/
inductive Restates : Document String → Value → Prop
  | null : Restates .null .null
  | bool (b : Bool) : Restates (.bool b) (.bool b)
  | number {l : Literal} {n : Int} (same : l.value = n) : Restates (.number l) (.ofInt n)
  | string (x : String) : Restates (.string x) (.string x)
  | array {ds : List (Document String)} {vs : List Value} (items : List.Forall₂ Restates ds vs) :
      Restates (.array ds) (.array vs)
  | object {ms : List (String × Document String)} {vs : Members}
      (names : InFirstOrder (ms.map Prod.fst) (Members.names vs))
      (values : ∀ name d v, ms.reverse.lookup name = some d → Members.get? name vs = some v →
        Restates d v) :
      Restates (.object ms) (.object vs)

/-! ## Names -/

theorem InFirstOrder.nodup {all names : List String} (h : InFirstOrder all names) : names.Nodup :=
  h.order.imp fun less same => by
    subst same
    exact absurd less (lt_irrefl _)

/-- A name that is not new changes nothing, a new one is the last. -/
theorem InFirstOrder.concat {all names : List String} (h : InFirstOrder all names) (x : String) :
    InFirstOrder (all ++ [x]) (if x ∈ names then names else names ++ [x]) := by
  have kept {y : String} (mem : y ∈ names) : (all ++ [x]).idxOf y = all.idxOf y :=
    List.idxOf_append_of_mem ((h.mem_iff y).mp mem)
  have order : names.Pairwise fun y z => (all ++ [x]).idxOf y < (all ++ [x]).idxOf z := by
    refine h.order.imp_of_mem fun hy hz less => ?_
    rwa [kept hy, kept hz]
  split_ifs with there
  · refine ⟨fun y => ?_, order⟩
    rw [h.mem_iff, List.mem_append, List.mem_singleton]
    constructor
    · exact .inl
    · rintro (old | rfl)
      · exact old
      · exact (h.mem_iff y).mp there
  · have absent : x ∉ all := mt (h.mem_iff x).mpr there
    refine ⟨fun y => ?_, List.pairwise_append.mpr ⟨order, List.pairwise_singleton _ _, ?_⟩⟩
    · rw [List.mem_append, List.mem_append, h.mem_iff]
    · intro y hy z hz
      obtain rfl := List.mem_singleton.mp hz
      rw [kept hy, List.idxOf_append_of_notMem absent]
      exact Nat.lt_add_right _ (List.idxOf_lt_length_of_mem ((h.mem_iff y).mp hy))

theorem assignAll_concat (ms more : Members) (m : String × Value) :
    Members.assignAll ms (more ++ [m]) = Members.assign m.1 m.2 (Members.assignAll ms more) := by
  rw [Members.assignAll, List.foldl_append]
  rfl

theorem inFirstOrder_assignAll (ms : Members) :
    InFirstOrder (Members.names ms) (Members.names (Members.assignAll [] ms)) := by
  induction ms using List.reverseRecOn with
  | nil => exact ⟨fun _ => .rfl, .nil⟩
  | append_singleton ms m ih =>
    have names : Members.names (ms ++ [m]) = Members.names ms ++ [m.1] := List.map_append
    rw [assignAll_concat, Members.names_assign, names]
    exact ih.concat m.1

/-! ## Values -/

theorem get?_assignAll (name : String) (ms : Members) :
    Members.get? name (Members.assignAll [] ms) = ms.reverse.lookup name := by
  induction ms using List.reverseRecOn with
  | nil => rfl
  | append_singleton ms m ih =>
    rw [assignAll_concat, List.reverse_append, List.reverse_singleton, List.singleton_append,
      List.lookup_cons]
    by_cases same : name = m.1
    · subst same
      simp
    · rw [Members.get?_assign_of_ne same, ih, beq_false_of_ne same]

/-- Members of the same names that are related one by one are related where they are looked up. -/
theorem related_of_lookup {R : α → β → Prop} {xs : List (String × α)} {ys : List (String × β)}
    (names : xs.map Prod.fst = ys.map Prod.fst)
    (related : List.Forall₂ R (xs.map Prod.snd) (ys.map Prod.snd)) {name : String} {x : α} {y : β}
    (hx : xs.lookup name = some x) (hy : ys.lookup name = some y) : R x y := by
  induction xs generalizing ys with
  | nil => cases hx
  | cons m xs ih =>
    cases ys with
    | nil => cases hy
    | cons n ys =>
      obtain ⟨k, v⟩ := m
      obtain ⟨k', w⟩ := n
      obtain ⟨rfl, names'⟩ := List.cons.inj names
      obtain ⟨here, related⟩ := List.forall₂_cons.mp related
      rw [List.lookup_cons] at hx hy
      by_cases same : name = k
      · subst same
        simp only [BEq.rfl] at hx hy
        cases hx
        cases hy
        exact here
      · rw [beq_false_of_ne same] at hx hy
        exact ih names' related hx hy

/-! ## Documents -/

theorem Literal.Integral.value_eq {l : Literal} (integral : l.Integral) : l.value = l.integer := by
  rw [Literal.value_eq, integral.significand_eq, scale, integral.noFraction, integral.noExponent,
    signFactor, integer]
  split_ifs <;> simp

theorem Means.restates {d : Document String} {v : Value} (means : Means Becomes d v)
    (integral : d.Integral) : Restates d v := by
  induction d generalizing v with
  | null =>
    cases means
    exact .null
  | bool b =>
    cases means
    exact .bool b
  | number l =>
    cases means with
    | number becomes =>
      cases integral with
      | number integral =>
        rw [integral.eq_of_becomes becomes]
        exact .number integral.value_eq
  | string x =>
    cases means
    exact .string x
  | array ds ih =>
    cases means with
    | array items =>
      cases integral with
      | array inner =>
        exact .array (forall₂_imp_mem items fun d mem v here => ih d mem here (inner d mem))
  | object ms ih =>
    cases means with
    | @object _ vs names values =>
      cases integral with
      | object inner =>
        have restated : List.Forall₂ Restates (ms.reverse.map Prod.snd) (vs.reverse.map Prod.snd) := by
          rw [List.map_reverse, List.map_reverse, List.forall₂_reverse_iff]
          refine forall₂_imp_mem values fun d mem v here => ?_
          obtain ⟨m, mem', rfl⟩ := List.mem_map.mp mem
          exact ih m mem' here (inner m mem')
        have names' : ms.reverse.map Prod.fst = vs.reverse.map Prod.fst := by
          rw [List.map_reverse, List.map_reverse, names]
        refine .object ?_ fun name d v last got => ?_
        · rw [names]
          exact inFirstOrder_assignAll vs
        · rw [get?_assignAll] at got
          exact related_of_lookup names' restated last got

/-- What a document means repeats no name. -/
theorem Means.distinct {N : Literal → Number → Prop} {d : Document String} {v : Value}
    (means : Means N d v) : v.Distinct := by
  induction d generalizing v with
  | null =>
    cases means
    exact .null
  | bool b =>
    cases means
    exact .bool b
  | number l =>
    cases means
    exact .number _
  | string x =>
    cases means
    exact .string x
  | array ds ih =>
    cases means with
    | array items =>
      refine .array fun v mem => ?_
      obtain ⟨d, mem', here⟩ := exists_mem_of_forall₂ items mem
      exact ih d mem' here
  | object ms ih =>
    cases means with
    | @object _ vs names values =>
      exact .object (inFirstOrder_assignAll vs).nodup
        (forall_mem_assignAll_of_means values fun m mem v here => ih m mem here)

end ObserverRelay.Json
