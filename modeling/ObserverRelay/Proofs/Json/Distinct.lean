import ObserverRelay.Json.Reader
import Mathlib.Data.List.Nodup
/-!
# Values without repeated names

A reader of values assigns the members of an object one after the other, so no object that it
builds holds a name twice, however often a text names it. What the loops over items and members
keep is stated for any reader of one item or member.

## Main statements

* `itemLoop_keeps`, `memberLoop_keeps`: what each step keeps, a loop keeps.
* `distinct_of_parse`: no object of a value that was read repeats a name.
-/
namespace ObserverRelay.Json

variable {σ : Type}

/-! ## What the loops keep -/

theorem itemLoop_keeps {P : σ → Prop} {step : Nat → σ → Reader σ}
    (keeps : ∀ index state u r, P state → step index state u = .ok r → P r.value) {s t : Bytes}
    {index : Nat} {state : σ} {h : t.length ≤ s.length} {r : Taken s σ} (start : P state)
    (read : itemLoop step s index state t h = .ok r) : P r.value := by
  fun_induction itemLoop step s index state t h with
  | case1 => cases read
  | case2 =>
    cases read
    exact start
  | case3 => cases read
  | case4 index state t h u hu next state' v hv taken ih =>
    exact ih (keeps _ _ _ _ start taken) read

theorem memberLoop_keeps {P : σ → Prop} {check : String → σ → Option Cause}
    {step : String → σ → Reader σ}
    (keeps : ∀ name state u r, P state → step name state u = .ok r → P r.value) {s t : Bytes}
    {first : Bool} {state : σ} {h : t.length ≤ s.length} {r : Taken s σ} (start : P state)
    (read : memberLoop check step s first state t h = .ok r) : P r.value := by
  fun_induction memberLoop check step s first state t h with
  | case1 => cases read
  | case2 =>
    cases read
    exact start
  | case3 => cases read
  | case4 => cases read
  | case5 => cases read
  | case6 => cases read
  | case7 first state t h u hu next name v hv key ok w hw colon state' x hx taken ih =>
    exact ih (keeps _ _ _ _ start taken) read

/-! ## Taken values -/

section Taken
variable {α β : Type} {s t : Bytes}

theorem Outcome.value_of_weaken {o : Outcome t α} {h : t.length ≤ s.length} {r : Taken s α}
    (taken : o.weaken h = .ok r) : ∃ q, o = .ok q ∧ r.value = q.value := by
  cases o with
  | error e => cases taken
  | ok q =>
    cases taken
    exact ⟨q, rfl, rfl⟩

theorem Outcome.value_of_within {o : Outcome t α} {h : t.length < s.length} {r : Taken s α}
    (taken : o.within h = .ok r) : ∃ q, o = .ok q ∧ r.value = q.value :=
  Outcome.value_of_weaken taken

theorem Outcome.value_of_map {o : Outcome s α} {f : α → β} {r : Taken s β}
    (taken : o.map f = .ok r) : ∃ q, o = .ok q ∧ r.value = f q.value := by
  cases o with
  | error e => cases taken
  | ok q =>
    cases taken
    exact ⟨q, rfl, rfl⟩

theorem value_of_readWord {word : Bytes} {value : α} {b : UInt8} {r : Taken (b :: t) α}
    (taken : readWord word value b t = .ok r) : r.value = value := by
  rw [readWord] at taken
  split at taken
  next => cases taken
  next =>
    cases taken
    rfl

end Taken

/-! ## Names -/

namespace Members

theorem mem_assign {name : String} {v : Value} {ms : Members} {m : String × Value}
    (h : m ∈ assign name v ms) : m = (name, v) ∨ m ∈ ms := by
  induction ms with
  | nil =>
    rw [assign, List.mem_singleton] at h
    exact .inl h
  | cons n ms ih =>
    obtain ⟨k, w⟩ := n
    rw [assign] at h
    split at h
    next same =>
      subst same
      rcases List.mem_cons.mp h with rfl | rest
      · exact .inl rfl
      · exact .inr (List.mem_cons_of_mem _ rest)
    next =>
      rcases List.mem_cons.mp h with rfl | rest
      · exact .inr List.mem_cons_self
      · exact (ih rest).imp_right (List.mem_cons_of_mem _)

theorem nodup_assign {ms : Members} (h : (names ms).Nodup) (name : String) (v : Value) :
    (names (assign name v ms)).Nodup := by
  rw [names_assign]
  split
  next => exact h
  next fresh => exact h.append (List.nodup_singleton name) (by simpa using fresh)

end Members

/-- No object in the value holds a name twice. -/
inductive Value.Distinct : Value → Prop
  | null : Distinct .null
  | bool (b : Bool) : Distinct (.bool b)
  | number (n : Number) : Distinct (.number n)
  | string (x : String) : Distinct (.string x)
  | array {xs : List Value} (items : ∀ x ∈ xs, Distinct x) : Distinct (.array xs)
  | object {ms : Members} (names : (Members.names ms).Nodup) (members : ∀ m ∈ ms, Distinct m.2) :
      Distinct (.object ms)

namespace Value.Distinct
variable {name : String} {v : Value} {ms : Members}

theorem object_iff :
    (Value.object ms).Distinct ↔ (Members.names ms).Nodup ∧ ∀ m ∈ ms, m.2.Distinct := by
  constructor
  · intro h
    cases h with
    | object names members => exact ⟨names, members⟩
  · rintro ⟨names, members⟩
    exact .object names members

theorem empty : (Value.object []).Distinct := .object List.nodup_nil (by simp)

theorem assign (h : (Value.object ms).Distinct) (name : String) (hv : v.Distinct) :
    (Value.object (Members.assign name v ms)).Distinct := by
  obtain ⟨names, members⟩ := object_iff.mp h
  refine .object (Members.nodup_assign names name v) fun m hm => ?_
  rcases Members.mem_assign hm with rfl | old
  · exact hv
  · exact members m old

theorem cons (fresh : name ∉ Members.names ms) (hv : v.Distinct) (h : (Value.object ms).Distinct) :
    (Value.object ((name, v) :: ms)).Distinct := by
  obtain ⟨names, members⟩ := object_iff.mp h
  exact .object (List.nodup_cons.mpr ⟨fresh, names⟩) (List.forall_mem_cons.mpr ⟨hv, members⟩)

theorem filter (h : (Value.object ms).Distinct) (p : String × Value → Bool) :
    (Value.object (ms.filter p)).Distinct := by
  obtain ⟨names, members⟩ := object_iff.mp h
  exact .object (names.sublist (List.filter_sublist.map Prod.fst))
    fun m hm => members m (List.mem_of_mem_filter hm)

end Value.Distinct

theorem distinct_of_readValueItems {item : Reader Value}
    (items : ∀ s r, item s = .ok r → r.value.Distinct) {s : Bytes} {r : Taken s (List Value)}
    (read : readValueItems item s = .ok r) : ∀ v ∈ r.value, v.Distinct := by
  obtain ⟨q, taken, value⟩ := Outcome.value_of_map read
  have all : ∀ v ∈ q.value, v.Distinct := by
    refine itemLoop_keeps (P := fun vs => ∀ v ∈ vs, Value.Distinct v) ?_ (by simp) taken
    intro index done u r' before step
    obtain ⟨p, here, last⟩ := Outcome.value_of_map step
    rw [last]
    simp only [List.forall_mem_cons]
    exact ⟨items u p here, before⟩
  intro v hv
  rw [value, List.mem_reverse] at hv
  exact all v hv

theorem distinct_of_readValueMembers {value : Reader Value}
    (values : ∀ s r, value s = .ok r → r.value.Distinct) {s : Bytes} {r : Taken s Members}
    (read : readValueMembers value s = .ok r) : (Value.object r.value).Distinct := by
  refine memberLoop_keeps (P := fun ms => (Value.object ms).Distinct) ?_ .empty read
  intro name done u r' before step
  obtain ⟨p, here, last⟩ := Outcome.value_of_map step
  rw [last]
  exact before.assign name (values u p here)

/-- What a reader of values finds: a scalar, or a list or object whose parts are read one level
deeper. -/
inductive ReadAs (depth : Nat) : Value → Prop
  | null : ReadAs depth .null
  | bool (b : Bool) : ReadAs depth (.bool b)
  | number (n : Number) : ReadAs depth (.number n)
  | string (x : String) : ReadAs depth (.string x)
  | array {inner : Nat} {t : Bytes} {q : Taken t (List Value)} (deeper : depth = inner + 1)
      (items : readValueItems (readValue inner) t = .ok q) : ReadAs depth (.array q.value)
  | object {inner : Nat} {t : Bytes} {q : Taken t Members} (deeper : depth = inner + 1)
      (members : readValueMembers (readValue inner) t = .ok q) : ReadAs depth (.object q.value)

theorem readAs_of_readValue {depth : Nat} {s : Bytes} {r : Taken s Value}
    (read : readValue depth s = .ok r) : ReadAs depth r.value := by
  rw [readValue] at read
  split at read
  next => cases read
  next b t h looked =>
    split at read
    next =>
      obtain ⟨q, word, value⟩ := Outcome.value_of_weaken read
      rw [value, value_of_readWord word]
      exact .null
    split at read
    next =>
      obtain ⟨q, word, value⟩ := Outcome.value_of_weaken read
      rw [value, value_of_readWord word]
      exact .bool true
    split at read
    next =>
      obtain ⟨q, word, value⟩ := Outcome.value_of_weaken read
      rw [value, value_of_readWord word]
      exact .bool false
    split at read
    next =>
      obtain ⟨q, mapped, value⟩ := Outcome.value_of_weaken read
      obtain ⟨n, -, number⟩ := Outcome.value_of_map mapped
      rw [value, number]
      exact .number n.value
    split at read
    next =>
      obtain ⟨q, mapped, value⟩ := Outcome.value_of_within read
      obtain ⟨x, -, string⟩ := Outcome.value_of_map mapped
      rw [value, string]
      exact .string x.value
    split at read
    next =>
      split at read
      next => cases read
      next inner =>
        obtain ⟨q, mapped, value⟩ := Outcome.value_of_within read
        obtain ⟨xs, items, array⟩ := Outcome.value_of_map mapped
        rw [value, array]
        exact .array rfl items
    split at read
    next =>
      split at read
      next => cases read
      next inner =>
        obtain ⟨q, mapped, value⟩ := Outcome.value_of_within read
        obtain ⟨ms, members, object⟩ := Outcome.value_of_map mapped
        rw [value, object]
        exact .object rfl members
    next => cases read

theorem distinct_of_readValue {depth : Nat} {s : Bytes} {r : Taken s Value}
    (read : readValue depth s = .ok r) : r.value.Distinct := by
  -- The parts of a list or object are read with one level less to go.
  induction depth using Nat.strongRecOn generalizing s with
  | ind depth ih =>
    have found := readAs_of_readValue read
    generalize r.value = v at found
    cases found with
    | null => exact .null
    | bool b => exact .bool b
    | number n => exact .number n
    | string x => exact .string x
    | @array inner _ _ deeper items =>
      exact .array (distinct_of_readValueItems (fun _ _ => ih inner (by omega)) items)
    | @object inner _ _ deeper members =>
      exact distinct_of_readValueMembers (fun _ _ => ih inner (by omega)) members

/-- No object of a value that was read repeats a name. -/
theorem distinct_of_parse {s : Bytes} {v : Value} (parsed : Value.parse s = .ok v) : v.Distinct := by
  unfold Value.parse readWhole at parsed
  split at parsed
  next => cases parsed
  next r read =>
    split at parsed
    next => cases parsed
    next =>
      cases parsed
      exact distinct_of_readValue read

end ObserverRelay.Json
