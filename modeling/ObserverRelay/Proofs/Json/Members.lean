import ObserverRelay.Proofs.Json.Distinct
import Mathlib.Data.List.Basic
/-!
# What becomes of the members of an object

Assigning several members at once and removing one, each as a list in closed form. Where names
are not repeated, assigning changes the members that are there in place and adds the others in
order at the end. Removing a member moves the last one into the gap.

## Main statements

* `assignAll_eq`: the members after assigning many.
* `filter_assignAll`: members of certain names among them.
* `removed_remove`: the members after removing one.
-/
namespace ObserverRelay.Json.Members

variable {name : String} {v : Value} {ms more out : Members}

theorem get?_eq_none_iff : get? name ms = none ↔ name ∉ names ms := by
  induction ms with
  | nil => simp [get?, names]
  | cons m ms ih =>
    obtain ⟨k, w⟩ := m
    by_cases h : k = name
    · simp [get?, names, h]
    · simp only [names] at ih
      simp [get?, names, h, Ne.symm h, ih]

theorem mem_of_get? (h : get? name ms = some v) : (name, v) ∈ ms := by
  induction ms with
  | nil => cases h
  | cons m ms ih =>
    obtain ⟨k, w⟩ := m
    rw [get?] at h
    split at h
    next same =>
      cases h
      exact same ▸ List.mem_cons_self
    next => exact List.mem_cons_of_mem _ (ih h)

theorem assign_of_not_mem (fresh : name ∉ names ms) (v : Value) :
    assign name v ms = ms ++ [(name, v)] := by
  induction ms with
  | nil => rfl
  | cons m ms ih =>
    obtain ⟨k, w⟩ := m
    simp only [names, List.map_cons, List.mem_cons, not_or] at fresh
    rw [assign, if_neg (Ne.symm fresh.1), ih fresh.2, List.cons_append]

theorem assign_of_mem (distinct : (names ms).Nodup) (there : name ∈ names ms) (v : Value) :
    assign name v ms = ms.map fun m => (m.1, if m.1 = name then v else m.2) := by
  induction ms with
  | nil => simp [names] at there
  | cons m ms ih =>
    obtain ⟨k, w⟩ := m
    simp only [names, List.map_cons, List.nodup_cons, List.mem_cons] at distinct there
    by_cases same : k = name
    · subst same
      have others : ms.map (fun m => (m.1, if m.1 = k then v else m.2)) = ms := by
        refine (List.map_congr_left fun m hm => ?_).trans (List.map_id ms)
        have other : m.1 ≠ k := by
          rintro rfl
          exact distinct.1 (List.mem_map_of_mem hm)
        simp [other]
      simp [assign, others]
    · have rest : name ∈ names ms := there.resolve_left (Ne.symm same)
      simp [assign, same, ih distinct.2 rest]

/-- Assigning a member does not matter to those of other names. -/
theorem filter_assign (p : String → Bool) (name : String) (v : Value) (ms : Members) :
    (assign name v ms).filter (fun m => p m.1) =
      if p name then assign name v (ms.filter fun m => p m.1) else ms.filter fun m => p m.1 := by
  induction ms with
  | nil => cases h : p name <;> simp [assign, h]
  | cons m ms ih =>
    obtain ⟨k, w⟩ := m
    by_cases same : k = name
    · subst same
      cases h : p k <;> simp [assign, h]
    · cases h : p k <;> cases h' : p name <;> simp_all [assign]

/-- Which members are kept may be decided before they are assigned. -/
theorem filter_assignAll (p : String → Bool) (ms more : Members) :
    (assignAll ms more).filter (fun m => p m.1) =
      assignAll (ms.filter fun m => p m.1) (more.filter fun m => p m.1) := by
  induction more generalizing ms with
  | nil => rfl
  | cons n more ih =>
    obtain ⟨k, w⟩ := n
    have step : assignAll ms ((k, w) :: more) = assignAll (assign k w ms) more := rfl
    rw [step, ih, filter_assign]
    cases h : p k <;> simp [h, assignAll]

theorem mem_assignAll {m : String × Value} (h : m ∈ assignAll ms more) : m ∈ ms ∨ m ∈ more := by
  induction more generalizing ms with
  | nil => exact .inl h
  | cons n more ih =>
    rcases ih h with old | new
    · rcases mem_assign old with rfl | old
      · exact .inr List.mem_cons_self
      · exact .inl old
    · exact .inr (List.mem_cons_of_mem n new)

/-- Assigning many members changes those that are there in place and adds the others in order. -/
theorem assignAll_eq (distinct : (names ms).Nodup) (distinct' : (names more).Nodup) :
    assignAll ms more = (ms.map fun m => (m.1, (get? m.1 more).getD m.2)) ++
      more.filter fun m => m.1 ∉ names ms := by
  -- Each assignment is made on what the ones before it have left, so the members vary.
  induction more generalizing ms with
  | nil => simp [assignAll, get?]
  | cons n more ih =>
    obtain ⟨k, w⟩ := n
    simp only [names, List.map_cons, List.nodup_cons] at distinct'
    obtain ⟨once, distinct'⟩ := distinct'
    have single : get? k more = none := get?_eq_none_iff.mpr once
    have step : assignAll ms ((k, w) :: more) = assignAll (assign k w ms) more := rfl
    rw [step, ih (nodup_assign distinct k w) distinct', names_assign]
    by_cases there : k ∈ names ms
    · rw [assign_of_mem distinct there, if_pos there, List.map_map,
        List.filter_cons_of_neg (by simpa using there)]
      congr 1
      refine List.map_congr_left fun m _ => ?_
      by_cases same : m.1 = k
      · simp [get?, same, single]
      · simp [get?, same, Ne.symm same]
    · rw [assign_of_not_mem there, if_neg there, List.map_append, List.append_assoc,
        List.filter_cons_of_pos (by simpa using there)]
      congr 1
      · refine List.map_congr_left fun m hm => ?_
        have other : k ≠ m.1 := by
          rintro rfl
          exact there (List.mem_map_of_mem hm)
        simp [get?, other]
      · have kept : (more.filter fun m => m.1 ∉ names ms ++ [k]) =
            more.filter fun m => m.1 ∉ names ms := by
          refine List.filter_congr fun m hm => ?_
          have other : m.1 ≠ k := by
            rintro rfl
            exact once (List.mem_map_of_mem hm)
          simp [other]
        rw [kept]
        simp [single]

/-- The members without one: those before it, and the last one in its place. -/
inductive Removed (name : String) : Members → Members → Prop
  | absent {ms : Members} (absent : name ∉ names ms) : Removed name ms ms
  | last (pre : Members) (v : Value) : Removed name (pre ++ [(name, v)]) pre
  | moved (pre mid : Members) (v : Value) (final : String × Value) :
      Removed name (pre ++ (name, v) :: (mid ++ [final])) (pre ++ final :: mid)

theorem exists_first (there : name ∈ names ms) :
    ∃ pre v post, ms = pre ++ (name, v) :: post ∧ name ∉ names pre := by
  induction ms with
  | nil => simp [names] at there
  | cons m ms ih =>
    obtain ⟨k, w⟩ := m
    by_cases same : k = name
    · exact ⟨[], w, ms, by rw [same]; rfl, by simp [names]⟩
    · simp only [names, List.map_cons, List.mem_cons] at there
      obtain ⟨pre, v, post, rfl, before⟩ := ih (there.resolve_left (Ne.symm same))
      refine ⟨(k, w) :: pre, v, post, rfl, ?_⟩
      simp only [names, List.map_cons, List.mem_cons, not_or]
      exact ⟨Ne.symm same, before⟩

theorem findIdx?_first {pre : Members} (before : name ∉ names pre) (v : Value) (post : Members) :
    (pre ++ (name, v) :: post).findIdx? (fun m => m.1 = name) = some pre.length := by
  have none : pre.findIdx? (fun m => m.1 = name) = none := by
    rw [List.findIdx?_eq_none_iff]
    intro m hm
    simp only [decide_eq_false_iff_not]
    rintro rfl
    exact before (List.mem_map_of_mem hm)
  rw [List.findIdx?_append, none]
  simp [List.findIdx?_cons]

theorem removed_remove (name : String) (ms : Members) : Removed name ms (remove name ms) := by
  by_cases there : name ∈ names ms
  · obtain ⟨pre, v, post, rfl, before⟩ := exists_first there
    have place := findIdx?_first before v post
    rcases List.eq_nil_or_concat' post with rfl | ⟨mid, final, rfl⟩
    · have gone : remove name (pre ++ [(name, v)]) = pre := by
        simp [remove, place]
      rw [gone]
      exact .last pre v
    · have gone : remove name (pre ++ (name, v) :: (mid ++ [final])) = pre ++ final :: mid := by
        have last : (pre ++ (name, v) :: (mid ++ [final])).getLast? = some final := by
          rw [← List.cons_append, ← List.append_assoc, List.getLast?_concat]
        simp only [remove, place, last]
        rw [List.set_append_right _ _ (Nat.le_refl _), Nat.sub_self, List.set_cons_zero,
          ← List.cons_append, ← List.append_assoc, List.dropLast_concat]
      rw [gone]
      exact .moved pre mid v final
  · rw [remove_of_not_mem there]
    exact .absent there

theorem Removed.perm (h : Removed name ms out) :
    name ∉ names ms ∧ out = ms ∨ ∃ v, ms.Perm ((name, v) :: out) := by
  cases h with
  | absent absent => exact .inl ⟨absent, rfl⟩
  | last _ v => exact .inr ⟨v, List.perm_append_singleton (name, v) out⟩
  | moved pre mid v final =>
    have swapped : (pre ++ (mid ++ [final])).Perm (pre ++ final :: mid) :=
      (List.perm_append_singleton final mid).append_left pre
    exact .inr ⟨v, List.perm_middle.trans (swapped.cons (name, v))⟩

/-- What is left holds no name twice, the removed one not at all. -/
theorem Removed.nodup (h : Removed name ms out) (distinct : (names ms).Nodup) :
    (name :: names out).Nodup := by
  rcases h.perm with ⟨absent, rfl⟩ | ⟨v, perm⟩
  · exact List.nodup_cons.mpr ⟨absent, distinct⟩
  · exact (perm.map Prod.fst).nodup_iff.mp distinct

theorem Removed.mem (h : Removed name ms out) {m : String × Value} (hm : m ∈ out) : m ∈ ms := by
  rcases h.perm with ⟨-, rfl⟩ | ⟨v, perm⟩
  · exact hm
  · exact perm.mem_iff.mpr (List.mem_cons_of_mem _ hm)

theorem Removed.distinct (h : Removed name ms out) (distinct : (Value.object ms).Distinct) :
    (Value.object out).Distinct := by
  obtain ⟨names, members⟩ := Value.Distinct.object_iff.mp distinct
  exact .object (List.nodup_cons.mp (h.nodup names)).2 fun m hm => members m (h.mem hm)

end ObserverRelay.Json.Members
