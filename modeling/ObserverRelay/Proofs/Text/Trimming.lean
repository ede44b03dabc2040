import ObserverRelay.Text.Blank
import Mathlib.Data.List.DropRight
/-!
# Trimmed lists

What is left when members of a class are taken off the ends of a list. A list without such members
at its ends stays as it is. What stands behind a list changes nothing of what is left of it. Of a
text this is what stands between the white space at its ends, and a given ending is taken off it
exactly if it has this ending.
-/
namespace ObserverRelay.Text

variable {α : Type} {p : α → Bool} {xs ys : List α} {c : α}

/-- The first member, if there is one, is not of the class. -/
def StartsOutside (p : α → Bool) (xs : List α) : Prop := ∀ c rest, xs = c :: rest → p c = false

/-- The last member, if there is one, is not of the class. -/
def EndsOutside (p : α → Bool) (xs : List α) : Prop := ∀ front c, xs = front ++ [c] → p c = false

/-! ## Leading members -/

theorem startsOutside_of_head? (first : xs.head? = some c) (outside : p c = false) :
    StartsOutside p xs := by
  intro d rest whole
  rw [whole, List.head?_cons] at first
  cases first
  exact outside

theorem startsOutside_dropWhile (p : α → Bool) (xs : List α) :
    StartsOutside p (xs.dropWhile p) := by
  rintro c rest first
  have outside := List.head?_dropWhile_not p xs
  rw [first] at outside
  exact outside

theorem StartsOutside.dropWhile_eq (starts : StartsOutside p xs) : xs.dropWhile p = xs := by
  cases xs with
  | nil => rfl
  | cons c rest => simp [starts c rest rfl]

/-- Where leading members stop within a list, it does not matter what follows it. -/
theorem dropWhile_append_of_stops (stops : xs.dropWhile p ≠ []) (ys : List α) :
    (xs ++ ys).dropWhile p = xs.dropWhile p ++ ys := by
  rw [List.dropWhile_append, if_neg (by simpa using stops)]

theorem takeWhile_append_of_stops (stops : xs.dropWhile p ≠ []) (ys : List α) :
    (xs ++ ys).takeWhile p = xs.takeWhile p := by
  have parts : xs.takeWhile p ++ xs.dropWhile p = xs := List.takeWhile_append_dropWhile
  have shorter : (xs.takeWhile p).length ≠ xs.length := by
    have lengths := congrArg List.length parts
    have positive := List.length_pos_of_ne_nil stops
    rw [List.length_append] at lengths
    omega
  rw [List.takeWhile_append, if_neg shorter]

/-! ## Trailing members -/

theorem endsOutside_of_getLast? (last : xs.getLast? = some c) (outside : p c = false) :
    EndsOutside p xs := by
  intro front d whole
  rw [whole, List.getLast?_concat] at last
  cases last
  exact outside

theorem dropTrailing_concat (p : α → Bool) (xs : List α) (c : α) :
    dropTrailing p (xs ++ [c]) = if p c then dropTrailing p xs else xs ++ [c] :=
  List.rdropWhile_concat p xs c

theorem sublist_dropTrailing (p : α → Bool) (xs : List α) : (dropTrailing p xs).Sublist xs :=
  (List.rdropWhile_prefix p xs).sublist

/-- Only members of the class are taken off. -/
theorem exists_eq_dropTrailing_append (p : α → Bool) (xs : List α) :
    ∃ tail, xs = dropTrailing p xs ++ tail ∧ ∀ c ∈ tail, p c = true :=
  ⟨xs.rtakeWhile p, List.rdropWhile_append_rtakeWhile.symm, fun _ => List.mem_rtakeWhile_imp⟩

theorem endsOutside_dropTrailing (p : α → Bool) (xs : List α) :
    EndsOutside p (dropTrailing p xs) := by
  induction xs using List.reverseRecOn with
  | nil =>
    intro front c last
    simp [dropTrailing] at last
  | append_singleton xs d ih =>
    rw [dropTrailing_concat]
    split
    next => exact ih
    next outside =>
      intro front c last
      obtain ⟨-, rfl⟩ := List.append_singleton_inj.mp last
      simpa using outside

theorem EndsOutside.dropTrailing_eq (ends : EndsOutside p xs) : dropTrailing p xs = xs := by
  induction xs using List.reverseRecOn with
  | nil => rfl
  | append_singleton xs c => simp [dropTrailing_concat, ends xs c rfl]

theorem dropTrailing_append_of_forall (inside : ∀ c ∈ ys, p c = true) (xs : List α) :
    dropTrailing p (xs ++ ys) = dropTrailing p xs := by
  induction ys using List.reverseRecOn with
  | nil => rw [List.append_nil]
  | append_singleton ys c ih =>
    obtain ⟨others, last⟩ := List.forall_mem_append.mp inside
    rw [← List.append_assoc, dropTrailing_concat, if_pos (last c List.mem_cons_self), ih others]

/-- What follows a list is trimmed only behind it. -/
theorem exists_dropTrailing_append (p : α → Bool) (xs ys : List α) :
    ∃ tail, dropTrailing p (xs ++ ys) = dropTrailing p xs ++ tail ∧
      ∀ c ∈ tail, p c = true ∨ c ∈ ys := by
  induction ys using List.reverseRecOn with
  | nil => exact ⟨[], by simp, List.forall_mem_nil _⟩
  | append_singleton ys c ih =>
    rw [← List.append_assoc, dropTrailing_concat]
    split
    next =>
      obtain ⟨tail, same, each⟩ := ih
      exact ⟨tail, same, fun d mem => (each d mem).imp_right fun old => by simp [old]⟩
    next =>
      obtain ⟨dropped, whole, inside⟩ := exists_eq_dropTrailing_append p xs
      refine ⟨dropped ++ (ys ++ [c]), ?_, fun d mem => ?_⟩
      · rw [← List.append_assoc, ← whole, List.append_assoc]
      · exact (List.mem_append.mp mem).imp_left (inside d)

/-- Taking members off the end leaves the first one, or nothing. -/
theorem StartsOutside.dropTrailing {q : α → Bool} (starts : StartsOutside p xs) :
    StartsOutside p (dropTrailing q xs) := by
  intro c rest first
  obtain ⟨tail, whole, -⟩ := exists_eq_dropTrailing_append q xs
  rw [first, List.cons_append] at whole
  exact starts c (rest ++ tail) whole

/-! ## Both ends -/

theorem startsOutside_trimList (p : α → Bool) (xs : List α) : StartsOutside p (trimList p xs) :=
  (startsOutside_dropWhile p xs).dropTrailing

theorem endsOutside_trimList (p : α → Bool) (xs : List α) : EndsOutside p (trimList p xs) :=
  endsOutside_dropTrailing p (xs.dropWhile p)

theorem sublist_trimList (p : α → Bool) (xs : List α) : (trimList p xs).Sublist xs :=
  (sublist_dropTrailing p _).trans (List.dropWhile_sublist p)

theorem trimList_of_startsOutside (starts : StartsOutside p xs) :
    trimList p xs = dropTrailing p xs := by
  rw [trimList, starts.dropWhile_eq]

theorem exists_trimList_append (p : α → Bool) (xs ys : List α) :
    ∃ tail, trimList p (xs ++ ys) = trimList p xs ++ tail ∧ ∀ c ∈ tail, p c = true ∨ c ∈ ys := by
  rw [trimList, trimList]
  by_cases none : xs.dropWhile p = []
  · rw [List.dropWhile_append_of_pos (List.dropWhile_eq_nil_iff.mp none), none]
    refine ⟨dropTrailing p (ys.dropWhile p), rfl, fun c mem => .inr ?_⟩
    exact (List.dropWhile_sublist p).mem ((sublist_dropTrailing p _).mem mem)
  · rw [dropWhile_append_of_stops none]
    exact exists_dropTrailing_append p (xs.dropWhile p) ys

/-- What is taken off both ends is of the class. -/
theorem exists_eq_append_trimList (p : α → Bool) (xs : List α) :
    ∃ before after, xs = before ++ trimList p xs ++ after ∧ (∀ c ∈ before, p c = true) ∧
      ∀ c ∈ after, p c = true := by
  obtain ⟨after, whole, trailing⟩ := exists_eq_dropTrailing_append p (xs.dropWhile p)
  refine ⟨xs.takeWhile p, after, ?_, fun c mem => List.mem_takeWhile_imp mem, trailing⟩
  rw [List.append_assoc, trimList, ← whole, List.takeWhile_append_dropWhile]

/-- Nothing is left exactly if all members are of the class. -/
theorem trimList_eq_nil_iff : trimList p xs = [] ↔ ∀ c ∈ xs, p c = true := by
  constructor
  · intro none
    obtain ⟨before, after, whole, leading, trailing⟩ := exists_eq_append_trimList p xs
    rw [none, List.append_nil] at whole
    rw [whole]
    exact List.forall_mem_append.mpr ⟨leading, trailing⟩
  · intro inside
    rw [trimList, List.dropWhile_eq_nil_iff.mpr inside]
    rfl

/-! ## Texts -/

section Texts
variable {s t ending : String}

/-- The text `t` is what stands between the white space at the ends of `s`. -/
structure Trimmed (s t : String) : Prop where
  around : ∃ before after, s.toList = before ++ t.toList ++ after ∧
    (∀ c ∈ before, isBlank c = true) ∧ ∀ c ∈ after, isBlank c = true
  starts : StartsOutside isBlank t.toList
  ends : EndsOutside isBlank t.toList

theorem trimmed_trim (s : String) : Trimmed s (trim s) := by
  have same : (trim s).toList = trimList isBlank s.toList := String.toList_ofList
  constructor
  · rw [same]
    exact exists_eq_append_trimList isBlank s.toList
  · rw [same]
    exact startsOutside_trimList isBlank s.toList
  · rw [same]
    exact endsOutside_trimList isBlank s.toList

theorem trim_eq_self (starts : StartsOutside isBlank s.toList)
    (ends : EndsOutside isBlank s.toList) : trim s = s := by
  rw [trim, trimList_of_startsOutside starts, ends.dropTrailing_eq, String.ofList_toList]

theorem trim_eq_empty_iff : trim s = "" ↔ ∀ c ∈ s.toList, isBlank c = true := by
  rw [trim, ← String.toList_inj, String.toList_ofList, ← trimList_eq_nil_iff]
  rfl

theorem isPrefixOf_reverse_iff [DecidableEq α] :
    ys.reverse.isPrefixOf xs.reverse = true ↔ ys <:+ xs := by
  rw [List.isPrefixOf_iff_prefix, List.reverse_prefix]

/-- An ending is taken off a text that has it. -/
theorem withoutEnding?_eq_some_iff :
    withoutEnding? ending s = some t ↔ s.toList = t.toList ++ ending.toList := by
  simp only [withoutEnding?, isPrefixOf_reverse_iff]
  constructor
  · intro taken
    split at taken
    next has =>
      obtain ⟨front, whole⟩ := has
      obtain rfl := Option.some.inj taken
      rw [String.toList_ofList, ← whole]
      simp
    next => cases taken
  · intro whole
    rw [if_pos ⟨t.toList, whole.symm⟩, whole]
    simp

theorem withoutEnding?_eq_none_iff :
    withoutEnding? ending s = none ↔ ¬ending.toList <:+ s.toList := by
  simp only [withoutEnding?, isPrefixOf_reverse_iff]
  split
  next has => exact iff_of_false (by rintro ⟨⟩) (not_not.mpr has)
  next lacks => exact iff_of_true rfl lacks

end Texts

end ObserverRelay.Text
