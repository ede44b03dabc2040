import ObserverRelay.Text.Blank
/-!
# Pieces between separators

Cutting at a separator gives back pieces that were put behind one another with the separator
between them, and no piece holds it.
-/
namespace ObserverRelay.Text

variable {α : Type} [DecidableEq α] {sep : α}

@[simp] theorem splitOnMember_cons_self (xs : List α) :
    splitOnMember sep (sep :: xs) = [] :: splitOnMember sep xs := by
  simp [splitOnMember]

/-- What does not begin with the separator belongs to the first piece. -/
theorem splitOnMember_cons_of_ne {x : α} (other : x ≠ sep) {xs piece : List α}
    {pieces : List (List α)} (cut : splitOnMember sep xs = piece :: pieces) :
    splitOnMember sep (x :: xs) = (x :: piece) :: pieces := by
  simp [splitOnMember, other, cut]

theorem exists_splitOnMember (sep : α) (xs : List α) :
    ∃ piece pieces, splitOnMember sep xs = piece :: pieces :=
  List.exists_cons_of_ne_nil (splitOnMember_ne_nil sep xs)

theorem splitOnMember_append_cons (xs ys : List α) :
    splitOnMember sep (xs ++ sep :: ys) = splitOnMember sep xs ++ splitOnMember sep ys := by
  induction xs with
  | nil => simp [splitOnMember]
  | cons x xs ih =>
    by_cases here : x = sep
    · subst here
      rw [List.cons_append, splitOnMember_cons_self, splitOnMember_cons_self, ih]
      rfl
    · obtain ⟨piece, pieces, cut⟩ := exists_splitOnMember sep xs
      rw [cut, List.cons_append] at ih
      rw [List.cons_append, splitOnMember_cons_of_ne here ih, splitOnMember_cons_of_ne here cut]
      rfl

theorem splitOnMember_of_not_mem {xs : List α} (none : sep ∉ xs) : splitOnMember sep xs = [xs] := by
  induction xs with
  | nil => rfl
  | cons x xs ih =>
    have other : x ≠ sep := Ne.symm (List.ne_of_not_mem_cons none)
    exact splitOnMember_cons_of_ne other (ih (List.not_mem_of_not_mem_cons none))

/-- A piece holds what was cut, but no separator. -/
theorem of_mem_splitOnMember {xs piece : List α} (mem : piece ∈ splitOnMember sep xs) :
    sep ∉ piece ∧ ∀ x ∈ piece, x ∈ xs := by
  induction xs generalizing piece with
  | nil =>
    rw [splitOnMember, List.mem_singleton] at mem
    subst mem
    exact ⟨List.not_mem_nil, fun _ h => h⟩
  | cons x xs ih =>
    have wider {p : List α} (mem : p ∈ splitOnMember sep xs) : ∀ y ∈ p, y ∈ x :: xs :=
      fun y hy => List.mem_cons_of_mem x ((ih mem).2 y hy)
    by_cases here : x = sep
    · subst here
      rw [splitOnMember_cons_self] at mem
      rcases List.mem_cons.mp mem with rfl | later
      · exact ⟨List.not_mem_nil, List.forall_mem_nil _⟩
      · exact ⟨(ih later).1, wider later⟩
    · obtain ⟨first, pieces, cut⟩ := exists_splitOnMember sep xs
      rw [splitOnMember_cons_of_ne here cut] at mem
      have inside : first ∈ splitOnMember sep xs := by simp [cut]
      rcases List.mem_cons.mp mem with rfl | later
      · refine ⟨List.not_mem_cons_of_ne_of_not_mem (Ne.symm here) (ih inside).1, fun y hy => ?_⟩
        rcases List.mem_cons.mp hy with rfl | hy
        · exact List.mem_cons_self
        · exact wider inside y hy
      · have inside' : piece ∈ splitOnMember sep xs := by simp [cut, later]
        exact ⟨(ih inside').1, wider inside'⟩

/-- Cutting is the same as cutting by the library's function. -/
theorem splitOnMember_eq_splitOn (sep : α) (xs : List α) : splitOnMember sep xs = xs.splitOn sep := by
  induction xs with
  | nil => rfl
  | cons x xs ih =>
    rw [List.splitOn_eq_splitOnP, List.splitOnP_cons_eq_if_modifyHead, ← List.splitOn_eq_splitOnP,
      ← ih]
    obtain ⟨piece, pieces, cut⟩ := exists_splitOnMember sep xs
    by_cases here : x = sep
    · simp [here]
    · simp [here, cut, splitOnMember_cons_of_ne here cut]

/-- The pieces of a list are those that give it with separators between them and hold none. -/
theorem splitOnMember_eq_iff {xs : List α} {pieces : List (List α)} :
    splitOnMember sep xs = pieces ↔
      xs = [sep].intercalate pieces ∧ pieces ≠ [] ∧ ∀ piece ∈ pieces, sep ∉ piece := by
  constructor
  · rintro rfl
    refine ⟨?_, splitOnMember_ne_nil sep xs, fun piece mem => (of_mem_splitOnMember mem).1⟩
    rw [splitOnMember_eq_splitOn, List.intercalate_splitOn]
  · rintro ⟨rfl, nonempty, clear⟩
    rw [splitOnMember_eq_splitOn, List.splitOn_intercalate sep clear nonempty]

end ObserverRelay.Text
