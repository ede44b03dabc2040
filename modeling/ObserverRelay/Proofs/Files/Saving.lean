import ObserverRelay.Files.Tree
import Mathlib.Data.List.Basic
/-!
# Reading what was saved

A file is put where its path leads: the folders before its last name are walked, and the name is
added to where they lead. Reading walks the same folders. The new file changes nothing on this
way, since no folder was at its place.

## Main statements

* `walk_put`: a file put where no folder is leaves every walk as it was.
* `read_save`: what was saved at a path is read at this path.
* `fst_save`: whether a file can be saved does not depend on what it holds.
-/
namespace ObserverRelay.Files

/-- When no slash follows the last name of a path, its pieces are those before and this name. -/
theorem pieces_of_splitLast? {path : String} {folder : List String} {name : String}
    (h : splitLast? path = some (folder, name, false)) : pieces path = folder ++ [name] := by
  have suffix : Text.dropTrailing (· == "") (pieces path) <+: pieces path := by
    rw [Text.dropTrailing, ← List.reverse_suffix, List.reverse_reverse]
    exact List.dropWhile_suffix _
  simp only [splitLast?] at h
  split at h
  next => cases h
  next last found =>
    simp only [Option.some.injEq, Prod.mk.injEq, decide_eq_false_iff_not] at h
    obtain ⟨rfl, rfl, whole⟩ := h
    have same := suffix.eq_of_length_le (Nat.le_of_not_lt whole)
    rw [List.dropLast_append_getLast? last found, same]

namespace Tree

variable {t : Tree} {p q r : Place}

theorem walk_append (t : Tree) (p : Place) (ps qs : List String) :
    t.walk p (ps ++ qs) = (t.walk p ps).bind fun q => t.walk q qs := by
  induction ps generalizing p with
  | nil => rfl
  | cons piece ps ih =>
    simp only [List.cons_append, walk]
    split
    · rfl
    split
    · exact ih p
    split
    · exact ih p.dropLast
    split
    · rfl
    split
    · rfl
    · exact ih (p ++ [piece])

theorem hasFolder_put_of_hasFolder (file : t.hasFolder p = false) (folder : t.hasFolder q = true)
    (e : Entry) : (t.put p e).hasFolder q = true := by
  have ne : q ≠ p := by
    rintro rfl
    rw [folder] at file
    cases file
  rw [hasFolder, at?_put_of_ne ne]
  exact folder

/-- One step of a walk that succeeds. -/
inductive Step (t : Tree) (p : Place) (piece : String) : Place → Prop
  | stay (folder : t.hasFolder p = true) (stays : isStay piece = true) : Step t p piece p
  | up (folder : t.hasFolder p = true) (moves : isStay piece = false) (dots : piece = "..") :
      Step t p piece p.dropLast
  | down (folder : t.hasFolder p = true) (moves : isStay piece = false) (name : piece ≠ "..")
      (short : isLongName piece = false) (found : (t.at? (p ++ [piece])).isSome = true) :
      Step t p piece (p ++ [piece])

theorem walk_cons_iff {piece : String} {ps : List String} :
    t.walk p (piece :: ps) = .ok q ↔ ∃ r, t.Step p piece r ∧ t.walk r ps = .ok q := by
  constructor
  · intro h
    simp only [walk] at h
    split at h
    next => cases h
    next folder =>
      rw [Bool.not_eq_true, Bool.not_eq_false] at folder
      split at h
      next stays => exact ⟨p, .stay folder stays, h⟩
      next moves =>
        rw [Bool.not_eq_true] at moves
        split at h
        next dots => exact ⟨p.dropLast, .up folder moves dots, h⟩
        next name =>
          split at h
          next => cases h
          next short =>
            rw [Bool.not_eq_true] at short
            split at h
            next => cases h
            next found => exact ⟨_, .down folder moves name short (by rw [found]; rfl), h⟩
  · rintro ⟨r, step, h⟩
    cases step with
    | stay folder stays => simpa [walk, folder, stays] using h
    | up folder moves dots =>
      subst dots
      simpa [walk, folder, moves] using h
    | down folder moves name short found =>
      obtain ⟨e, there⟩ := Option.isSome_iff_exists.mp found
      simpa [walk, folder, moves, name, short, there] using h

theorem Step.put (file : t.hasFolder p = false) (e : Entry) {piece : String}
    (step : t.Step q piece r) : (t.put p e).Step q piece r := by
  have folder' {s : Place} (folder : t.hasFolder s = true) : (t.put p e).hasFolder s = true :=
    hasFolder_put_of_hasFolder file folder e
  cases step with
  | stay folder stays => exact .stay (folder' folder) stays
  | up folder moves dots => exact .up (folder' folder) moves dots
  | down folder moves name short found =>
    refine .down (folder' folder) moves name short ?_
    -- The walk may pass the new file's own place, where something is found now as before.
    by_cases here : q ++ [piece] = p
    · rw [here, at?_put_self t (here ▸ List.concat_ne_nil _ _)]
      rfl
    · rw [at?_put_of_ne here]
      exact found

/-- A file put where no folder is leaves every walk as it was. -/
theorem walk_put (file : t.hasFolder p = false) (e : Entry) {ps : List String}
    (walked : t.walk r ps = .ok q) : (t.put p e).walk r ps = .ok q := by
  induction ps generalizing r with
  | nil => exact walked
  | cons piece ps ih =>
    obtain ⟨s, step, walked⟩ := walk_cons_iff.mp walked
    exact walk_cons_iff.mpr ⟨s, step.put file e, ih walked⟩

/-- A new entry goes below a folder that was walked to, under a name that can be walked. -/
theorem newPlace_eq_ok {folder : List String} {name : String} {special : Refusal}
    (h : t.newPlace folder name special = .ok p) :
    ∃ q, t.walk [] folder = .ok q ∧ t.hasFolder q = true ∧ isStay name = false ∧ name ≠ ".." ∧
      isLongName name = false ∧ p = q ++ [name] := by
  simp only [newPlace, bind, Except.bind, throw, throwThe, MonadExceptOf.throw, pure,
    Except.pure] at h
  split at h
  next => cases h
  next q walked =>
    by_cases inFolder : t.hasFolder q = true
    · by_cases moves : isStay name = true ∨ name = ".."
      · simp [inFolder, moves] at h
      · by_cases long : isLongName name = true
        · simp [inFolder, moves, long] at h
        · obtain rfl : q ++ [name] = p := by simpa [inFolder, moves, long] using h
          rw [not_or, Bool.not_eq_true] at moves
          rw [Bool.not_eq_true] at long
          exact ⟨q, walked, inFolder, moves.1, moves.2, long, rfl⟩
    · simp [inFolder] at h

/-- A file put below a folder that a path's first pieces lead to is read at this path. -/
theorem read_put {path : String} {folder : List String} {name : String} {contents : Bytes}
    (vetted : vet path = .ok ()) (last : pieces path = folder ++ [name])
    (walked : t.walk [] folder = .ok q) (inFolder : t.hasFolder q = true)
    (moves : isStay name = false) (up : name ≠ "..") (short : isLongName name = false)
    (file : t.hasFolder (q ++ [name]) = false) :
    (t.put (q ++ [name]) (.file contents)).read path = .ok contents := by
  have there : (t.put (q ++ [name]) (.file contents)).at? (q ++ [name]) = some (.file contents) :=
    at?_put_self t (List.concat_ne_nil name q) _
  have step : (t.put (q ++ [name]) (.file contents)).Step q name (q ++ [name]) :=
    .down (hasFolder_put_of_hasFolder file inFolder _) moves up short (by rw [there]; rfl)
  have way : (t.put (q ++ [name]) (.file contents)).walk [] (pieces path) = .ok (q ++ [name]) := by
    rw [last, walk_append, walk_put file _ walked]
    exact walk_cons_iff.mpr ⟨_, step, rfl⟩
  simp only [read, bind, Except.bind, vetted, way, there]
  rfl

/-- What was put at a path is read at this path. -/
theorem read_replace {t' : Tree} {path : String} {contents : Bytes}
    (h : t.replace path contents = .ok t') : t'.read path = .ok contents := by
  simp only [replace, bind, Except.bind, throw, throwThe, MonadExceptOf.throw, pure,
    Except.pure] at h
  split at h
  next => cases h
  next vetted =>
    split at h
    next => cases h
    next folder name slashes last =>
      split at h
      next => cases h
      next p place =>
        obtain ⟨q, walked, inFolder, moves, up, short, rfl⟩ := newPlace_eq_ok place
        cases slashes with
        | true => simp at h
        | false =>
          by_cases file : t.hasFolder (q ++ [name]) = true
          · simp [file] at h
          · obtain rfl : t.put (q ++ [name]) (.file contents) = t' := by simpa [file] using h
            rw [Bool.not_eq_true] at file
            exact read_put vetted (pieces_of_splitLast? last) walked inFolder moves up short file

/-- What was saved at a path is read at this path. -/
theorem read_save {t' : Tree} {path : String} {contents : Bytes}
    (h : t.save path contents = (.ok (), t')) : t'.read path = .ok contents := by
  rw [save] at h
  split at h
  next => cases h
  next t₁ made =>
    split at h
    next => cases h
    next t₂ placed =>
      obtain ⟨-, rfl⟩ := Prod.mk.inj h
      exact read_replace placed

/-- The path alone decides where a file goes, or why it goes nowhere. -/
theorem exists_place_of_replace (t : Tree) (path : String) :
    ∃ place : Except Refusal Place,
      ∀ contents, t.replace path contents = place.map fun p => t.put p (.file contents) := by
  simp only [replace, bind, Except.bind, throw, throwThe, MonadExceptOf.throw, pure, Except.pure]
  cases vet path with
  | error e => exact ⟨.error e, fun _ => rfl⟩
  | ok =>
    rcases splitLast? path with _ | ⟨folder, name, slashes⟩
    · exact ⟨.error .busy, fun _ => rfl⟩
    · dsimp only
      cases t.newPlace folder name .busy with
      | error e => exact ⟨.error e, fun _ => rfl⟩
      | ok p =>
        cases slashes with
        | true => exact ⟨.error .notFolder, fun _ => rfl⟩
        | false =>
          cases taken : t.hasFolder p with
          | true => exact ⟨.error .isFolder, fun _ => by simp [taken, Except.map]⟩
          | false => exact ⟨.ok p, fun _ => by simp [taken, Except.map]⟩

/-- Whether a file can be saved does not depend on what it holds. -/
theorem fst_save (t : Tree) (path : String) (contents other : Bytes) :
    (t.save path contents).1 = (t.save path other).1 := by
  rw [save, save]
  rcases t.makeFolders (parentComponents path) with ⟨_ | _, t⟩
  · rfl
  · obtain ⟨place, placed⟩ := t.exists_place_of_replace path
    simp only [placed]
    cases place <;> rfl

end Tree

end ObserverRelay.Files
