import ObserverRelay.Proofs.Url.Appending
/-!
# Paths that only go down

A text that is put to a path may turn out to be two dots once its line breaks are dropped, and then
it takes the last piece away. It puts an empty piece in that place, so the path never gets shorter:
as soon as one piece stands behind a path, whatever texts follow, the path itself stays as it is.

## Main statements

* `GoesDown.pushSegment`: one more text leaves what stands in front.
* `goesDown_foldl`: texts that begin with a word go down from any path.
* `downFrom_foldl`: the same for the characters of a path.
-/
namespace ObserverRelay.Url

variable {special : Bool} {text first : String} {texts front parts : List String}

/-- A piece of a path that is one name, and not one that leads nowhere or up. -/
structure LeadsDown (piece : String) : Prop where
  noSlash : '/' ∉ piece.toList
  notDot : isSingleDot piece.toList = false
  notDots : isDoubleDot piece.toList = false

/-- A path that begins with the pieces `front` and goes on with one piece at least, down all the
way. -/
def GoesDown (front parts : List String) : Prop :=
  ∃ pieces, pieces ≠ [] ∧ parts = front ++ pieces ∧ ∀ p ∈ pieces, LeadsDown p

theorem leadsDown_empty : LeadsDown "" := ⟨by decide, by decide, by decide⟩

/-- A piece put behind others that lead down. Two dots take one of them away; only where there is
none must the path in front be empty. -/
theorem goesDown_appendPiece {pieces : List String} {segment : List Char}
    (noSlash : '/' ∉ segment) (down : ∀ p ∈ pieces, LeadsDown p) (held : pieces = [] → front = []) :
    GoesDown front (appendPiece (front ++ pieces) segment true) := by
  have behind {ps : List String} {last : String} (here : LeadsDown last)
      (down' : ∀ p ∈ ps, LeadsDown p) : GoesDown front (front ++ ps ++ [last]) := by
    refine ⟨ps ++ [last], by simp, List.append_assoc _ _ _, ?_⟩
    exact List.forall_mem_append.mpr ⟨down', List.forall_mem_singleton.mpr here⟩
  rw [appendPiece]
  by_cases dots : isDoubleDot segment = true
  · have shorter : (front ++ pieces).dropLast = front ++ pieces.dropLast := by
      by_cases none : pieces = []
      · rw [none, held none]
        rfl
      · exact List.dropLast_append_of_ne_nil none
    rw [if_pos dots, if_pos rfl, shorter]
    exact behind leadsDown_empty fun p mem => down p ((List.dropLast_sublist pieces).mem mem)
  · by_cases dot : isSingleDot segment = true
    · rw [if_neg dots, if_pos dot, if_pos rfl]
      exact behind leadsDown_empty down
    · rw [if_neg dots, if_neg dot]
      refine behind ⟨?_, ?_, ?_⟩ down <;> rw [String.toList_ofList]
      · exact noSlash
      · exact Bool.not_eq_true _ ▸ dot
      · exact Bool.not_eq_true _ ▸ dots

/-- Whatever text is put to a path that goes down, it still begins with the same pieces. -/
theorem GoesDown.pushSegment (goesDown : GoesDown front parts) (text : String) :
    GoesDown front (pushSegment special parts text) := by
  obtain ⟨pieces, nonempty, rfl, down⟩ := goesDown
  rw [Url.pushSegment]
  by_cases dots : text = "." ∨ text = ".."
  · rw [if_pos dots]
    exact ⟨pieces, nonempty, rfl, down⟩
  rw [if_neg dots]
  have noSlash : '/' ∉ encodeChars (appendedSet special)
      (text.toList.filter fun c => !isLineBreakOrTab c) := by
    have piece := @slash_not_mem_pieceOf special (text.toList.filter fun c => !isLineBreakOrTab c)
    rwa [pieceOf, String.toList_ofList] at piece
  by_cases lone : front ++ pieces = [""]
  · -- The lone empty piece is one of those behind, so nothing stands in front.
    have none : front = [] := by
      rcases List.append_eq_singleton_iff.mp lone with ⟨none, -⟩ | ⟨-, empty⟩
      · exact none
      · exact absurd empty nonempty
    have opened : openPath (front ++ pieces) = front ++ [] := by
      rw [openPath, if_pos lone, none]
      rfl
    rw [opened]
    exact goesDown_appendPiece noSlash (fun _ mem => absurd mem List.not_mem_nil) fun _ => none
  · rw [openPath_of_ne lone]
    exact goesDown_appendPiece noSlash down fun empty => absurd empty nonempty

/-- Texts put to a path that goes down keep it going down. -/
theorem GoesDown.foldl (goesDown : GoesDown front parts) (texts : List String) :
    GoesDown front (texts.foldl (Url.pushSegment special) parts) := by
  induction texts generalizing parts with
  | nil => exact goesDown
  | cons t ts ih => exact ih (goesDown.pushSegment t)

/-- A text that can be held leads down. -/
theorem leadsDown_pieceOf (segment : IsSegment text) :
    LeadsDown (pieceOf special text.toList) where
  noSlash := slash_not_mem_pieceOf text.toList
  notDot := segment.isSingleDot_pieceOf
  notDots := segment.isDoubleDot_pieceOf

/-- A text that can be held and whatever texts behind it go down from any path. -/
theorem goesDown_foldl (segment : IsSegment first) :
    GoesDown (openPath parts) ((first :: texts).foldl (pushSegment special) parts) := by
  rw [List.foldl_cons, segment.pushSegment]
  refine GoesDown.foldl ⟨[pieceOf special first.toList], List.cons_ne_nil _ _, rfl, ?_⟩ texts
  exact List.forall_mem_singleton.mpr (leadsDown_pieceOf segment)

/-- The path begins with `front` and goes on behind it with one piece at least, down all the way. -/
def DownFrom (front path : List Char) : Prop :=
  ∃ pieces, pieces ≠ [] ∧ path = front ++ segmentsChars pieces ∧ ∀ p ∈ pieces, LeadsDown p

/-- Behind what such a path begins with comes a slash. -/
theorem DownFrom.isPrefix {front path : List Char} (down : DownFrom front path) :
    front ++ ['/'] <+: path := by
  obtain ⟨pieces, nonempty, rfl, -⟩ := down
  obtain ⟨p, ps, rfl⟩ := List.exists_cons_of_ne_nil nonempty
  exact ⟨p.toList ++ segmentsChars ps, by simp [segmentsChars_cons]⟩

/-- A text that can be held and whatever texts behind it go down from the stem of a path. -/
theorem downFrom_foldl (segment : IsSegment first) (noSlash : ∀ p ∈ parts, '/' ∉ p.toList) :
    DownFrom (stem (segmentsChars parts))
      (segmentsChars ((first :: texts).foldl (pushSegment special) (dropEmptyLast parts))) := by
  obtain ⟨pieces, nonempty, path, down⟩ :
      GoesDown (openPath (dropEmptyLast parts))
        ((first :: texts).foldl (pushSegment special) (dropEmptyLast parts)) :=
    goesDown_foldl segment
  exact ⟨pieces, nonempty, by rw [path, segmentsChars_append, segmentsChars_openPath noSlash], down⟩

end ObserverRelay.Url
