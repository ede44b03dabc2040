import ObserverRelay.Proofs.Text.Pieces
import ObserverRelay.Proofs.Url.Escapes
import ObserverRelay.Url.Path
import Mathlib.Data.List.Flatten
import Mathlib.Data.List.Forall2
/-!
# Texts put to a path

A text that is put to a path becomes a piece of its own, with escapes for whatever a path cannot
hold, and the text is read back from that piece. Only a text of one dot or two and one with a tab or
a line break in it are lost: the path then stands for fewer octets than the texts hold.

## Main statements

* `foldl_pushSegment`: texts that can be held become the pieces of their escapes.
* `length_decodedPath_foldl`: each text adds at most its octets and a slash, less if it is lost.
* `goesOn_iff`: all texts are held exactly if the path goes on with a piece for each.
-/
namespace ObserverRelay.Url

open Bytes

variable {special : Bool} {text : String} {texts parts : List String} {cs : List Char}

/-! ## Pieces of a path -/

theorem segmentsChars_cons (p : String) (ps : List String) :
    segmentsChars (p :: ps) = '/' :: (p.toList ++ segmentsChars ps) := by
  simp [segmentsChars]

theorem segmentsChars_append (ps qs : List String) :
    segmentsChars (ps ++ qs) = segmentsChars ps ++ segmentsChars qs := by
  simp [segmentsChars]

/-- A path is cut at its slashes, if no piece holds one. -/
theorem splitOnMember_segmentsChars {ps : List String} (noSlash : '/' ∉ cs)
    (noSlashes : ∀ p ∈ ps, '/' ∉ p.toList) :
    Text.splitOnMember '/' (cs ++ segmentsChars ps) = cs :: ps.map String.toList := by
  induction ps generalizing cs with
  | nil =>
    rw [segmentsChars, List.flatMap_nil, List.append_nil]
    exact Text.splitOnMember_of_not_mem noSlash
  | cons p ps ih =>
    obtain ⟨here, others⟩ := List.forall_mem_cons.mp noSlashes
    rw [segmentsChars_cons, Text.splitOnMember_append_cons, Text.splitOnMember_of_not_mem noSlash,
      ih here others]
    rfl

theorem segmentsChars_injective {ps qs : List String} (noSlash : ∀ p ∈ ps, '/' ∉ p.toList)
    (noSlash' : ∀ q ∈ qs, '/' ∉ q.toList) (same : segmentsChars ps = segmentsChars qs) : ps = qs := by
  have cut := splitOnMember_segmentsChars (List.not_mem_nil (a := '/')) noSlash
  have cut' := splitOnMember_segmentsChars (List.not_mem_nil (a := '/')) noSlash'
  rw [same, cut'] at cut
  have chars : qs.map String.toList = ps.map String.toList := (List.cons.inj cut).2
  exact (List.map_injective_iff.mpr (fun _ _ => String.toList_injective) chars).symm

/-- A path without one slash at its end; nothing if that leaves only a slash. -/
def stem (path : List Char) : List Char :=
  let rest := if path.getLast? = some '/' then path.dropLast else path
  if rest = ['/'] then [] else rest

theorem segmentsChars_eq_slash_iff : segmentsChars parts = ['/'] ↔ parts = [""] := by
  constructor
  · intro same
    cases parts with
    | nil => cases same
    | cons p ps =>
      rw [segmentsChars_cons, List.cons.injEq, List.append_eq_nil_iff] at same
      obtain ⟨-, empty, none⟩ := same
      have nothing : ps = [] := by
        cases ps with
        | nil => rfl
        | cons q qs =>
          rw [segmentsChars_cons] at none
          cases none
      rw [nothing, String.toList_eq_nil_iff.mp empty]
  · rintro rfl
    rfl

/-- The pieces of a path to which a text is put are those of its stem. -/
theorem segmentsChars_openPath (noSlash : ∀ p ∈ parts, '/' ∉ p.toList) :
    segmentsChars (openPath (dropEmptyLast parts)) = stem (segmentsChars parts) := by
  have opened (ps : List String) : segmentsChars (openPath ps) =
      if segmentsChars ps = ['/'] then [] else segmentsChars ps := by
    rw [openPath]
    by_cases lone : ps = [""]
    · rw [if_pos lone, if_pos (segmentsChars_eq_slash_iff.mpr lone)]
      rfl
    · rw [if_neg lone, if_neg fun h => lone (segmentsChars_eq_slash_iff.mp h)]
  rw [opened, stem]
  obtain rfl | ⟨front, last, rfl⟩ := List.eq_nil_or_concat parts
  · rfl
  rw [List.concat_eq_append] at noSlash ⊢
  have chars : segmentsChars (front ++ [last]) = segmentsChars front ++ '/' :: last.toList := by
    rw [segmentsChars_append, segmentsChars_cons]
    simp [segmentsChars]
  by_cases empty : last = ""
  · subst empty
    have slash : (segmentsChars (front ++ [""])).getLast? = some '/' := by simp [chars]
    have rest : (segmentsChars (front ++ [""])).dropLast = segmentsChars front := by simp [chars]
    rw [if_pos slash, rest]
    by_cases alone : front = []
    · subst alone
      rfl
    · have long : 2 ≤ (front ++ [""]).length := by
        have := List.length_pos_iff.mpr alone
        simp only [List.length_append, List.length_singleton]
        omega
      have cut : dropEmptyLast (front ++ [""]) = front := by
        rw [dropEmptyLast, if_pos ⟨long, List.getLast?_concat⟩, List.dropLast_concat]
      rw [cut]
  · have noSlash' : '/' ∉ last.toList := noSlash last (by simp)
    have other : (segmentsChars (front ++ [last])).getLast? ≠ some '/' := by
      have some' : last.toList ≠ [] := fun h => empty (String.toList_eq_nil_iff.mp h)
      rw [chars, List.getLast?_append_of_ne_nil _ (List.cons_ne_nil _ _), List.getLast?_cons_of_ne_nil some']
      exact fun h => noSlash' (List.mem_of_getLast? h)
    have whole : dropEmptyLast (front ++ [last]) = front ++ [last] := by
      rw [dropEmptyLast, if_neg]
      simp [empty]
    rw [if_neg other, whole]

/-! ## Escapes of one text -/

/-- The octets that are escaped in a text put to a path. -/
def appendedSet (special : Bool) : EncodeSet := if special then specialSegmentSet else segmentSet

theorem lt_of_controlSet {b : UInt8} (outside : controlSet b = false) : b.toNat < 0x80 := by
  simp only [controlSet, Bool.or_eq_false_iff, decide_eq_false_iff_not, gt_iff_lt] at outside
  have top := UInt8.le_iff_toNat_le.mp (UInt8.not_lt.mp outside.2)
  simp only [UInt8.reduceToNat] at top
  omega

theorem EncodeSet.of_adding {set : EncodeSet} {b : UInt8} (outside : set.adding cs b = false) :
    set b = false := by
  rw [adding, Bool.or_eq_false_iff] at outside
  exact outside.1

theorem lt_of_appendedSet (b : UInt8) (outside : appendedSet special b = false) : b.toNat < 0x80 := by
  have narrow : segmentSet b = false := by
    cases special with
    | true => exact EncodeSet.of_adding outside
    | false => exact outside
  exact lt_of_controlSet (EncodeSet.of_adding (EncodeSet.of_adding (EncodeSet.of_adding narrow)))

/-- The piece that a text becomes. -/
def pieceOf (special : Bool) (cs : List Char) : String :=
  String.ofList (encodeChars (appendedSet special) cs)

theorem percentDecode_pieceOf (special : Bool) (cs : List Char) :
    percentDecode (ofText (pieceOf special cs)) = ofChars cs := by
  have sign : appendedSet special 0x25 = true := by cases special <;> decide
  have decoded := percentDecode_percentEncode lt_of_appendedSet sign (ofChars cs) []
  rw [List.append_nil, percentDecode, List.append_nil] at decoded
  rw [pieceOf, ofText_ofList_eq, encodeChars, ofText_ofList_eq, decoded]

theorem pieceOf_ne_empty (nonempty : text ≠ "") : pieceOf special text.toList ≠ "" := by
  intro empty
  have decoded := percentDecode_pieceOf special text.toList
  have nothing : percentDecode (ofText "") = ofText "" := by decide
  rw [empty, nothing, ← ofText_eq] at decoded
  exact nonempty (ofText_injective decoded).symm

theorem slash_not_mem_pieceOf (cs : List Char) : '/' ∉ (pieceOf special cs).toList := by
  rw [pieceOf, String.toList_ofList]
  exact not_mem_percentEncode (by decide) (by cases special <;> decide) _

theorem percentDecode_of_isSingleDot (dot : isSingleDot cs = true) :
    percentDecode (ofChars cs) = ofText "." := by
  have spelled : String.ofList cs = "." ∨ String.ofList cs = "%2e" ∨ String.ofList cs = "%2E" := by
    simpa [isSingleDot] using dot
  rw [← ofText_ofList_eq]
  rcases spelled with h | h | h <;> rw [h] <;> decide

theorem percentDecode_of_isDoubleDot (dots : isDoubleDot cs = true) :
    percentDecode (ofChars cs) = ofText ".." := by
  have spelled : ∀ x ∈ ["..", "%2e%2e", "%2e%2E", "%2E%2e", "%2E%2E", "%2e.", "%2E.", ".%2e", ".%2E"],
      percentDecode (ofText x) = ofText ".." := by
    decide
  rw [← ofText_ofList_eq]
  exact spelled _ (by simpa [isDoubleDot] using dots)

theorem mem_appendPiece {parts : List String} {segment : List Char} {last : Bool} {p : String}
    (mem : p ∈ appendPiece parts segment last) : p ∈ parts ∨ p = "" ∨ p = String.ofList segment := by
  have shorter {q : String} (h : q ∈ parts.dropLast) : q ∈ parts := (List.dropLast_sublist parts).mem h
  rw [appendPiece] at mem
  split_ifs at mem
  · rcases List.mem_append.mp mem with front | last
    · exact .inl (shorter front)
    · exact .inr (.inl (List.mem_singleton.mp last))
  · exact .inl (shorter mem)
  · rcases List.mem_append.mp mem with front | last
    · exact .inl front
    · exact .inr (.inl (List.mem_singleton.mp last))
  · exact .inl mem
  · rcases List.mem_append.mp mem with front | last
    · exact .inl front
    · exact .inr (.inr (List.mem_singleton.mp last))

/-- What is put to a path is nothing or the piece of a text. -/
theorem mem_pushSegment {p : String} (mem : p ∈ pushSegment special parts text) :
    p ∈ parts ∨ p = "" ∨ ∃ cs, p = pieceOf special cs := by
  rw [pushSegment] at mem
  split at mem
  next => exact .inl mem
  next =>
    rcases mem_appendPiece mem with old | empty | piece
    · rw [openPath] at old
      split at old
      next => cases old
      next => exact .inl old
    · exact .inr (.inl empty)
    · exact .inr (.inr ⟨_, piece⟩)

/-- A text that a path holds as one segment. -/
structure IsSegment (text : String) : Prop where
  notDot : text ≠ "."
  notDots : text ≠ ".."
  unbroken : ∀ c ∈ text.toList, c ≠ '\t' ∧ c ≠ '\n' ∧ c ≠ '\r'

theorem isLineBreakOrTab_eq_false_iff {c : Char} :
    isLineBreakOrTab c = false ↔ c ≠ '\t' ∧ c ≠ '\n' ∧ c ≠ '\r' := by
  simp [isLineBreakOrTab, and_assoc]

theorem isSegment_iff :
    IsSegment text ↔ text ≠ "." ∧ text ≠ ".." ∧ text.toList.any isLineBreakOrTab = false := by
  simp only [List.any_eq_false, Bool.not_eq_true, isLineBreakOrTab_eq_false_iff]
  exact ⟨fun h => ⟨h.notDot, h.notDots, h.unbroken⟩, fun h => ⟨h.1, h.2.1, h.2.2⟩⟩

instance (text : String) : Decidable (IsSegment text) := decidable_of_iff _ isSegment_iff.symm

/-- What a text that can be held is read back from is no dot. -/
theorem IsSegment.isSingleDot_pieceOf (segment : IsSegment text) :
    isSingleDot (pieceOf special text.toList).toList = false := by
  rw [Bool.eq_false_iff]
  intro dot
  have decoded := percentDecode_of_isSingleDot dot
  rw [← ofText_eq, percentDecode_pieceOf, ← ofText_eq] at decoded
  exact segment.notDot (ofText_injective decoded)

/-- Nor is it two of them. -/
theorem IsSegment.isDoubleDot_pieceOf (segment : IsSegment text) :
    isDoubleDot (pieceOf special text.toList).toList = false := by
  rw [Bool.eq_false_iff]
  intro dots
  have decoded := percentDecode_of_isDoubleDot dots
  rw [← ofText_eq, percentDecode_pieceOf, ← ofText_eq] at decoded
  exact segment.notDots (ofText_injective decoded)

theorem IsSegment.pushSegment (segment : IsSegment text) :
    pushSegment special parts text = openPath parts ++ [pieceOf special text.toList] := by
  have kept : (text.toList.filter fun c => !isLineBreakOrTab c) = text.toList :=
    List.filter_eq_self.mpr fun c mem => by
      simp [isLineBreakOrTab_eq_false_iff.mpr (segment.unbroken c mem)]
  have chars : encodeChars (appendedSet special) text.toList =
      (pieceOf special text.toList).toList := by
    rw [pieceOf, String.toList_ofList]
  rw [Url.pushSegment, if_neg (not_or.mpr ⟨segment.notDot, segment.notDots⟩)]
  simp only [kept]
  rw [appendPiece, ← appendedSet, chars, segment.isDoubleDot_pieceOf, segment.isSingleDot_pieceOf,
    if_neg Bool.false_ne_true, if_neg Bool.false_ne_true, String.ofList_toList]

/-- Texts that can be held become pieces one after the other, unless the path is still open. -/
theorem foldl_pushSegment (nonempty : parts ≠ []) (notOpen : parts ≠ [""])
    (segments : ∀ t ∈ texts, IsSegment t) :
    texts.foldl (pushSegment special) parts =
      parts ++ texts.map fun t => pieceOf special t.toList := by
  induction texts generalizing parts with
  | nil => simp
  | cons t ts ih =>
    obtain ⟨here, others⟩ := List.forall_mem_cons.mp segments
    have pushed : pushSegment special parts t = parts ++ [pieceOf special t.toList] := by
      rw [here.pushSegment, openPath, if_neg notOpen]
    have notOpen' : parts ++ [pieceOf special t.toList] ≠ [""] := by
      cases parts with
      | nil => exact absurd rfl nonempty
      | cons p ps => simp
    rw [List.foldl_cons, pushed, ih (by simp) notOpen' others]
    simp

/-! ## What a path stands for -/

/-- The octets that a path stands for, slashes included. -/
def decodedPath (parts : List String) : Bytes :=
  parts.flatMap fun p => 0x2F :: percentDecode (ofText p)

/-- The octets of texts, a slash before each. -/
def slashed (texts : List String) : Bytes := texts.flatMap fun t => 0x2F :: ofText t

theorem percentDecode_append_segmentsChars (cs : List Char) (ps : List String) :
    percentDecode (ofChars (cs ++ segmentsChars ps)) = percentDecode (ofChars cs) ++ decodedPath ps := by
  induction ps generalizing cs with
  | nil => simp [segmentsChars, decodedPath]
  | cons p ps ih =>
    have slash : '/'.toUInt8 = 0x2F := by decide
    rw [segmentsChars_cons, ofChars_append, ofChars_cons_of_lt (by decide), slash,
      percentDecode_append_cons (by decide) (by decide), ih, ← ofText_eq]
    rfl

theorem percentDecode_segmentsChars (ps : List String) :
    percentDecode (ofChars (segmentsChars ps)) = decodedPath ps := by
  simpa [percentDecode] using percentDecode_append_segmentsChars [] ps

theorem length_decodedPath_append (ps qs : List String) :
    (decodedPath (ps ++ qs)).length = (decodedPath ps).length + (decodedPath qs).length := by
  simp [decodedPath]

theorem length_decodedPath_openPath (parts : List String) :
    (decodedPath (openPath parts)).length ≤ (decodedPath parts).length := by
  rw [openPath]
  split
  · simp [decodedPath]
  · exact Nat.le_refl _

/-- A piece adds at most a slash and the octets that it stands for. -/
theorem length_decodedPath_appendPiece (parts : List String) (cs : List Char) :
    (decodedPath (appendPiece parts cs true)).length ≤
      (decodedPath parts).length + (1 + (percentDecode (ofChars cs)).length) := by
  have empty : (decodedPath [""]).length = 1 := by decide
  have shorter : (decodedPath parts.dropLast).length ≤ (decodedPath parts).length :=
    ((List.dropLast_sublist parts).flatMap _).length_le
  rw [appendPiece]
  by_cases dots : isDoubleDot cs = true
  · rw [if_pos dots, if_pos rfl, length_decodedPath_append, empty]
    omega
  · by_cases dot : isSingleDot cs = true
    · rw [if_neg dots, if_pos dot, if_pos rfl, length_decodedPath_append, empty]
      omega
    · rw [if_neg dots, if_neg dot, length_decodedPath_append]
      simp [decodedPath, Nat.add_comm]

theorem length_ofChars_filter (p : Char → Bool) (cs : List Char) :
    (ofChars (cs.filter p)).length ≤ (ofChars cs).length :=
  (List.filter_sublist.flatMap _).length_le

theorem length_ofChars_filter_lt {p : Char → Bool} {c : Char} (mem : c ∈ cs) (dropped : p c = false) :
    (ofChars (cs.filter p)).length < (ofChars cs).length := by
  obtain ⟨before, after, rfl⟩ := List.append_of_mem mem
  have size : 0 < (String.utf8EncodeChar c).length := by
    rw [String.length_utf8EncodeChar]
    exact c.utf8Size_pos
  have := length_ofChars_filter p before
  have := length_ofChars_filter p after
  rw [List.filter_append, List.filter_cons_of_neg (by simp [dropped])]
  simp only [ofChars_append, ofChars_cons, List.length_append]
  omega

/-- A text adds at most a slash and its octets to a path, less if it cannot be held. -/
theorem length_decodedPath_pushSegment (special : Bool) (parts : List String) (text : String) :
    (decodedPath (pushSegment special parts text)).length ≤
        (decodedPath parts).length + (1 + (ofText text).length) ∧
      (¬IsSegment text → (decodedPath (pushSegment special parts text)).length <
        (decodedPath parts).length + (1 + (ofText text).length)) := by
  rw [pushSegment]
  by_cases dots : text = "." ∨ text = ".."
  · rw [if_pos dots]
    omega
  rw [if_neg dots]
  have appended := length_decodedPath_appendPiece (openPath parts)
    (encodeChars (appendedSet special) (text.toList.filter fun c => !isLineBreakOrTab c))
  have opened := length_decodedPath_openPath parts
  have decoded := percentDecode_pieceOf special
    (text.toList.filter fun c => !isLineBreakOrTab c)
  rw [pieceOf, ofText_ofList_eq] at decoded
  rw [decoded] at appended
  rw [ofText_eq]
  refine ⟨?_, fun broken => ?_⟩
  · have := length_ofChars_filter (fun c => !isLineBreakOrTab c) text.toList
    exact Nat.le_trans appended (by omega)
  · obtain ⟨c, mem, dropped⟩ : ∃ c ∈ text.toList, isLineBreakOrTab c = true := by
      by_contra none
      simp only [not_exists, not_and, Bool.not_eq_true] at none
      exact broken ⟨(not_or.mp dots).1, (not_or.mp dots).2, fun c mem =>
        isLineBreakOrTab_eq_false_iff.mp (none c mem)⟩
    have := length_ofChars_filter_lt (p := fun c => !isLineBreakOrTab c) mem (by simp [dropped])
    exact Nat.lt_of_le_of_lt appended (by omega)

/-- Texts add at most their octets to a path, less if one of them cannot be held. -/
theorem length_decodedPath_foldl (special : Bool) (parts texts : List String) :
    (decodedPath (texts.foldl (pushSegment special) parts)).length ≤
        (decodedPath parts).length + (slashed texts).length ∧
      ((∃ t ∈ texts, ¬IsSegment t) → (decodedPath (texts.foldl (pushSegment special) parts)).length <
        (decodedPath parts).length + (slashed texts).length) := by
  induction texts generalizing parts with
  | nil => simp [slashed]
  | cons t ts ih =>
    obtain ⟨le, lt⟩ := ih (pushSegment special parts t)
    obtain ⟨here, here'⟩ := length_decodedPath_pushSegment special parts t
    have length : (slashed (t :: ts)).length = 1 + (ofText t).length + (slashed ts).length := by
      rw [slashed, List.flatMap_cons, List.length_append, List.length_cons, Nat.add_comm 1]
      rfl
    rw [List.foldl_cons, length]
    refine ⟨by omega, ?_⟩
    rintro ⟨x, mem, lost⟩
    rcases List.mem_cons.mp mem with rfl | later
    · have := here' lost
      omega
    · have := lt ⟨x, later, lost⟩
      omega

/-! ## Paths that go on with texts -/

/-- The path goes on behind `front` with one piece for each text, a slash before it, and what the
pieces stand for are the texts. -/
def GoesOn (front : List Char) (texts : List String) (path : List Char) : Prop :=
  ∃ pieces : List String, path = front ++ segmentsChars pieces ∧ (∀ p ∈ pieces, '/' ∉ p.toList) ∧
    List.Forall₂ (fun p t => percentDecode (ofText p) = ofText t) pieces texts

/-- A path goes on with one list of texts at most. -/
theorem GoesOn.unique {front path : List Char} {texts' : List String} (h : GoesOn front texts path)
    (h' : GoesOn front texts' path) : texts = texts' := by
  obtain ⟨pieces, rfl, noSlash, decoded⟩ := h
  obtain ⟨pieces', same, noSlash', decoded'⟩ := h'
  obtain rfl := segmentsChars_injective noSlash noSlash' (List.append_cancel_left same)
  refine List.right_unique_forall₂' (fun p t t' here here' => ?_) decoded decoded'
  exact ofText_injective (here.symm.trans here')

theorem decodedPath_of_forall₂ {pieces : List String}
    (decoded : List.Forall₂ (fun p t => percentDecode (ofText p) = ofText t) pieces texts) :
    decodedPath pieces = slashed texts := by
  induction decoded with
  | nil => rfl
  | cons here _ ih =>
    rw [decodedPath, List.flatMap_cons, here, ← decodedPath, ih]
    rfl

theorem openPath_of_ne (notOpen : parts ≠ [""]) : openPath parts = parts := if_neg notOpen

theorem openPath_ne (parts : List String) : openPath parts ≠ [""] := by
  rw [openPath]
  split
  next => exact (List.cons_ne_nil _ _).symm
  next notOpen => exact notOpen

/-- A path goes on with all texts that were put to it exactly if each of them can be held. -/
theorem goesOn_iff {first : String} (segment : IsSegment first) (nonempty : first ≠ "")
    (noSlash : ∀ p ∈ parts, '/' ∉ p.toList) :
    GoesOn (stem (segmentsChars parts)) (first :: texts)
        (segmentsChars ((first :: texts).foldl (pushSegment special) (dropEmptyLast parts))) ↔
      ∀ t ∈ first :: texts, IsSegment t := by
  have settled := openPath_ne (dropEmptyLast parts)
  -- The first text opens the path, so that the path may as well be open from the start.
  have opened : (first :: texts).foldl (pushSegment special) (dropEmptyLast parts) =
      (first :: texts).foldl (pushSegment special) (openPath (dropEmptyLast parts)) := by
    rw [List.foldl_cons, List.foldl_cons, segment.pushSegment, segment.pushSegment,
      openPath_of_ne settled]
  rw [← segmentsChars_openPath noSlash, opened]
  generalize openPath (dropEmptyLast parts) = front at *
  constructor
  · rintro ⟨pieces, path, -, decoded⟩
    by_contra lost
    have total : (decodedPath ((first :: texts).foldl (pushSegment special) front)).length =
        (decodedPath front).length + (slashed (first :: texts)).length := by
      rw [← percentDecode_segmentsChars, path, ← segmentsChars_append, percentDecode_segmentsChars,
        length_decodedPath_append, decodedPath_of_forall₂ decoded]
    have less := (length_decodedPath_foldl special front (first :: texts)).2
      (by simpa only [not_forall, exists_prop] using lost)
    omega
  · intro segments
    obtain ⟨-, others⟩ := List.forall_mem_cons.mp segments
    have notOpen : front ++ [pieceOf special first.toList] ≠ [""] := by
      cases front with
      | nil => simpa using pieceOf_ne_empty nonempty
      | cons p ps => simp
    have path : (first :: texts).foldl (pushSegment special) front =
        front ++ (first :: texts).map fun t => pieceOf special t.toList := by
      rw [List.foldl_cons, segment.pushSegment, openPath_of_ne settled,
        foldl_pushSegment (by simp) notOpen others]
      simp
    refine ⟨(first :: texts).map fun t => pieceOf special t.toList, ?_, ?_, ?_⟩
    · rw [path, segmentsChars_append]
    · simp only [List.forall_mem_map]
      exact fun t _ => slash_not_mem_pieceOf t.toList
    · rw [List.forall₂_map_left_iff, List.forall₂_same]
      intro t _
      rw [percentDecode_pieceOf, ofText_eq]

end ObserverRelay.Url
