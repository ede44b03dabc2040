import ObserverRelay.Proofs.Json.Layout
import ObserverRelay.Proofs.Json.Meaning
/-!
# The compact layout as a text

The compact layout of a value is a text of a document that means this value, if no name is
repeated and its numbers are spelled as they are written. If its numbers are integers, it is one of
the texts of the value. The layout of items and members is the same for both readings.

## Main statements

* `spells_render`: the compact layout is a text of a document.
* `spelled_chars`: the compact layout of a value with integers only spells the value.
-/
namespace ObserverRelay.Json

open Bytes

variable {β : Type} {s t u : Bytes} {d : Document String} {v : Value}

/-- A number is written with these digits, whatever does not go on with them follows. -/
def Written (l : Literal) (n : Number) : Prop :=
  ∀ t, Stops t → NumberAt (ofChars n.chars ++ t) l t

/-- A printed string stands for its text, from behind its opening quote. -/
theorem textAt_stringChars (x : String) (t : Bytes) :
    ∃ s, ofChars (stringChars x) ++ t = 0x22 :: s ∧ TextAt s x t := by
  obtain ⟨s, quote, content⟩ := stringAt_stringChars x t
  exact ⟨s, quote, nameAt_iff_textAt.mp content⟩

theorem separated_here (first : Bool) (s : Bytes) :
    Separated first (lead first ++ s) (skipSpace s) :=
  separated_lead first (w := []) (by simp) s

/-- It does not matter which blanks stand before an item. -/
def Blind (R : Bytes → β → Bytes → Prop) : Prop :=
  ∀ s u x t, skipSpace u = skipSpace s → R s x t → R u x t

/-- Printed strings are among the texts of names. -/
def Named (K : Bytes → String → Bytes → Prop) : Prop :=
  ∀ x t, ∃ s, ofChars (stringChars x) ++ t = 0x22 :: s ∧ K s x t

theorem itemsAt_compact {R : Bytes → β → Bytes → Prop} (blind : Blind R) {xs : List β}
    {vs : List Value} (first : Bool) (nonempty : vs ≠ [])
    (each : List.Forall₂ (fun x v => ∀ u, Stops u → R (ofChars v.chars ++ u) x u) xs vs) :
    ItemsAt R first (lead first ++ (ofChars (itemsChars vs) ++ 0x5D :: t)) xs t := by
  induction each generalizing first with
  | nil => exact absurd rfl nonempty
  | @cons x v xs vs here more ih =>
    have item {u : Bytes} (stops : Stops u) (rest : ItemsAt R false u xs t) :
        ItemsAt R first (lead first ++ (ofChars v.chars ++ u)) (x :: xs) t :=
      .more (separated_here first _) (blind _ _ _ _ (skipSpace_skipSpace _) (here u stops)) rest
    cases vs with
    | nil =>
      cases more
      exact item (stops_cons (by decide) t) (.done (skipSpace_of_not_isSpace (by decide) t))
    | cons w vs =>
      have rest := ih false (List.cons_ne_nil w vs)
      rw [itemsChars, ofChars_append, ofChars_cons_of_lt (by decide), List.append_assoc]
      · exact item (stops_cons (by decide) _) rest
      · exact List.cons_ne_nil w vs

theorem membersAt_compact {K : Bytes → String → Bytes → Prop} {R : Bytes → β → Bytes → Prop}
    (named : Named K) {ms : List (String × β)} {vs : Members} (first : Bool) (nonempty : vs ≠ [])
    (names : ms.map Prod.fst = vs.map Prod.fst)
    (each : List.Forall₂ (fun x v => ∀ u, Stops u → R (ofChars v.chars ++ u) x u)
      (ms.map Prod.snd) (vs.map Prod.snd)) :
    MembersAt K R first (lead first ++ (ofChars (membersChars vs) ++ 0x7D :: t)) ms t := by
  induction vs generalizing ms first with
  | nil => exact absurd rfl nonempty
  | cons m vs ih =>
    obtain ⟨k, v⟩ := m
    cases ms with
    | nil => cases names
    | cons n ms =>
      obtain ⟨k', x⟩ := n
      obtain ⟨rfl, others⟩ : k' = k ∧ ms.map Prod.fst = vs.map Prod.fst := by simpa using names
      obtain ⟨here, each⟩ := List.forall₂_cons.mp each
      have member {u : Bytes} (stops : Stops u) (rest : MembersAt K R false u ms t) :
          MembersAt K R first
            (lead first ++ (ofChars (stringChars k' ++ ':' :: v.chars) ++ u)) ((k', x) :: ms) t := by
        obtain ⟨s, quote, name⟩ := named k' (0x3A :: (ofChars v.chars ++ u))
        have separated := separated_here first (ofChars (stringChars k') ++
          0x3A :: (ofChars v.chars ++ u))
        rw [quote, skipSpace_of_not_isSpace (by decide)] at separated
        rw [ofChars_append, ofChars_cons_of_lt (by decide), List.append_assoc]
        exact .more (quote ▸ separated) name (skipSpace_of_not_isSpace (by decide) _) (here u stops)
          rest
      cases vs with
      | nil =>
        obtain rfl : ms = [] := by simpa using others
        exact member (stops_cons (by decide) t) (.done (skipSpace_of_not_isSpace (by decide) t))
      | cons w vs =>
        have rest := ih false (List.cons_ne_nil w vs) others each
        have split : ofChars (membersChars ((k', v) :: w :: vs)) ++ 0x7D :: t =
            ofChars (stringChars k' ++ ':' :: v.chars) ++
              (lead false ++ (ofChars (membersChars (w :: vs)) ++ 0x7D :: t)) := by
          rw [membersChars]
          · simp only [ofChars_append, ofChars_cons, List.append_assoc]
            rfl
          · exact List.cons_ne_nil w vs
        rw [split]
        exact member (stops_cons (by decide) _) rest

theorem blind_documentAt (K : Bytes → String → Bytes → Prop) : Blind (DocumentAt K) :=
  fun _ _ _ _ same document => document.of_skipSpace_eq same

theorem blind_spelled : Blind Spelled :=
  fun _ _ _ _ same spelled => spelled.of_skipSpace_eq same

/-- A list is written as its brackets and its items. -/
theorem skipSpace_arrayChars (vs : List Value) (t : Bytes) :
    skipSpace (ofChars (Value.array vs).chars ++ t) =
      0x5B :: (ofChars (itemsChars vs) ++ 0x5D :: t) := by
  rw [Value.chars, ofChars_cons_of_lt (by decide), List.cons_append,
    skipSpace_of_not_isSpace (by decide), ofChars_append, List.append_assoc]
  rfl

/-- An object is written as its braces and its members. -/
theorem skipSpace_objectChars (vs : Members) (t : Bytes) :
    skipSpace (ofChars (Value.object vs).chars ++ t) =
      0x7B :: (ofChars (membersChars vs) ++ 0x7D :: t) := by
  rw [Value.chars, ofChars_cons_of_lt (by decide), List.cons_append,
    skipSpace_of_not_isSpace (by decide), ofChars_append, List.append_assoc]
  rfl

/-- Members that are written as documents are written as an object of these. -/
theorem documentAt_objectChars {ms : List (String × Document String)} {vs : Members}
    (names : ms.map Prod.fst = vs.map Prod.fst)
    (each : List.Forall₂ (fun d v => ∀ u, Stops u → DocumentAt TextAt (ofChars v.chars ++ u) d u)
      (ms.map Prod.snd) (vs.map Prod.snd)) :
    DocumentAt TextAt (ofChars (Value.object vs).chars ++ t) (.object ms) t := by
  refine .object (skipSpace_objectChars vs t) ?_
  cases vs with
  | nil =>
    obtain rfl : ms = [] := by simpa using names
    exact .done rfl
  | cons w vs => exact membersAt_compact textAt_stringChars true (List.cons_ne_nil w vs) names each

/-- The compact layout of a value is a text of each document that means it by the digits that are
written. -/
theorem documentAt_chars (means : Means Written d v) (noRepeats : d.NoRepeats) (stops : Stops t) :
    DocumentAt TextAt (ofChars v.chars ++ t) d t := by
  induction d generalizing v t with
  | null =>
    cases means with
    | null => exact .null (skipSpace_of_not_isSpace (by decide) _)
  | bool b =>
    cases means with
    | bool =>
      cases b with
      | true => exact .yes (skipSpace_of_not_isSpace (by decide) _)
      | false => exact .no (skipSpace_of_not_isSpace (by decide) _)
  | number l =>
    cases means with
    | @number _ n written =>
      have spelled := written t stops
      refine .number ?_
      rw [Value.chars, spelled.skipSpace_eq]
      exact spelled
  | string x =>
    cases means with
    | string =>
      obtain ⟨s, quote, content⟩ := textAt_stringChars x t
      refine .string ?_ content
      rw [Value.chars, quote, skipSpace_of_not_isSpace (by decide)]
  | array ds ih =>
    cases means with
    | @array _ vs items =>
      cases noRepeats with
      | array repeats =>
        have each := forall₂_imp_mem items fun d hd v here u (stops : Stops u) =>
          ih d hd here (repeats d hd) stops
        refine .array (skipSpace_arrayChars vs t) ?_
        cases each with
        | nil => exact .done rfl
        | cons here more =>
          exact itemsAt_compact (blind_documentAt _) true (List.cons_ne_nil _ _) (.cons here more)
  | object ms ih =>
    cases means with
    | @object _ vs names values =>
      cases noRepeats with
      | object distinct repeats =>
        have each : List.Forall₂ (fun d v => ∀ u, Stops u →
            DocumentAt TextAt (ofChars v.chars ++ u) d u) (ms.map Prod.snd) (vs.map Prod.snd) := by
          refine forall₂_imp_mem values fun d hd v here u stops => ?_
          obtain ⟨m, hm, rfl⟩ := List.mem_map.mp hd
          exact ih m hm here (repeats m hm) stops
        have distinct' : (Members.names vs).Nodup := by
          rw [Members.names, ← names]
          exact distinct
        rw [Members.assignAll_nil distinct']
        exact documentAt_objectChars names each

/-- The compact layout of a value whose numbers are integers spells the value. -/
theorem spelled_chars (whole : v.Whole) (stops : Stops t) : Spelled (ofChars v.chars ++ t) v t := by
  induction whole generalizing t with
  | null => exact .null (skipSpace_of_not_isSpace (by decide) _)
  | bool b =>
    cases b with
    | true => exact .yes (skipSpace_of_not_isSpace (by decide) _)
    | false => exact .no (skipSpace_of_not_isSpace (by decide) _)
  | @integer n low high => exact .integer low high stops (skipSpace_integerChars n t)
  | string x =>
    obtain ⟨s, quote, content⟩ := stringAt_stringChars x t
    refine .string ?_ content
    rw [Value.chars, quote, skipSpace_of_not_isSpace (by decide)]
  | @array vs items ih =>
    refine .array (skipSpace_arrayChars vs t) ?_
    cases vs with
    | nil => exact .done rfl
    | cons v vs =>
      refine itemsAt_compact blind_spelled true (List.cons_ne_nil v vs) ?_
      exact List.forall₂_same.mpr fun x mem u stops => ih x mem stops
  | @object vs members ih =>
    refine .object (skipSpace_objectChars vs t) ?_
    cases vs with
    | nil => exact .done rfl
    | cons m vs =>
      refine membersAt_compact stringAt_stringChars true (List.cons_ne_nil m vs) rfl ?_
      rw [List.forall₂_same, List.forall_mem_map]
      exact fun n mem u stops => ih n mem stops

theorem spelled_render (whole : v.Whole) : Spelled (ofText v.render) v [] := by
  have spelled := spelled_chars whole (t := []) (by simp [Stops])
  rwa [List.append_nil, ← ofText_ofList_eq] at spelled

/-- What a value is printed as in the compact layout is a text of a document that means it. -/
theorem spells_render (means : Means Written d v) (noRepeats : d.NoRepeats) :
    Spells TextAt (ofText v.render) d := by
  refine ⟨[], ?_, rfl⟩
  have document := documentAt_chars means noRepeats (t := []) (by simp [Stops])
  rwa [List.append_nil, ← ofText_ofList_eq] at document

/-- The text of an object with one member. -/
theorem documentAt_member (x : String) {d : Document String} {s t : Bytes}
    (value : DocumentAt TextAt s d (0x7D :: t)) :
    DocumentAt TextAt (0x7B :: (ofChars (stringChars x) ++ 0x3A :: s)) (.object [(x, d)]) t := by
  obtain ⟨u, quote, name⟩ := textAt_stringChars x (0x3A :: s)
  have start : skipSpace (ofChars (stringChars x) ++ 0x3A :: s) = 0x22 :: u := by
    rw [quote]
    exact skipSpace_of_not_isSpace (by decide) u
  exact .object (skipSpace_of_not_isSpace (by decide) _)
    (.more (.first start) name (skipSpace_of_not_isSpace (by decide) _) value
      (.done (skipSpace_of_not_isSpace (by decide) t)))

/-- The text of an object with one member that is a number. -/
theorem spells_member (x : String) {digits : Bytes} {l : Literal}
    (number : ∀ t, Stops t → NumberAt (digits ++ t) l t) :
    Spells TextAt (0x7B :: (ofChars (stringChars x) ++ 0x3A :: (digits ++ [0x7D])))
      (.object [(x, .number l)]) := by
  have here := number [0x7D] (stops_cons (by decide) [])
  have spaced := here
  rw [← here.skipSpace_eq] at spaced
  exact ⟨[], documentAt_member x (.number spaced), rfl⟩

end ObserverRelay.Json
