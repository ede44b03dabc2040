import ObserverRelay.Proofs.Json.Characters
import ObserverRelay.Proofs.Json.Recognition
/-!
# Documents whose strings need not be text

A JSON text may hold strings that stand for no text: octets that are no UTF-8, half a character as
an escape. They are judged by their form alone, and what is passed over may hold them. `LooseAt`
gives every string of the right form the text it stands for, or none, so that every JSON text is
one of exactly one document.

## Main statements

* `unambiguous_looseAt`: what a string stands for is determined.
* `isJson_iff_loose`: every JSON text has a document.
* `view_passValue_iff_loose`: a value is passed over exactly if a document stands there.
-/
namespace ObserverRelay.Json

variable {s t u : Bytes}

/-- A document of which a string may stand for no text. -/
abbrev LooseDocument := Document (Option String)

/-- A string from behind its opening quote, and the text that it stands for, if it stands for
one. -/
inductive LooseAt : Bytes → Option String → Bytes → Prop
  | text {s t : Bytes} {x : String} (text : TextAt s x t) : LooseAt s (some x) t
  | noText {s t : Bytes} (form : FormAt s () t) (noText : ¬∃ x u, TextAt s x u) : LooseAt s none t

/-! ## Strings -/

@[simp] theorem looseAt_some_iff {x : String} : LooseAt s (some x) t ↔ TextAt s x t := by
  constructor
  · intro h
    cases h with
    | text text => exact text
  · exact .text

theorem FormAt.unique (h : FormAt s () t) (h' : FormAt s () u) : t = u := by
  have passed := view_passString_iff.mpr h
  rw [view_passString_iff.mpr h'] at passed
  exact (Prod.mk.inj (Except.ok.inj passed)).2.symm

theorem LooseAt.form {x : Option String} (h : LooseAt s x t) : FormAt s () t := by
  cases h with
  | text text => exact text.form
  | noText form => exact form

theorem unambiguous_looseAt : Unambiguous LooseAt := by
  intro s x t y u h h'
  refine ⟨?_, h.form.unique h'.form⟩
  cases h with
  | text text =>
    cases h' with
    | text text' => rw [(unambiguous_textAt _ _ _ _ _ text text').1]
    | noText _ noText => exact absurd ⟨_, _, text⟩ noText
  | noText _ noText =>
    cases h' with
    | text text => exact absurd ⟨_, _, text⟩ noText
    | noText => rfl

/-- Every string of the right form stands for a text or for none. -/
theorem FormAt.loose (form : FormAt s () t) : ∃ x, LooseAt s x t := by
  by_cases text : ∃ x u, TextAt s x u
  · obtain ⟨x, u, text⟩ := text
    obtain rfl := form.unique text.form
    exact ⟨some x, .text text⟩
  · exact ⟨none, .noText form text⟩

/-! ## Documents -/

namespace Document

/-- The document among those whose strings need not be text. -/
abbrev Loosened (d : Document String) (e : LooseDocument) : Prop := d.Like (fun x y => y = some x) e

theorem Loosened.members {ms : List (String × Document String)} {e : LooseDocument}
    (loosened : Loosened (.object ms) e) : ∃ ns : List (String × LooseDocument),
      e = .object (ns.map (Prod.map some id)) ∧
        List.Forall₂ (fun m n => m.1 = n.1 ∧ Loosened m.2 n.2) ms ns := by
  cases loosened with
  | @object _ es names values =>
    induction ms generalizing es with
    | nil =>
      obtain rfl := List.map_eq_nil_iff.mp (List.forall₂_nil_left_iff.mp names)
      exact ⟨[], rfl, .nil⟩
    | cons m ms ih =>
      cases es with
      | nil => cases names
      | cons e es =>
        obtain ⟨name, names⟩ := List.forall₂_cons.mp names
        obtain ⟨value, values⟩ := List.forall₂_cons.mp values
        obtain ⟨ns, same, each⟩ := ih names values
        obtain rfl := Document.object.inj same
        exact ⟨(m.1, e.2) :: ns, by rw [List.map_cons, Prod.map, id, ← name],
          .cons ⟨rfl, value⟩ each⟩

/-- Names carry over. -/
theorem names_of_loosened {ms : List (String × Document String)}
    {ns : List (String × LooseDocument)}
    (each : List.Forall₂ (fun m n => m.1 = n.1 ∧ Loosened m.2 n.2) ms ns) :
    ns.map Prod.fst = ms.map Prod.fst := by
  induction each with
  | nil => rfl
  | cons here _ ih => rw [List.map_cons, List.map_cons, ih, here.1]

end Document

/-- A document keeps its strings when they are taken for such as need not be text. -/
theorem DocumentAt.loose {d : Document String} (h : DocumentAt TextAt s d t) :
    ∃ e, DocumentAt LooseAt s e t ∧ d.Loosened e :=
  h.respelled (P := fun x y => y = some x) fun _ x _ text => ⟨some x, LooseAt.text text, rfl⟩

theorem documentAt_form_iff_loose :
    (∃ d, DocumentAt FormAt s d t) ↔ ∃ d, DocumentAt LooseAt s d t := by
  constructor
  · rintro ⟨d, form⟩
    obtain ⟨e, loose, -⟩ := form.respelled (P := fun _ _ => True) fun _ _ _ form => by
      obtain ⟨x, loose⟩ := form.loose
      exact ⟨x, loose, trivial⟩
    exact ⟨e, loose⟩
  · rintro ⟨d, loose⟩
    obtain ⟨e, form, -⟩ := loose.respelled (P := fun _ _ => True) fun _ _ _ loose =>
      ⟨(), loose.form, trivial⟩
    exact ⟨e, form⟩

/-- Every JSON text has a document. -/
theorem isJson_iff_loose : IsJson s ↔ ∃ d, Spells LooseAt s d := by
  constructor
  · rintro ⟨d, t, form, blank⟩
    obtain ⟨e, loose⟩ := documentAt_form_iff_loose.mp ⟨d, form⟩
    exact ⟨e, t, loose, blank⟩
  · rintro ⟨d, t, loose, blank⟩
    obtain ⟨e, form⟩ := documentAt_form_iff_loose.mpr ⟨d, loose⟩
    exact ⟨e, t, form, blank⟩

/-- A value is passed over exactly if a document stands there. -/
theorem view_passValue_iff_loose :
    (passValue s).view = .ok ((), t) ↔ ∃ d, DocumentAt LooseAt s d t :=
  view_passValue_iff.trans documentAt_form_iff_loose

end ObserverRelay.Json
