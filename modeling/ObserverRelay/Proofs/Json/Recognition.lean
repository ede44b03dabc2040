import ObserverRelay.Json.Gate
import ObserverRelay.Proofs.Json.Tokens
/-!
# Which octets pass as a document

Passing over a document accepts the grammar and nothing else, at any depth: numbers of any size,
strings by their form. From behind a document the passing goes on as if a scalar had been passed
(`leads_document`); conversely, whatever is passed with some lists and objects open is what these
demand (`Demanded`).

## Main statements

* `view_passValue_iff`: what passes as a value.
* `checkDocument_eq_ok_iff`: octets pass exactly if they are a JSON text.
-/
namespace ObserverRelay.Json

variable {α β : Type} {s t u : Bytes}

/-! ## Scalars and brackets -/

/-- The octet that opens a list or an object. -/
def Frame.opening : Frame → UInt8
  | .list => 0x5B
  | .object => 0x7B

/-- The octet that closes a list or an object. -/
def Frame.closing : Frame → UInt8
  | .list => 0x5D
  | .object => 0x7D

/-- A scalar or an opening bracket, blanks before it included. -/
inductive OpeningAt : Bytes → Opening → Bytes → Prop
  | scalar {s t : Bytes} {d : Document Unit} (document : DocumentAt FormAt s d t)
      (scalar : d.kind.isScalar = true) : OpeningAt s .scalar t
  | opens {s t : Bytes} (frame : Frame) (octet : skipSpace s = frame.opening :: t) :
      OpeningAt s (.opens frame) t

theorem view_passOpening_iff {o : Opening} :
    (passOpening s).view = .ok (o, t) ↔ OpeningAt s o t := by
  constructor
  · intro passed
    rw [passOpening] at passed
    split at passed
    next => cases passed
    next b r h looked =>
      have front := front_eq_octet_iff.mp looked
      split_ifs at passed with null yes no number string array object
      · obtain ⟨rfl, word⟩ := view_readWord_iff.mp (by simpa using passed)
        exact .scalar (.null (by rw [front, null, word])) rfl
      · obtain ⟨rfl, word⟩ := view_readWord_iff.mp (by simpa using passed)
        exact .scalar (.yes (by rw [front, yes, word])) rfl
      · obtain ⟨rfl, word⟩ := view_readWord_iff.mp (by simpa using passed)
        exact .scalar (.no (by rw [front, no, word])) rfl
      · obtain ⟨⟨⟩, taken, rfl⟩ := Outcome.view_map_eq_ok_iff.mp (by simpa using passed)
        obtain ⟨l, number⟩ := view_passNumber_iff.mp taken
        exact .scalar (.number (front ▸ number)) rfl
      · obtain ⟨⟨⟩, taken, rfl⟩ := Outcome.view_map_eq_ok_iff.mp (by simpa using passed)
        exact .scalar (.string (by rw [front, string]) (view_passString_iff.mp taken)) rfl
      · cases passed
        exact .opens .list (by rw [front, array]; rfl)
      · cases passed
        exact .opens .object (by rw [front, object]; rfl)
      · cases passed
  · intro opening
    cases opening with
    | opens frame octet =>
      obtain ⟨shorter, looked⟩ := front_eq_octet octet
      cases frame <;> simp [passOpening, looked, Frame.opening, isDigit]
    | scalar document scalar =>
      cases document with
      | null word | yes word | no word =>
        obtain ⟨shorter, looked⟩ := front_eq_octet word
        simp [passOpening, looked, view_readWord_iff]
      | number number =>
        obtain ⟨b, r, front, start⟩ := number.exists_cons
        obtain ⟨shorter, looked⟩ := front_eq_octet front
        have passed := view_passNumber_iff.mpr ⟨_, number⟩
        rw [front] at passed
        simp only [passOpening, looked, if_pos start,
          if_neg (ne_of_number start (c := 0x6E) (by decide) (by decide)),
          if_neg (ne_of_number start (c := 0x74) (by decide) (by decide)),
          if_neg (ne_of_number start (c := 0x66) (by decide) (by decide)),
          Outcome.view_weaken, Outcome.view_map _ passed]
      | string quote content =>
        obtain ⟨shorter, looked⟩ := front_eq_octet quote
        have passed := view_passString_iff.mpr content
        simp [passOpening, looked, isDigit, Outcome.view_map _ passed]
      | array | object => cases scalar

theorem view_passName_iff :
    (passName s).view = .ok ((), t) ↔
      ∃ u v, skipSpace s = 0x22 :: u ∧ FormAt u () v ∧ skipSpace v = 0x3A :: t := by
  constructor
  · intro passed
    rw [passName] at passed
    split at passed
    next => cases passed
    next b r h looked =>
      split_ifs at passed with quote
      · split at passed
        next => cases passed
        next u hu name =>
          split at passed
          next => cases passed
          next v hv colon =>
            cases passed
            refine ⟨r, u, by rw [front_eq_octet_iff.mp looked, quote],
              view_passString_iff.mp (by rw [name]; rfl), takeColon_eq_ok_iff.mp ⟨hv, colon⟩⟩
      · cases passed
  · rintro ⟨u, v, quote, name, colon⟩
    obtain ⟨shorter, looked⟩ := front_eq_octet quote
    obtain ⟨shorter', passed⟩ := Outcome.eq_of_view (view_passString_iff.mpr name)
    obtain ⟨shorter'', taken⟩ := takeColon_eq colon
    simp [passName, looked, passed, taken]

theorem passBetween_close {frame : Frame} (item : Bool) (close : skipSpace s = frame.closing :: t) :
    ∃ shorter, passBetween frame item s = .ok (.done t shorter) := by
  obtain ⟨shorter, looked⟩ := front_eq_octet close
  refine ⟨shorter, ?_⟩
  cases frame <;> simp [passBetween, looked, Frame.closing]

theorem passBetween_more (frame : Frame) {item : Bool} {b : UInt8} {r : Bytes}
    (separated : Separated (!item) s u) (front : skipSpace u = b :: r) (other : b ≠ frame.closing) :
    ∃ v le, passBetween frame item s = .ok (.more v le) ∧ skipSpace v = u := by
  have noClose : ¬(frame = .list ∧ b = 0x5D ∨ frame = .object ∧ b = 0x7D) := by
    rintro (⟨rfl, rfl⟩ | ⟨rfl, rfl⟩)
    · exact other rfl
    · exact other rfl
  cases item with
  | false =>
    cases separated with
    | first start =>
      subst start
      rw [skipSpace_skipSpace] at front
      obtain ⟨shorter, looked⟩ := front_eq_octet front
      refine ⟨b :: r, shorter, ?_, ?_⟩
      · simp [passBetween, looked, noClose]
      · rw [← front, skipSpace_skipSpace]
  | true =>
    cases separated with
    | @comma _ v _ comma start =>
      obtain ⟨shorter, looked⟩ := front_eq_octet comma
      exact ⟨v, le_of_shorter shorter, by simp [passBetween, looked], start⟩

/-- What is passed between two parts is an end, or leads to what the next part begins with. -/
theorem passBetween_eq_ok {frame : Frame} {item : Bool} {next : Upcoming s}
    (passed : passBetween frame item s = .ok next) :
    (∃ t h, next = .done t h ∧ skipSpace s = frame.closing :: t) ∨
      ∃ t h, next = .more t h ∧ Separated (!item) s (skipSpace t) := by
  unfold passBetween at passed
  split at passed
  next => cases passed
  next b r h looked =>
    have front := front_eq_octet_iff.mp looked
    split at passed
    next comma =>
      obtain ⟨rfl, rfl⟩ := comma
      exact .inr ⟨r, _, (Except.ok.inj passed).symm, .comma front rfl⟩
    split at passed
    next close =>
      refine .inl ⟨r, h, (Except.ok.inj passed).symm, ?_⟩
      obtain ⟨rfl, rfl⟩ | ⟨rfl, rfl⟩ := close
      · exact front
      · exact front
    split at passed
    next => cases passed
    next start =>
      obtain rfl : item = false := by simpa using start
      exact .inr ⟨b :: r, h, (Except.ok.inj passed).symm,
        .first (by rw [← front, skipSpace_skipSpace])⟩

theorem close_of_passBetween {frame : Frame} {item : Bool} {h : t.length < s.length}
    (passed : passBetween frame item s = .ok (.done t h)) : skipSpace s = frame.closing :: t := by
  obtain ⟨u, _, next, close⟩ | ⟨_, _, next, _⟩ := passBetween_eq_ok passed
  · cases next
    exact close
  · cases next

theorem separated_of_passBetween {frame : Frame} {item : Bool} {h : t.length ≤ s.length}
    (passed : passBetween frame item s = .ok (.more t h)) : Separated (!item) s (skipSpace t) := by
  obtain ⟨_, _, next, _⟩ | ⟨u, _, next, separated⟩ := passBetween_eq_ok passed
  · cases next
  · cases next
    exact separated

/-! ## What passes is a document -/

/-- What the open lists and objects demand of the rest of the text, the innermost one first;
`item` says that a value has just been passed over. -/
def Demanded : List Frame → (item : Bool) → Bytes → Bytes → Prop
  | [], _, s, t => s = t
  | .list :: frames, item, s, t =>
    ∃ ds u, ItemsAt (DocumentAt FormAt) (!item) s ds u ∧ Demanded frames true u t
  | .object :: frames, item, s, t =>
    ∃ ms u, MembersAt FormAt (DocumentAt FormAt) (!item) s ms u ∧ Demanded frames true u t

/-- What is demanded of the rest of the text at a stage. -/
def DemandedAt (frames : List Frame) : Stage → Bytes → Bytes → Prop
  | .value, s, t => ∃ d u, DocumentAt FormAt s d u ∧ Demanded frames true u t
  | .frame item, s, t => Demanded frames item s t

/-- A bracket that closes gives the innermost frame what it demands. -/
theorem Demanded.close {frame : Frame} {frames : List Frame} {item : Bool}
    (close : skipSpace s = frame.closing :: t) (rest : Demanded frames true t u) :
    Demanded (frame :: frames) item s u := by
  cases frame with
  | list => exact ⟨[], t, .done close, rest⟩
  | object => exact ⟨[], t, .done close, rest⟩

theorem Demanded.item {frames : List Frame} {item : Bool} {v : Bytes}
    (separated : Separated (!item) s (skipSpace t))
    (rest : DemandedAt (.list :: frames) .value t v) : Demanded (.list :: frames) item s v := by
  obtain ⟨d, u, document, ds, w, items, outer⟩ := rest
  have here := document.of_skipSpace_eq (skipSpace_skipSpace t)
  exact ⟨d :: ds, w, .more separated here items, outer⟩

theorem Demanded.member {frames : List Frame} {item : Bool} {v x : Bytes}
    (separated : Separated (!item) s (0x22 :: t)) (name : FormAt t () u)
    (colon : skipSpace u = 0x3A :: v) (rest : DemandedAt (.object :: frames) .value v x) :
    Demanded (.object :: frames) item s x := by
  obtain ⟨d, y, document, ms, z, members, outer⟩ := rest
  exact ⟨((), d) :: ms, z, .more separated name colon document members, outer⟩

theorem demanded_of_passFrames {frames : List Frame} {stage : Stage} {le : t.length ≤ s.length}
    {taken : stage = .value ∨ t.length < s.length} {r : Taken s Unit}
    (passed : passFrames s frames stage t le taken = .ok r) : DemandedAt frames stage t r.rest := by
  fun_induction passFrames s frames stage t le taken with
  | case1 => cases passed
  | case2 t _ frames _ u hu opened _ ih =>
    have rest := ih passed
    have opening := view_passOpening_iff.mp (by rw [opened]; rfl)
    cases opening with
    | scalar document => exact ⟨_, u, document, rest⟩
  | case3 t _ frames _ frame u hu opened _ ih =>
    have opening := view_passOpening_iff.mp (by rw [opened]; rfl)
    cases opening with
    | opens frame octet =>
      cases frame with
      | list =>
        obtain ⟨ds, v, items, rest⟩ := ih passed
        exact ⟨.array ds, v, .array octet items, rest⟩
      | object =>
        obtain ⟨ms, v, members, rest⟩ := ih passed
        exact ⟨.object ms, v, .object octet members, rest⟩
  | case4 =>
    cases passed
    rfl
  | case5 => cases passed
  | case6 t _ item frame frames _ u hu between _ ih =>
    exact .close (close_of_passBetween between) (ih passed)
  | case7 t _ item frames _ u hu _ between ih =>
    exact .item (separated_of_passBetween between) (ih passed)
  | case8 => cases passed
  | case9 t _ item frames _ u hu _ v hv named _ between ih =>
    obtain ⟨w, x, quote, name, colon⟩ := view_passName_iff.mp (by rw [named]; rfl)
    have separated := separated_of_passBetween between
    rw [quote] at separated
    exact .member separated name colon (ih passed)

/-! ## Documents pass -/

/-- Passing on from `u` is passing on from `t`, with what is open and the stage changed. -/
def Leads (s : Bytes) (frames : List Frame) (stage : Stage) (u : Bytes) (frames' : List Frame)
    (stage' : Stage) (t : Bytes) : Prop :=
  ∀ le taken, ∃ le' taken',
    passFrames s frames stage u le taken = passFrames s frames' stage' t le' taken'

section Leads
variable {v w x : Bytes} {frames frames' frames'' : List Frame} {stage stage' stage'' : Stage}
  {item : Bool}

theorem Leads.trans (h : Leads s frames stage u frames' stage' v)
    (h' : Leads s frames' stage' v frames'' stage'' w) : Leads s frames stage u frames'' stage'' w := by
  intro le taken
  obtain ⟨le', taken', same⟩ := h le taken
  obtain ⟨le'', taken'', same'⟩ := h' le' taken'
  exact ⟨le'', taken'', same.trans same'⟩

theorem leads_scalar (opening : OpeningAt u .scalar v) :
    Leads s frames .value u frames (.frame true) v := by
  intro le taken
  obtain ⟨shorter, passed⟩ := Outcome.eq_of_view (view_passOpening_iff.mpr opening)
  refine ⟨le_of_shorter_of_le shorter le, .inr (shorter_of_le shorter le), ?_⟩
  rw [passFrames]
  simp only [passed]

theorem leads_open (frame : Frame) (octet : skipSpace u = frame.opening :: v) :
    Leads s frames .value u (frame :: frames) (.frame false) v := by
  intro le taken
  obtain ⟨shorter, passed⟩ := Outcome.eq_of_view (view_passOpening_iff.mpr (.opens frame octet))
  refine ⟨le_of_shorter_of_le shorter le, .inr (shorter_of_le shorter le), ?_⟩
  rw [passFrames]
  simp only [passed]

theorem leads_close {frame : Frame} (close : skipSpace u = frame.closing :: v) :
    Leads s (frame :: frames) (.frame item) u frames (.frame true) v := by
  intro le taken
  obtain ⟨shorter, between⟩ := passBetween_close item close
  refine ⟨le_of_shorter_of_le shorter le, .inr (shorter_of_le shorter le), ?_⟩
  rw [passFrames]
  simp only [between]

theorem leads_item (frames : List Frame) {d : Document Unit} (separated : Separated (!item) u v)
    (document : DocumentAt FormAt v d w) :
    ∃ x, DocumentAt FormAt x d w ∧
      Leads s (.list :: frames) (.frame item) u (.list :: frames) .value x := by
  obtain ⟨b, r, front, noClose⟩ := opens_documentAt FormAt _ _ _ document
  obtain ⟨x, shorter, between, start⟩ := passBetween_more .list separated front noClose
  refine ⟨x, document.of_skipSpace_eq (by rw [← start, skipSpace_skipSpace]), fun le taken => ?_⟩
  refine ⟨Nat.le_trans shorter le, .inl rfl, ?_⟩
  conv_lhs => rw [passFrames]
  simp only [between]

theorem leads_member (separated : Separated (!item) u (0x22 :: v)) (name : FormAt v () w)
    (colon : skipSpace w = 0x3A :: x) :
    Leads s (.object :: frames) (.frame item) u (.object :: frames) .value x := by
  intro le taken
  have quote : skipSpace (0x22 :: v) = 0x22 :: v := skipSpace_of_not_isSpace (by decide) v
  obtain ⟨y, shorter, between, start⟩ :=
    passBetween_more .object separated quote (by decide)
  obtain ⟨shorter', named⟩ :=
    Outcome.eq_of_view (view_passName_iff.mpr ⟨v, w, start, name, colon⟩)
  refine ⟨le_of_item shorter' shorter le, .inl rfl, ?_⟩
  conv_lhs => rw [passFrames]
  simp only [between, named]

theorem leads_items (frames : List Frame) {first : Bool} {ds : List (Document Unit)}
    (each : ∀ d ∈ ds, ∀ u v frames, DocumentAt FormAt u d v →
      Leads s frames .value u frames (.frame true) v)
    (items : ItemsAt (DocumentAt FormAt) first u ds v) :
    Leads s (.list :: frames) (.frame (!first)) u frames (.frame true) v := by
  induction items with
  | done close => exact leads_close close
  | @more first u v w t d ds separated document more ih =>
    rw [← Bool.not_not first] at separated
    obtain ⟨x, here, start⟩ := leads_item (s := s) frames separated document
    have value := each d List.mem_cons_self _ _ (.list :: frames) here
    exact (start.trans value).trans (ih fun e he => each e (List.mem_cons_of_mem d he))

theorem leads_members (frames : List Frame) {first : Bool} {ms : List (Unit × Document Unit)}
    (each : ∀ m ∈ ms, ∀ u v frames, DocumentAt FormAt u m.2 v →
      Leads s frames .value u frames (.frame true) v)
    (members : MembersAt FormAt (DocumentAt FormAt) first u ms v) :
    Leads s (.object :: frames) (.frame (!first)) u frames (.frame true) v := by
  induction members with
  | done close => exact leads_close close
  | @more first u v w x y t name d ms separated key colon document more ih =>
    rw [← Bool.not_not first] at separated
    have start : Leads s (.object :: frames) (.frame (!first)) u (.object :: frames) .value x :=
      leads_member separated key colon
    have value := each (name, d) List.mem_cons_self _ _ (.object :: frames) document
    exact (start.trans value).trans (ih fun m hm => each m (List.mem_cons_of_mem _ hm))

/-- From behind a document the passing goes on as if a scalar had been passed. -/
theorem leads_document {d : Document Unit} (document : DocumentAt FormAt u d v) :
    Leads s frames .value u frames (.frame true) v := by
  induction d generalizing u v frames with
  | null | number | string => exact leads_scalar (.scalar document rfl)
  | bool b => exact leads_scalar (.scalar document (by cases b <;> rfl))
  | array ds ih =>
    cases document with
    | array bracket content =>
      have inside := leads_items frames (fun d hd _ _ _ here => ih d hd here) content
      exact (leads_open .list bracket).trans inside
  | object ms ih =>
    cases document with
    | object brace content =>
      have inside := leads_members frames (fun m hm _ _ _ here => ih m hm here) content
      exact (leads_open .object brace).trans inside

end Leads

/-! ## Whole texts -/

theorem view_passValue_iff :
    (passValue s).view = .ok ((), t) ↔ ∃ d, DocumentAt FormAt s d t := by
  constructor
  · intro passed
    obtain ⟨shorter, passed⟩ := Outcome.eq_of_view passed
    obtain ⟨d, u, document, rfl⟩ := demanded_of_passFrames passed
    exact ⟨d, document⟩
  · rintro ⟨d, document⟩
    obtain ⟨le, taken, same⟩ := leads_document document (length_le_self s) (.inl rfl)
    rw [passValue, same, passFrames]
    rfl

/-- Octets pass exactly if they are a JSON text. -/
theorem checkDocument_eq_ok_iff : checkDocument s = .ok () ↔ IsJson s := by
  rw [checkDocument, readWhole_eq_ok_iff]
  constructor
  · rintro ⟨t, passed, ended⟩
    obtain ⟨d, document⟩ := view_passValue_iff.mp passed
    exact ⟨d, t, document, ended⟩
  · rintro ⟨d, t, document, ended⟩
    exact ⟨t, view_passValue_iff.mpr ⟨d, document⟩, ended⟩

/-! ## Strings that are text -/

theorem FormAt.append {bs : Bytes} (h : FormAt s () t)
    (plain : ∀ b ∈ bs, b ≠ 0x22 ∧ b ≠ 0x5C ∧ ¬b < 0x20) : FormAt (bs ++ s) () t := by
  induction bs with
  | nil => exact h
  | cons b bs ih =>
    obtain ⟨noQuote, noEscape, noControl⟩ := plain b List.mem_cons_self
    have more := ih fun c hc => plain c (List.mem_cons_of_mem b hc)
    exact .plain noQuote noEscape (UInt8.not_lt.mp noControl) more

/-- A string that stands for a text has the form of a string. -/
theorem TextAt.form {x : String} (h : TextAt s x t) : FormAt s () t := by
  rw [TextAt] at h
  generalize x.toList = cs at h
  induction h with
  | close t => exact .close t
  | plain noQuote noEscape noControl more ih =>
    exact ih.append (plain_utf8EncodeChar noQuote noEscape (Nat.not_lt.mpr noControl))
  | escaped escape more ih =>
    cases escape with
    | letter letter => exact .letter letter ih
    | number digits => exact .number digits ih
    | halves first second => exact .number first (.number second ih)

/-- Documents that differ in their strings at most, each string being related to the one in its
place. -/
inductive Document.Like (P : α → β → Prop) : Document α → Document β → Prop
  | null : Like P .null .null
  | bool (b : Bool) : Like P (.bool b) (.bool b)
  | number (l : Literal) : Like P (.number l) (.number l)
  | string {x : α} {y : β} (same : P x y) : Like P (.string x) (.string y)
  | array {ds : List (Document α)} {es : List (Document β)} (items : List.Forall₂ (Like P) ds es) :
      Like P (.array ds) (.array es)
  | object {ms : List (α × Document α)} {ns : List (β × Document β)}
      (names : List.Forall₂ P (ms.map Prod.fst) (ns.map Prod.fst))
      (values : List.Forall₂ (Like P) (ms.map Prod.snd) (ns.map Prod.snd)) :
      Like P (.object ms) (.object ns)

/-- If what spells a string by one relation spells a related one by another, the texts of documents
carry over. -/
theorem DocumentAt.respelled {K : Bytes → α → Bytes → Prop} {K' : Bytes → β → Bytes → Prop}
    {P : α → β → Prop} (strings : ∀ s x t, K s x t → ∃ y, K' s y t ∧ P x y) {d : Document α}
    (h : DocumentAt K s d t) : ∃ e, DocumentAt K' s e t ∧ d.Like P e := by
  induction d generalizing s t with
  | null =>
    cases h with
    | null word => exact ⟨_, .null word, .null⟩
  | bool b =>
    cases h with
    | yes word => exact ⟨_, .yes word, .bool _⟩
    | no word => exact ⟨_, .no word, .bool _⟩
  | number l =>
    cases h with
    | number number => exact ⟨_, .number number, .number l⟩
  | string x =>
    cases h with
    | string quote content =>
      obtain ⟨y, content', same⟩ := strings _ _ _ content
      exact ⟨_, .string quote content', .string same⟩
  | array ds ih =>
    cases h with
    | array bracket content =>
      have inside : ∀ {first : Bool} {u v : Bytes} {ds' : List (Document α)},
          (∀ d ∈ ds', d ∈ ds) → ItemsAt (DocumentAt K) first u ds' v →
            ∃ es, ItemsAt (DocumentAt K') first u es v ∧
              List.Forall₂ (Document.Like P) ds' es := by
        intro first u v ds' among items
        induction items with
        | done close => exact ⟨[], .done close, .nil⟩
        | more separated item _ later =>
          obtain ⟨e, here, same⟩ := ih _ (among _ List.mem_cons_self) item
          obtain ⟨es, rest, others⟩ := later fun d hd => among d (List.mem_cons_of_mem _ hd)
          exact ⟨e :: es, .more separated here rest, .cons same others⟩
      obtain ⟨es, items, same⟩ := inside (fun _ hd => hd) content
      exact ⟨_, .array bracket items, .array same⟩
  | object ms ih =>
    cases h with
    | object brace content =>
      have inside : ∀ {first : Bool} {u v : Bytes} {ms' : List (α × Document α)},
          (∀ m ∈ ms', m ∈ ms) → MembersAt K (DocumentAt K) first u ms' v →
            ∃ es, MembersAt K' (DocumentAt K') first u es v ∧
              List.Forall₂ P (ms'.map Prod.fst) (es.map Prod.fst) ∧
              List.Forall₂ (Document.Like P) (ms'.map Prod.snd) (es.map Prod.snd) := by
        intro first u v ms' among members
        induction members with
        | done close => exact ⟨[], .done close, .nil, .nil⟩
        | more separated key colon value _ later =>
          obtain ⟨e, here, same⟩ := ih _ (among _ List.mem_cons_self) value
          obtain ⟨es, rest, names, values⟩ := later fun m hm => among m (List.mem_cons_of_mem _ hm)
          obtain ⟨k, key', sameKey⟩ := strings _ _ _ key
          exact ⟨(k, e) :: es, .more separated key' colon here rest, .cons sameKey names,
            .cons same values⟩
      obtain ⟨es, members, names, values⟩ := inside (fun _ hm => hm) content
      exact ⟨_, .object brace members, .object names values⟩

/-- A document whose strings are text is one by the form of its strings. -/
theorem DocumentAt.form {d : Document String} (h : DocumentAt TextAt s d t) :
    ∃ e, DocumentAt FormAt s e t := by
  obtain ⟨e, form, -⟩ := h.respelled (P := fun _ _ => True) fun _ _ _ text =>
    ⟨(), text.form, trivial⟩
  exact ⟨e, form⟩

/-- A text whose strings are text is a text by the form of its strings. -/
theorem Spells.isJson {d : Document String} (spelled : Spells TextAt s d) : IsJson s := by
  obtain ⟨t, document, blank⟩ := spelled
  obtain ⟨e, form⟩ := document.form
  exact ⟨e, t, form, blank⟩

/-- Where nothing passes as a value, no document stands. -/
theorem no_document_of_passValue (refused : (passValue s).toOption.isNone = true) :
    ¬∃ (d : Document String) (t : Bytes), DocumentAt TextAt s d t := by
  rintro ⟨d, t, document⟩
  obtain ⟨d', form⟩ := document.form
  have passed := view_passValue_iff.mpr ⟨d', form⟩
  cases read : passValue s with
  | error e =>
    rw [read] at passed
    cases passed
  | ok taken =>
    rw [read] at refused
    cases refused

end ObserverRelay.Json
