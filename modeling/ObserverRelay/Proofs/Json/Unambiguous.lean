import ObserverRelay.Proofs.Json.Document
import ObserverRelay.Proofs.Json.Layout
/-!
# A text says one thing

Octets begin with a text of one document at most, and what follows it is determined, as long as
this holds of strings. A run of digits is the longest one, so no number is the beginning of
another; all other parts are told apart by their first octet.

## Main statements

* `NumberAt.unique`, `unambiguous_textAt`: numbers and strings.
* `DocumentAt.unique`: documents.
-/
namespace ObserverRelay

/-- Octets begin with those of one character at most. -/
theorem Bytes.utf8EncodeChar_append_inj {c d : Char} {s t : Bytes}
    (h : String.utf8EncodeChar c ++ s = String.utf8EncodeChar d ++ t) : c = d ∧ s = t := by
  have decoded (e : Char) (u : Bytes) :
      (String.utf8EncodeChar e ++ u).toByteArray.utf8DecodeChar? 0 = some e := by
    rw [List.toByteArray_append]
    exact ByteArray.utf8DecodeChar?_utf8EncodeChar_append
  have same : c = d := by
    have := decoded c s
    rw [h, decoded d t] at this
    exact (Option.some.inj this).symm
  subst same
  exact ⟨rfl, List.append_cancel_left h⟩

namespace Json

variable {α β : Type} {s t u : Bytes}

/-! ## Numbers -/

namespace DigitsAt
variable {ds es : Bytes}

theorem takeWhile_eq (h : DigitsAt s ds t) : s.takeWhile isDigit = ds := by
  have rest : t.takeWhile isDigit = [] := by
    cases t with
    | nil => rfl
    | cons b t => simp [h.stops b rfl]
  rw [h.text, List.takeWhile_append_of_pos h.digits, rest, List.append_nil]

theorem skipDigits_eq (h : DigitsAt s ds t) : skipDigits s = t := by
  have rest : t.dropWhile isDigit = t := by
    cases t with
    | nil => rfl
    | cons b t => simp [h.stops b rfl]
  rw [skipDigits, h.text, List.dropWhile_append_of_pos h.digits, rest]

theorem unique (h : DigitsAt s ds t) (h' : DigitsAt s es u) : ds = es ∧ t = u :=
  ⟨h.takeWhile_eq.symm.trans h'.takeWhile_eq, h.skipDigits_eq.symm.trans h'.skipDigits_eq⟩

/-- The first of the digits, and that the text begins with it. -/
theorem exists_cons (h : DigitsAt s ds t) :
    ∃ b es, ds = b :: es ∧ s = b :: (es ++ t) ∧ isDigit b = true := by
  obtain ⟨b, es, rfl⟩ := List.exists_cons_of_ne_nil h.nonempty
  exact ⟨b, es, rfl, h.text, h.digits b List.mem_cons_self⟩

/-- No text of digits begins with an octet that is no digit. -/
theorem not_cons {b : UInt8} (h : DigitsAt (b :: s) ds t) (noDigit : isDigit b = false) : False := by
  obtain ⟨c, es, -, front, digit⟩ := h.exists_cons
  obtain rfl := (List.cons.inj front).1
  rw [noDigit] at digit
  cases digit

end DigitsAt

theorem FractionAt.unique {ds es : Bytes} (h : FractionAt s ds t) (h' : FractionAt s es u) :
    ds = es ∧ t = u := by
  cases h with
  | none noPoint =>
    cases h' with
    | none => exact ⟨rfl, rfl⟩
    | digits => exact absurd rfl noPoint
  | digits digits =>
    cases h' with
    | none noPoint => exact absurd rfl noPoint
    | digits digits' => exact digits.unique digits'

theorem ExponentAt.unique {e f : Option Int} (h : ExponentAt s e t) (h' : ExponentAt s f u) :
    e = f ∧ t = u := by
  have noSign {m : UInt8} (mark : m = 0x65 ∨ m = 0x45) (v : Bytes) :
      ¬((m :: v).head? ≠ some 0x65 ∧ (m :: v).head? ≠ some 0x45) := by
    rintro ⟨small, large⟩
    rcases mark with rfl | rfl
    · exact small rfl
    · exact large rfl
  cases h with
  | none noMark =>
    cases h' with
    | none => exact ⟨rfl, rfl⟩
    | plain mark | plus mark | minus mark => exact absurd noMark (noSign mark _)
  | plain mark digits =>
    cases h' with
    | none noMark => exact absurd noMark (noSign mark _)
    | plain _ digits' =>
      obtain ⟨rfl, rfl⟩ := digits.unique digits'
      exact ⟨rfl, rfl⟩
    | plus | minus => exact (digits.not_cons (by decide)).elim
  | plus mark digits =>
    cases h' with
    | none noMark => exact absurd noMark (noSign mark _)
    | plain _ digits' => exact (digits'.not_cons (by decide)).elim
    | plus _ digits' =>
      obtain ⟨rfl, rfl⟩ := digits.unique digits'
      exact ⟨rfl, rfl⟩
  | minus mark digits =>
    cases h' with
    | none noMark => exact absurd noMark (noSign mark _)
    | plain _ digits' => exact (digits'.not_cons (by decide)).elim
    | minus _ digits' =>
      obtain ⟨rfl, rfl⟩ := digits.unique digits'
      exact ⟨rfl, rfl⟩

theorem MagnitudeAt.unique {negative : Bool} {l m : Literal} (h : MagnitudeAt negative s l t)
    (h' : MagnitudeAt negative s m u) : l = m ∧ t = u := by
  cases h with
  | of digits _ point power =>
    cases h' with
    | of digits' _ point' power' =>
      obtain ⟨rfl, rfl⟩ := digits.unique digits'
      obtain ⟨rfl, rfl⟩ := point.unique point'
      obtain ⟨rfl, rfl⟩ := power.unique power'
      exact ⟨rfl, rfl⟩

/-- A number begins with a digit behind its sign. -/
theorem MagnitudeAt.exists_cons {negative : Bool} {l : Literal} (h : MagnitudeAt negative s l t) :
    ∃ b r, s = b :: r ∧ isDigit b = true := by
  cases h with
  | of digits =>
    obtain ⟨b, es, -, front, digit⟩ := digits.exists_cons
    exact ⟨b, _, front, digit⟩

theorem MagnitudeAt.not_minus {negative : Bool} {l : Literal} :
    ¬MagnitudeAt negative (0x2D :: s) l t := by
  intro h
  obtain ⟨b, r, front, digit⟩ := h.exists_cons
  obtain rfl := (List.cons.inj front).1
  exact absurd digit (by decide)

theorem NumberAt.unique {l m : Literal} (h : NumberAt s l t) (h' : NumberAt s m u) :
    l = m ∧ t = u := by
  cases h with
  | plain magnitude =>
    cases h' with
    | plain magnitude' => exact magnitude.unique magnitude'
    | minus => exact magnitude.not_minus.elim
  | minus magnitude =>
    cases h' with
    | plain magnitude' => exact magnitude'.not_minus.elim
    | minus magnitude' => exact magnitude.unique magnitude'

/-- A number begins with a minus sign or a digit. -/
theorem NumberAt.exists_cons {l : Literal} (h : NumberAt s l t) :
    ∃ b r, s = b :: r ∧ (b = 0x2D ∨ isDigit b = true) := by
  cases h with
  | plain magnitude =>
    obtain ⟨b, r, front, digit⟩ := magnitude.exists_cons
    exact ⟨b, r, front, .inr digit⟩
  | minus => exact ⟨_, _, rfl, .inl rfl⟩

/-! ## Strings -/

theorem HexAt.unique {m n : Nat} (h : HexAt s m t) (h' : HexAt s n u) : m = n ∧ t = u := by
  cases h with
  | of first second third fourth =>
    cases h' with
    | of first' second' third' fourth' =>
      obtain rfl := Option.some.inj (first.symm.trans first')
      obtain rfl := Option.some.inj (second.symm.trans second')
      obtain rfl := Option.some.inj (third.symm.trans third')
      obtain rfl := Option.some.inj (fourth.symm.trans fourth')
      exact ⟨rfl, rfl⟩

theorem toNat_not_surrogate (c : Char) : c.toNat < 0xD800 ∨ 0xDFFF < c.toNat := by
  rcases c.valid with low | ⟨high, -⟩
  · exact .inl low
  · exact .inr high

/-- Different letters stand behind a backslash for different characters, and `u` for none. -/
theorem escapeLetters_unique : ∀ p ∈ escapeLetters, p.1 ≠ 0x75 ∧
    ∀ q ∈ escapeLetters, p.1 = q.1 → p = q := by
  decide

theorem EscapeAt.unique {c d : Char} (h : EscapeAt s c t) (h' : EscapeAt s d u) :
    c = d ∧ t = u := by
  cases h with
  | letter letter =>
    obtain ⟨noNumber, same⟩ := escapeLetters_unique _ letter
    cases h' with
    | letter letter' => exact ⟨congrArg Prod.snd (same _ letter' rfl), rfl⟩
    | number | halves => exact absurd rfl noNumber
  | number digits =>
    cases h' with
    | letter letter' => exact absurd rfl (escapeLetters_unique _ letter').1
    | number digits' =>
      obtain ⟨same, rfl⟩ := digits.unique digits'
      exact ⟨Char.toNat_inj.mp same, rfl⟩
    | halves first _ isHigh =>
      obtain ⟨same, -⟩ := digits.unique first
      have := toNat_not_surrogate c
      omega
  | halves first second isHigh _ code =>
    cases h' with
    | letter letter' => exact absurd rfl (escapeLetters_unique _ letter').1
    | number digits =>
      obtain ⟨same, -⟩ := digits.unique first
      have := toNat_not_surrogate d
      omega
    | halves first' second' _ _ code' =>
      obtain ⟨rfl, rest⟩ := first.unique first'
      obtain rfl : _ = _ := (List.cons.inj (List.cons.inj rest).2).2
      obtain ⟨rfl, rfl⟩ := second.unique second'
      exact ⟨Char.toNat_inj.mp (code.trans code'.symm), rfl⟩

/-- The octets of a character that stands for itself begin with no quote and no backslash. -/
theorem utf8EncodeChar_append_ne {c : Char} (noQuote : c ≠ '"') (noEscape : c ≠ '\\')
    (noControl : 0x20 ≤ c.toNat) (s : Bytes) {b : UInt8} (hb : b = 0x22 ∨ b = 0x5C) (t : Bytes) :
    b :: t ≠ String.utf8EncodeChar c ++ s := by
  intro h
  obtain ⟨d, ds, octets⟩ := List.exists_cons_of_ne_nil (String.utf8EncodeChar_ne_nil (c := c))
  have plain := plain_utf8EncodeChar noQuote noEscape (Nat.not_lt.mpr noControl) d
    (octets ▸ List.mem_cons_self)
  rw [octets, List.cons_append] at h
  obtain rfl := (List.cons.inj h).1
  rcases hb with rfl | rfl
  · exact plain.1 rfl
  · exact plain.2.1 rfl

theorem CharactersAt.unique {cs ds : List Char} (h : CharactersAt s cs t)
    (h' : CharactersAt s ds u) : cs = ds ∧ t = u := by
  induction h generalizing ds u with
  | close t =>
    generalize front : (0x22 :: t : Bytes) = s at h'
    cases h' with
    | close =>
      obtain rfl := (List.cons.inj front).2
      exact ⟨rfl, rfl⟩
    | plain noQuote noEscape noControl =>
      exact absurd front (utf8EncodeChar_append_ne noQuote noEscape noControl _ (.inl rfl) _)
    | escaped => exact absurd (List.cons.inj front).1 (by decide)
  | @plain c cs s t noQuote noEscape noControl more ih =>
    generalize front : String.utf8EncodeChar c ++ s = s' at h'
    cases h' with
    | close =>
      exact absurd front.symm (utf8EncodeChar_append_ne noQuote noEscape noControl _ (.inl rfl) _)
    | plain _ _ _ more' =>
      obtain ⟨rfl, rfl⟩ := Bytes.utf8EncodeChar_append_inj front
      obtain ⟨rfl, rfl⟩ := ih more'
      exact ⟨rfl, rfl⟩
    | escaped =>
      exact absurd front.symm (utf8EncodeChar_append_ne noQuote noEscape noControl _ (.inr rfl) _)
  | @escaped c cs s v t escape more ih =>
    generalize front : (0x5C :: s : Bytes) = s' at h'
    cases h' with
    | close => exact absurd (List.cons.inj front).1 (by decide)
    | plain noQuote noEscape noControl =>
      exact absurd front (utf8EncodeChar_append_ne noQuote noEscape noControl _ (.inr rfl) _)
    | escaped escape' more' =>
      obtain rfl := (List.cons.inj front).2
      obtain ⟨rfl, rfl⟩ := escape.unique escape'
      obtain ⟨rfl, rfl⟩ := ih more'
      exact ⟨rfl, rfl⟩

/-- From the same octets a relation leads to one thing and one rest at most. -/
def Unambiguous (R : Bytes → α → Bytes → Prop) : Prop :=
  ∀ s x t y u, R s x t → R s y u → x = y ∧ t = u

theorem unambiguous_textAt : Unambiguous TextAt := by
  intro s x t y u h h'
  obtain ⟨same, rfl⟩ := CharactersAt.unique h h'
  exact ⟨String.toList_injective same, rfl⟩

/-! ## Documents -/

theorem Separated.unique {first : Bool} (h : Separated first s t) (h' : Separated first s u) :
    t = u := by
  cases h with
  | first start =>
    cases h' with
    | first start' => exact start.symm.trans start'
  | comma comma start =>
    cases h' with
    | comma comma' start' =>
      obtain rfl := (List.cons.inj (comma.symm.trans comma')).2
      exact start.symm.trans start'

/-- What stands in front of an item or a member is not the closing octet, unless the item itself
begins with it. -/
theorem Separated.not_close {first : Bool} {b c : UInt8} {r v : Bytes} (h : Separated first s u)
    (front : skipSpace u = b :: r) (other : b ≠ c) (noComma : c ≠ 0x2C) : skipSpace s ≠ c :: v := by
  intro close
  cases h with
  | first start =>
    subst start
    rw [skipSpace_skipSpace] at front
    exact other (List.cons.inj (front.symm.trans close)).1
  | comma comma => exact noComma (List.cons.inj (close.symm.trans comma)).1

/-- Lists are told apart by their items. -/
theorem ItemsAt.unique {R : Bytes → β → Bytes → Prop} (opens : Opens R) {first : Bool}
    {xs ys : List β} (items : ∀ x ∈ xs, ∀ s t y u, R s x t → R s y u → x = y ∧ t = u)
    (h : ItemsAt R first s xs t) (h' : ItemsAt R first s ys u) : xs = ys ∧ t = u := by
  have notDone {first : Bool} {s v w t : Bytes} {x : β} (separated : Separated first s v)
      (item : R v x w) : skipSpace s ≠ 0x5D :: t := by
    obtain ⟨b, r, front, other⟩ := opens v x w item
    exact separated.not_close front other (by decide)
  induction h generalizing ys u with
  | done close =>
    cases h' with
    | done close' => exact ⟨rfl, (List.cons.inj (close.symm.trans close')).2⟩
    | more separated item => exact absurd close (notDone separated item)
  | @more first s v w t x xs separated item more ih =>
    cases h' with
    | done close => exact absurd close (notDone separated item)
    | more separated' item' more' =>
      obtain rfl := separated.unique separated'
      obtain ⟨rfl, rfl⟩ := items x List.mem_cons_self _ _ _ _ item item'
      obtain ⟨rfl, rfl⟩ := ih (fun y hy => items y (List.mem_cons_of_mem x hy)) more'
      exact ⟨rfl, rfl⟩

/-- Objects are told apart by their members. -/
theorem MembersAt.unique {K : Bytes → α → Bytes → Prop} {R : Bytes → β → Bytes → Prop}
    (keys : Unambiguous K) {first : Bool} {ms ns : List (α × β)}
    (values : ∀ m ∈ ms, ∀ s t y u, R s m.2 t → R s y u → m.2 = y ∧ t = u)
    (h : MembersAt K R first s ms t) (h' : MembersAt K R first s ns u) : ms = ns ∧ t = u := by
  have notDone {first : Bool} {s v t : Bytes} (separated : Separated first s (0x22 :: v)) :
      skipSpace s ≠ 0x7D :: t :=
    separated.not_close (skipSpace_of_not_isSpace (by decide) v) (by decide) (by decide)
  induction h generalizing ns u with
  | done close =>
    cases h' with
    | done close' => exact ⟨rfl, (List.cons.inj (close.symm.trans close')).2⟩
    | more separated => exact absurd close (notDone separated)
  | @more first s v w x y t name value ms separated key colon here more ih =>
    cases h' with
    | done close => exact absurd close (notDone separated)
    | more separated' key' colon' here' more' =>
      obtain rfl := (List.cons.inj (separated.unique separated')).2
      obtain ⟨rfl, rfl⟩ := keys _ _ _ _ _ key key'
      obtain rfl := (List.cons.inj (colon.symm.trans colon')).2
      obtain ⟨rfl, rfl⟩ := values (name, value) List.mem_cons_self _ _ _ _ here here'
      obtain ⟨rfl, rfl⟩ := ih (fun m hm => values m (List.mem_cons_of_mem _ hm)) more'
      exact ⟨rfl, rfl⟩

/-- What the first octet of a document tells about it. -/
inductive Kind
  | null
  | yes
  | no
  | number
  | string
  | array
  | object
  deriving DecidableEq

/-- The kind of the documents that begin with an octet. -/
def Kind.of? (b : UInt8) : Option Kind :=
  if b = 0x6E then some null
  else if b = 0x74 then some yes
  else if b = 0x66 then some no
  else if b = 0x2D ∨ isDigit b then some number
  else if b = 0x22 then some string
  else if b = 0x5B then some array
  else if b = 0x7B then some object
  else none

/-- The kind of a document. -/
def Document.kind : Document α → Kind
  | .null => .null
  | .bool true => .yes
  | .bool false => .no
  | .number _ => .number
  | .string _ => .string
  | .array _ => .array
  | .object _ => .object

/-- The kinds of documents that hold no others. -/
def Kind.isScalar : Kind → Bool
  | array | object => false
  | null | yes | no | number | string => true

/-- An octet that a number begins with is no other one. -/
theorem ne_of_number {b c : UInt8} (h : b = 0x2D ∨ isDigit b = true) (noSign : c ≠ 0x2D)
    (noDigit : isDigit c = false) : b ≠ c := by
  rintro rfl
  rcases h with sign | digit
  · exact noSign sign
  · rw [noDigit] at digit
    cases digit

theorem Kind.of?_number {b : UInt8} (h : b = 0x2D ∨ isDigit b = true) : of? b = some .number := by
  rw [of?, if_neg (ne_of_number h (by decide) (by decide)),
    if_neg (ne_of_number h (by decide) (by decide)),
    if_neg (ne_of_number h (by decide) (by decide)), if_pos h]

theorem NumberAt.skipSpace_eq {l : Literal} (h : NumberAt s l t) : skipSpace s = s := by
  obtain ⟨b, r, rfl, sign | digit⟩ := h.exists_cons
  · rw [sign]
    exact skipSpace_of_not_isSpace (by decide) r
  · exact skipSpace_of_not_isSpace (isSpace_of_isDigit digit) r

/-- The first octet of a document tells its kind. -/
theorem DocumentAt.kind {K : Bytes → α → Bytes → Prop} {d : Document α} (h : DocumentAt K s d t) :
    ∃ b r, skipSpace s = b :: r ∧ Kind.of? b = some d.kind := by
  cases h with
  | null word | yes word | no word => exact ⟨_, _, word, rfl⟩
  | string quote => exact ⟨_, _, quote, rfl⟩
  | array bracket => exact ⟨_, _, bracket, rfl⟩
  | object brace => exact ⟨_, _, brace, rfl⟩
  | number number =>
    obtain ⟨b, r, front, first⟩ := number.exists_cons
    exact ⟨b, r, front, Kind.of?_number first⟩

theorem DocumentAt.sameKind {K : Bytes → α → Bytes → Prop} {d e : Document α}
    (h : DocumentAt K s d t) (h' : DocumentAt K s e u) : d.kind = e.kind := by
  obtain ⟨b, r, front, kind⟩ := h.kind
  obtain ⟨c, v, front', kind'⟩ := h'.kind
  obtain rfl := (List.cons.inj (front.symm.trans front')).1
  exact Option.some.inj (kind.symm.trans kind')

theorem opens_documentAt (K : Bytes → α → Bytes → Prop) : Opens (DocumentAt K) := by
  intro s d t h
  obtain ⟨b, r, front, kind⟩ := h.kind
  refine ⟨b, r, front, ?_⟩
  rintro rfl
  exact absurd kind (by simp [Kind.of?, isDigit])

/-- Octets begin with a text of one document at most, and what follows it is determined. -/
theorem DocumentAt.unique {K : Bytes → α → Bytes → Prop} (keys : Unambiguous K) :
    Unambiguous (DocumentAt K) := by
  intro s d t e u h h'
  -- Only documents of one kind are left to be compared.
  have same := h.sameKind h'
  induction d generalizing s t e u with
  | null =>
    cases h with
    | null word =>
      cases h' with
      | null word' =>
        exact ⟨rfl, List.append_cancel_left (List.cons.inj (word.symm.trans word')).2⟩
      | _ => cases same
  | bool b =>
    cases h with
    | yes word =>
      cases h' with
      | yes word' =>
        exact ⟨rfl, List.append_cancel_left (List.cons.inj (word.symm.trans word')).2⟩
      | _ => cases same
    | no word =>
      cases h' with
      | no word' =>
        exact ⟨rfl, List.append_cancel_left (List.cons.inj (word.symm.trans word')).2⟩
      | _ => cases same
  | number l =>
    cases h with
    | number number =>
      cases h' with
      | number number' =>
        obtain ⟨rfl, rfl⟩ := number.unique number'
        exact ⟨rfl, rfl⟩
      | _ => cases same
  | string x =>
    cases h with
    | string quote content =>
      cases h' with
      | string quote' content' =>
        obtain rfl := (List.cons.inj (quote.symm.trans quote')).2
        obtain ⟨rfl, rfl⟩ := keys _ _ _ _ _ content content'
        exact ⟨rfl, rfl⟩
      | _ => cases same
  | array items ih =>
    cases h with
    | array bracket content =>
      cases h' with
      | array bracket' content' =>
        obtain rfl := (List.cons.inj (bracket.symm.trans bracket')).2
        have unique : ∀ x ∈ items, ∀ s t y u, DocumentAt K s x t → DocumentAt K s y u →
            x = y ∧ t = u := fun x hx _ _ _ _ here here' =>
          ih x hx _ _ _ _ here here' (here.sameKind here')
        obtain ⟨rfl, rfl⟩ := content.unique (opens_documentAt K) unique content'
        exact ⟨rfl, rfl⟩
      | _ => cases same
  | object members ih =>
    cases h with
    | object brace content =>
      cases h' with
      | object brace' content' =>
        obtain rfl := (List.cons.inj (brace.symm.trans brace')).2
        have unique : ∀ m ∈ members, ∀ s t y u, DocumentAt K s m.2 t → DocumentAt K s y u →
            m.2 = y ∧ t = u := fun m hm _ _ _ _ here here' =>
          ih m hm _ _ _ _ here here' (here.sameKind here')
        obtain ⟨rfl, rfl⟩ := content.unique keys unique content'
        exact ⟨rfl, rfl⟩
      | _ => cases same

/-- A text is a text of one document at most. -/
theorem Spells.unique {K : Bytes → α → Bytes → Prop} (keys : Unambiguous K) {d e : Document α}
    (h : Spells K s d) (h' : Spells K s e) : d = e := by
  obtain ⟨t, document, -⟩ := h
  obtain ⟨u, document', -⟩ := h'
  exact (DocumentAt.unique keys _ _ _ _ _ document document').1

end Json

end ObserverRelay
