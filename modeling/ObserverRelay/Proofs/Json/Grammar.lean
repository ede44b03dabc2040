import ObserverRelay.Json.Printer
import ObserverRelay.Json.Reader
import ObserverRelay.Proofs.Text.Ascii
import Mathlib.Data.List.DropRight
import Mathlib.Data.List.Forall2
/-!
# Texts that spell a value

`Spelled s v t` says that the octets `s` begin with a text of the value `v` and that `t` is what
follows. Any white space may stand between the tokens and any character of a string may be
escaped, so one value has many texts; both layouts of the printer are among them. The loops
over items and members are relations of their own, with the relation of one item as a
parameter.

## Main statements

* `view_readString`: a string is read as what it spells.
* `view_itemLoop`, `view_memberLoop`: the two loops of the reader follow the grammar.
-/
namespace ObserverRelay.Json

variable {α β σ : Type} {s t u : Bytes}

/-! ## Outcomes without their lengths -/

/-- What a reader took and what it left, or its fault. -/
def Outcome.view (o : Outcome s α) : Except Fault (α × Bytes) :=
  match o with
  | .ok r => .ok (r.value, r.rest)
  | .error e => .error e

@[simp] theorem Outcome.view_ok (r : Taken s α) :
    Outcome.view (.ok r : Outcome s α) = .ok (r.value, r.rest) := rfl

@[simp] theorem Outcome.view_weaken (o : Outcome t α) (h : t.length ≤ s.length) :
    (Outcome.weaken o h).view = Outcome.view o := by
  cases o <;> rfl

@[simp] theorem Outcome.view_within (o : Outcome t α) (h : t.length < s.length) :
    (Outcome.within o h).view = Outcome.view o := by
  cases o <;> rfl

theorem Outcome.view_map {o : Outcome s α} {a : α} (f : α → β) (h : Outcome.view o = .ok (a, t)) :
    (Outcome.map f o).view = .ok (f a, t) := by
  cases o with
  | error e => simp [Outcome.view] at h
  | ok r =>
    obtain ⟨rfl, rfl⟩ : r.value = a ∧ r.rest = t := by simpa using h
    rfl

/-- An outcome is known once its view is. -/
theorem Outcome.eq_of_view {o : Outcome s α} {a : α} (h : Outcome.view o = .ok (a, t)) :
    ∃ shorter, o = .ok ⟨a, t, shorter⟩ := by
  cases o with
  | error e => simp [Outcome.view] at h
  | ok r =>
    obtain ⟨rfl, rfl⟩ : r.value = a ∧ r.rest = t := by simpa using h
    exact ⟨r.shorter, rfl⟩

/-! ## Blanks -/

theorem front_eq_octet {b : UInt8} (h : skipSpace s = b :: t) :
    ∃ shorter, front s = .octet b t shorter :=
  ⟨shorter_of_skipSpace h, front_eq_octet_iff.mpr h⟩

@[simp] theorem skipSpace_skipSpace (s : Bytes) : skipSpace (skipSpace s) = skipSpace s := by
  simp [skipSpace, List.dropWhile_idempotent]

theorem skipSpace_of_not_isSpace {b : UInt8} (h : isSpace b = false) (s : Bytes) :
    skipSpace (b :: s) = b :: s := by
  simp [skipSpace, h]

theorem skipSpace_append {w : Bytes} (h : ∀ b ∈ w, isSpace b = true) (s : Bytes) :
    skipSpace (w ++ s) = skipSpace s := by
  simp only [skipSpace]
  rw [List.dropWhile_append_of_pos h]

/-! ## Whole texts -/

theorem expectEnd_eq_ok_iff : expectEnd s = .ok () ↔ skipSpace s = [] := by
  rw [expectEnd]
  split
  next empty => exact iff_of_true rfl empty
  next more => exact iff_of_false nofun more

/-- A whole text is read if a reader leaves nothing but blanks of it. -/
theorem readWhole_eq_ok_iff {reader : Reader α} {a : α} :
    readWhole reader s = .ok a ↔ ∃ t, (reader s).view = .ok (a, t) ∧ skipSpace t = [] := by
  unfold readWhole
  constructor
  · intro read
    split at read
    next => cases read
    next r taken =>
      split at read
      next => cases read
      next ended =>
        obtain rfl : r.value = a := Except.ok.inj read
        exact ⟨r.rest, by rw [taken]; rfl, expectEnd_eq_ok_iff.mp ended⟩
  · rintro ⟨t, taken, none⟩
    obtain ⟨shorter, taken⟩ := Outcome.eq_of_view taken
    have ended := expectEnd_eq_ok_iff.mpr none
    simp only [taken, ended]

/-! ## Strings -/

/-- From behind its opening quote a string spells the octets `bs`; `t` follows its closing
quote. -/
inductive StringAt : Bytes → Bytes → Bytes → Prop
  | close (t : Bytes) : StringAt (0x22 :: t) [] t
  | plain {b : UInt8} {s bs t : Bytes} (noQuote : b ≠ 0x22) (noEscape : b ≠ 0x5C)
      (noControl : ¬b < 0x20) (more : StringAt s bs t) : StringAt (b :: s) (b :: bs) t
  | escaped {s u cs bs t : Bytes} (escape : (readEscape s).view = .ok (cs, u))
      (more : StringAt u bs t) : StringAt (0x5C :: s) (cs ++ bs) t

theorem view_scanString {bs : Bytes} (h : StringAt u bs t) (done : Bytes)
    (le : u.length ≤ s.length) : (scanString s done u le).view = .ok (done.reverse ++ bs, t) := by
  -- What was read before is a parameter of the scan, so it must vary with the text.
  induction h generalizing done with
  | close t =>
    rw [scanString]
    simp
  | @plain b u bs t noQuote noEscape noControl more ih =>
    rw [scanString]
    simp only [if_neg noQuote, if_neg noEscape, if_neg noControl]
    rw [ih]
    simp
  | @escaped u v cs bs t escape more ih =>
    obtain ⟨shorter, read⟩ := Outcome.eq_of_view escape
    rw [scanString]
    simp only [show ¬(0x5C : UInt8) = 0x22 by decide, if_false, if_true, read]
    rw [ih]
    simp

/-- From behind its opening quote a string spells the octets of a text. -/
def NameAt (s : Bytes) (x : String) (t : Bytes) : Prop := StringAt s (Bytes.ofText x) t

/-- A string that spells a text is read as this text. -/
theorem view_readString {x : String} (h : NameAt s x t) :
    (readString s).view = .ok (x, t) := by
  obtain ⟨shorter, read⟩ := Outcome.eq_of_view (view_scanString h [] (length_le_self s))
  simp [readString, read]

/-! ## Items and members -/

/-- What separates an item or a member from what stands before it: blanks, and a comma unless it
is the first. -/
inductive Separated : Bool → Bytes → Bytes → Prop
  | first {s u : Bytes} (start : skipSpace s = u) : Separated true s u
  | comma {s v u : Bytes} (comma : skipSpace s = 0x2C :: v) (start : skipSpace v = u) :
      Separated false s u

/-- The items of a list up to its closing bracket, given how one item is spelled. -/
inductive ItemsAt (R : Bytes → β → Bytes → Prop) : Bool → Bytes → List β → Bytes → Prop
  | done {first : Bool} {s t : Bytes} (close : skipSpace s = 0x5D :: t) : ItemsAt R first s [] t
  | more {first : Bool} {s u v t : Bytes} {x : β} {xs : List β} (separated : Separated first s u)
      (item : R u x v) (more : ItemsAt R false v xs t) : ItemsAt R first s (x :: xs) t

/-- The members of an object up to its closing brace, given how a name and how a value is
spelled. -/
inductive MembersAt (K : Bytes → α → Bytes → Prop) (R : Bytes → β → Bytes → Prop) :
    Bool → Bytes → List (α × β) → Bytes → Prop
  | done {first : Bool} {s t : Bytes} (close : skipSpace s = 0x7D :: t) : MembersAt K R first s [] t
  | more {first : Bool} {s u v w y t : Bytes} {name : α} {x : β} {xs : List (α × β)}
      (separated : Separated first s (0x22 :: u)) (key : K u name v)
      (colon : skipSpace v = 0x3A :: w) (value : R w x y) (more : MembersAt K R false y xs t) :
      MembersAt K R first s ((name, x) :: xs) t

/-- No text of an item begins with a closing bracket. -/
def Opens (R : Bytes → β → Bytes → Prop) : Prop :=
  ∀ s x t, R s x t → ∃ b u, skipSpace s = b :: u ∧ b ≠ 0x5D

theorem nextItem_close (first : Bool) (close : skipSpace s = 0x5D :: t) :
    ∃ shorter, nextItem first s = .ok (.done t shorter) := by
  obtain ⟨shorter, looked⟩ := front_eq_octet close
  exact ⟨shorter, by simp [nextItem, looked]⟩

theorem nextItem_more {R : Bytes → β → Bytes → Prop} (opens : Opens R) {first : Bool} {x : β}
    {v : Bytes} (separated : Separated first s u) (item : R u x v) :
    ∃ le, nextItem first s = .ok (.more u le) := by
  obtain ⟨b, w, front, ne⟩ := opens u x v item
  cases separated with
  | first start =>
    obtain rfl : u = b :: w := by rw [← front, ← start, skipSpace_skipSpace]
    obtain ⟨shorter, looked⟩ := front_eq_octet start
    exact ⟨shorter, by simp [nextItem, looked, ne]⟩
  | @comma _ y _ comma start =>
    obtain rfl : u = b :: w := by rw [← front, ← start, skipSpace_skipSpace]
    obtain ⟨shorter, looked⟩ := front_eq_octet comma
    obtain ⟨shorter', looked'⟩ := front_eq_octet start
    exact ⟨le_of_le_of_shorter shorter' shorter, by simp [nextItem, looked, looked', ne,
      Upcoming.within]⟩

theorem nextName_close (first : Bool) (close : skipSpace s = 0x7D :: t) :
    ∃ shorter, nextName first s = .ok (.done t shorter) := by
  obtain ⟨shorter, looked⟩ := front_eq_octet close
  exact ⟨shorter, by simp [nextName, looked]⟩

theorem nextName_more {first : Bool} (separated : Separated first s (0x22 :: u)) :
    ∃ le, nextName first s = .ok (.more u le) := by
  cases separated with
  | first start =>
    obtain ⟨shorter, looked⟩ := front_eq_octet start
    exact ⟨le_of_shorter shorter, by simp [nextName, looked]⟩
  | @comma _ y _ comma start =>
    obtain ⟨shorter, looked⟩ := front_eq_octet comma
    obtain ⟨shorter', looked'⟩ := front_eq_octet start
    exact ⟨le_of_le_of_shorter (le_of_shorter shorter') shorter, by simp [nextName, looked, looked',
      Upcoming.within]⟩

theorem takeColon_eq (colon : skipSpace s = 0x3A :: t) :
    ∃ shorter, takeColon s = .ok ⟨t, shorter⟩ := by
  obtain ⟨shorter, looked⟩ := front_eq_octet colon
  exact ⟨shorter, by simp [takeColon, looked]⟩

theorem takeColon_eq_ok_iff :
    (∃ shorter, takeColon s = .ok ⟨t, shorter⟩) ↔ skipSpace s = 0x3A :: t := by
  constructor
  · rintro ⟨shorter, taken⟩
    rw [takeColon] at taken
    split at taken
    next => cases taken
    next b r h looked =>
      split at taken
      next colon =>
        cases taken
        rw [front_eq_octet_iff.mp looked, colon]
      next => cases taken
  · exact takeColon_eq

/-- What the steps of a loop make of a state, item after item, on any text of the items. -/
inductive ItemRun (R : Bytes → β → Bytes → Prop) (step : Nat → σ → Reader σ) :
    Nat → σ → List β → σ → Prop
  | done (index : Nat) (state : σ) : ItemRun R step index state [] state
  | more {index : Nat} {state next last : σ} {x : β} {xs : List β}
      (item : ∀ s t, R s x t → (step index state s).view = .ok (next, t))
      (more : ItemRun R step (index + 1) next xs last) : ItemRun R step index state (x :: xs) last

theorem view_itemLoop {R : Bytes → β → Bytes → Prop} (opens : Opens R)
    {step : Nat → σ → Reader σ} {index : Nat} {state last : σ} {xs : List β}
    (run : ItemRun R step index state xs last) (items : ItemsAt R (index == 0) u xs t)
    (le : u.length ≤ s.length) : (itemLoop step s index state u le).view = .ok (last, t) := by
  -- The run says which steps are taken; the text of the items is taken apart along with it.
  induction run generalizing u with
  | done index state =>
    cases items with
    | done close =>
      obtain ⟨shorter, next⟩ := nextItem_close (index == 0) close
      rw [itemLoop]
      simp [next]
  | @more index state after last x xs item more ih =>
    cases items with
    | more separated here rest =>
      obtain ⟨le', next⟩ := nextItem_more opens separated here
      obtain ⟨shorter, read⟩ := Outcome.eq_of_view (item _ _ here)
      rw [itemLoop]
      simp only [next, read]
      exact ih rest _

theorem view_readItems {R : Bytes → β → Bytes → Prop} (opens : Opens R)
    {step : Nat → σ → Reader σ} {start last : σ} {xs : List β}
    (run : ItemRun R step 0 start xs last) (items : ItemsAt R true s xs t) :
    (readItems step start s).view = .ok (last, t) :=
  view_itemLoop opens run items (length_le_self s)

/-- Steps that put each item in front of those before, the last one first. -/
theorem itemRun_collect {R : Bytes → β → Bytes → Prop} {reader : Reader α} {xs : List β}
    {as : List α} (items : List.Forall₂ (fun x a => ∀ s t, R s x t → (reader s).view = .ok (a, t)) xs as)
    (index : Nat) (done : List α) :
    ItemRun R (fun _ done u => Outcome.map (· :: done) (reader u)) index done xs (as.reverse ++ done) := by
  induction items generalizing index done with
  | nil => exact .done index done
  | @cons x a xs as item _ ih =>
    rw [List.reverse_cons, List.append_assoc]
    exact .more (fun s t h => Outcome.view_map _ (item s t h)) (ih (index + 1) (a :: done))

/-- What the steps of a loop make of a state, member after member, on any text of the values. No
name is objected to. -/
inductive MemberRun (R : Bytes → β → Bytes → Prop) (check : String → σ → Option Cause)
    (step : String → σ → Reader σ) : σ → List (String × β) → σ → Prop
  | done (state : σ) : MemberRun R check step state [] state
  | more {state next last : σ} {name : String} {x : β} {xs : List (String × β)}
      (checked : check name state = none)
      (value : ∀ s t, R s x t → (step name state s).view = .ok (next, t))
      (more : MemberRun R check step next xs last) :
      MemberRun R check step state ((name, x) :: xs) last

theorem view_memberLoop {R : Bytes → β → Bytes → Prop} {check : String → σ → Option Cause}
    {step : String → σ → Reader σ} {first : Bool} {state last : σ} {xs : List (String × β)}
    (run : MemberRun R check step state xs last) (members : MembersAt NameAt R first u xs t)
    (le : u.length ≤ s.length) :
    (memberLoop check step s first state u le).view = .ok (last, t) := by
  induction run generalizing u first with
  | done state =>
    cases members with
    | done close =>
      obtain ⟨shorter, next⟩ := nextName_close first close
      rw [memberLoop]
      simp [next]
  | more checked value more ih =>
    cases members with
    | more separated key colon here rest =>
      obtain ⟨le', next⟩ := nextName_more separated
      obtain ⟨shorter, name⟩ := Outcome.eq_of_view (view_readString key)
      obtain ⟨shorter', behind⟩ := takeColon_eq colon
      obtain ⟨shorter'', read⟩ := Outcome.eq_of_view (value _ _ here)
      rw [memberLoop]
      simp only [next, name, checked, behind, read]
      exact ih rest _

theorem view_readMembers {R : Bytes → β → Bytes → Prop} {check : String → σ → Option Cause}
    {step : String → σ → Reader σ} {start last : σ} {xs : List (String × β)}
    (run : MemberRun R check step start xs last) (members : MembersAt NameAt R true s xs t) :
    (readMembers check step start s).view = .ok (last, t) :=
  view_memberLoop run members (length_le_self s)

/-! ## Values -/

/-- Octets that do not go on with a number. -/
def Stops (t : Bytes) : Prop :=
  ∀ b ∈ t.head?, isDigit b = false ∧ b ≠ 0x2E ∧ b ≠ 0x65 ∧ b ≠ 0x45

/-- The octets `s` begin with a text of a value, blanks before it included, and `t` follows. Of
numbers only integers that fit into 64 bits are spelled. -/
inductive Spelled : Bytes → Value → Bytes → Prop
  | null {s t : Bytes} (word : skipSpace s = 0x6E :: (wordNull ++ t)) : Spelled s .null t
  | yes {s t : Bytes} (word : skipSpace s = 0x74 :: (wordTrue ++ t)) : Spelled s (.bool true) t
  | no {s t : Bytes} (word : skipSpace s = 0x66 :: (wordFalse ++ t)) : Spelled s (.bool false) t
  | integer {s t : Bytes} {n : Int} (low : -(Numeral.signedBound64 : Int) ≤ n)
      (high : n < Numeral.bound64) (stops : Stops t)
      (digits : skipSpace s = Bytes.ofChars (integerChars n) ++ t) :
      Spelled s (.ofInt n) t
  | string {s u t : Bytes} {x : String} (quote : skipSpace s = 0x22 :: u)
      (content : StringAt u (Bytes.ofText x) t) : Spelled s (.string x) t
  | array {s u t : Bytes} {xs : List Value} (bracket : skipSpace s = 0x5B :: u)
      (items : ItemsAt Spelled true u xs t) : Spelled s (.array xs) t
  | object {s u t : Bytes} {ms : Members} (brace : skipSpace s = 0x7B :: u)
      (members : MembersAt NameAt Spelled true u ms t) : Spelled s (.object ms) t

/-- A digit is one octet, which is a digit too. -/
theorem isDigit_of_digit? {c : Char} (h : Numeral.digit? c ≠ none) :
    c.toNat < 0x80 ∧ isDigit c.toUInt8 = true := by
  rw [Numeral.digit?] at h
  split at h
  next range =>
    obtain ⟨low, high⟩ := range
    have low' : 48 ≤ c.toNat := low
    have high' : c.toNat ≤ 57 := high
    have ascii : c.toNat < 0x80 := by omega
    refine ⟨ascii, ?_⟩
    simp only [isDigit, Bool.and_eq_true, decide_eq_true_eq, UInt8.le_iff_toNat_le,
      Bytes.toNat_toUInt8 ascii]
    exact ⟨low', high'⟩
  next => exact absurd rfl h

/-- An integer begins with its sign or with a digit. -/
theorem ofChars_integerChars (n : Int) :
    ∃ b bs, Bytes.ofChars (integerChars n) = b :: bs ∧ (b = 0x2D ∨ isDigit b = true) := by
  rw [integerChars]
  split
  next => exact ⟨_, _, Bytes.ofChars_cons_of_lt (by decide) _, .inl rfl⟩
  next =>
    obtain ⟨c, cs, digits⟩ := List.exists_cons_of_ne_nil (Numeral.toDigits_ne_nil n.natAbs)
    have digit : Numeral.digit? c ≠ none := by
      intro no
      have := Numeral.not_mem_toDigits no n.natAbs
      rw [digits] at this
      exact this List.mem_cons_self
    obtain ⟨ascii, octet⟩ := isDigit_of_digit? digit
    rw [digits, Bytes.ofChars_cons_of_lt ascii]
    exact ⟨_, _, rfl, .inr octet⟩

theorem isSpace_of_isDigit {b : UInt8} (h : isDigit b = true) : isSpace b = false := by
  rw [isSpace]
  simp only [Bool.or_eq_false_iff, beq_eq_false_iff_ne]
  refine ⟨⟨⟨?_, ?_⟩, ?_⟩, ?_⟩ <;> (rintro rfl; exact absurd h (by decide))

theorem skipSpace_integerChars (n : Int) (t : Bytes) :
    skipSpace (Bytes.ofChars (integerChars n) ++ t) = Bytes.ofChars (integerChars n) ++ t := by
  obtain ⟨b, bs, front, sign | digit⟩ := ofChars_integerChars n
  · rw [front, sign]
    exact skipSpace_of_not_isSpace (by decide) _
  · rw [front]
    exact skipSpace_of_not_isSpace (isSpace_of_isDigit digit) _

/-- What spells a value does not begin with a closing bracket, and with the letter of `null` only
if it spells `null`. -/
theorem Spelled.exists_front {v : Value} (h : Spelled s v t) :
    ∃ b r, skipSpace s = b :: r ∧ b ≠ 0x5D ∧ (b = 0x6E → v = .null) := by
  cases h with
  | null word => exact ⟨_, _, word, by decide, fun _ => rfl⟩
  | yes word | no word => exact ⟨_, _, word, by decide, by simp⟩
  | string quote => exact ⟨_, _, quote, by decide, by simp⟩
  | array bracket => exact ⟨_, _, bracket, by decide, by simp⟩
  | object brace => exact ⟨_, _, brace, by decide, by simp⟩
  | @integer _ _ n low high stops digits =>
    obtain ⟨b, bs, front, start⟩ := ofChars_integerChars n
    have other {c : UInt8} (noSign : c ≠ 0x2D) (noDigit : isDigit c = false) : b ≠ c := by
      rintro rfl
      obtain sign | digit := start
      · exact noSign sign
      · rw [digit] at noDigit
        cases noDigit
    refine ⟨b, bs ++ t, by rw [digits, front]; rfl, other (by decide) (by decide), fun letter => ?_⟩
    exact absurd letter (other (by decide) (by decide))

theorem opens_spelled : Opens Spelled := by
  intro s v t h
  obtain ⟨b, r, front, noBracket, -⟩ := h.exists_front
  exact ⟨b, r, front, noBracket⟩

end ObserverRelay.Json
