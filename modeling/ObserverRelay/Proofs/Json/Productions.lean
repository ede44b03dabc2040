import ObserverRelay.Proofs.Json.Figures
import ObserverRelay.Proofs.Json.Recognition
/-!
# JSON texts as the grammar produces them

The productions of the JSON grammar, each of them saying what a text is put together from: an
object is a brace, members with commas between them, and a brace. Nothing is said here about what
follows a text or how far it goes, so the productions share nothing with a reader but the
octets. They ask no more of a string than that no control character stands in it as it is and
that each backslash begins an escape; no number is too large and nothing is nested too deep.

`DocumentAt` finds the same texts from their front. Where a number ends is the only thing that
the two have to settle: it does not end before a digit.

## Main statements

* `DocumentAt.produced`: what a document takes off the front is produced.
* `ValueText.documented`: what is produced is a text of a document.
* `isJson_iff_jsonText`: the texts of documents are those that are produced.
-/
namespace ObserverRelay.Json

variable {s t u v w : Bytes}

/-! ## Productions -/

/-- White space: spaces, tabs, line feeds and carriage returns. -/
def Blank (w : Bytes) : Prop := ∀ b ∈ w, b = 0x20 ∨ b = 0x09 ∨ b = 0x0A ∨ b = 0x0D

/-- One digit or more. -/
structure DigitsText (ds : Bytes) : Prop where
  nonempty : ds ≠ []
  digits : ∀ b ∈ ds, 0x30 ≤ b ∧ b ≤ 0x39

/-- A zero, or digits that do not begin with one. -/
inductive WholeText : Bytes → Prop
  | zero : WholeText [0x30]
  | digits {ds : Bytes} (digits : DigitsText ds) (noZero : ds.head? ≠ some 0x30) : WholeText ds

/-- Nothing, or a point and digits. -/
inductive FractionText : Bytes → Prop
  | none : FractionText []
  | digits {ds : Bytes} (digits : DigitsText ds) : FractionText (0x2E :: ds)

/-- Nothing, or one of the letters e and E, a sign if there is one, and digits. -/
inductive ExponentText : Bytes → Prop
  | none : ExponentText []
  | digits {m : UInt8} {sign ds : Bytes} (mark : m = 0x65 ∨ m = 0x45)
      (signed : sign ∈ [[], [0x2B], [0x2D]]) (digits : DigitsText ds) :
      ExponentText (m :: (sign ++ ds))

/-- A number. -/
inductive NumberText : Bytes → Prop
  | of {sign whole fraction exponent : Bytes} (signed : sign ∈ [[], [0x2D]])
      (integer : WholeText whole) (point : FractionText fraction) (power : ExponentText exponent) :
      NumberText (sign ++ (whole ++ (fraction ++ exponent)))

/-- A hexadecimal digit. -/
def IsHex (b : UInt8) : Prop :=
  0x30 ≤ b ∧ b ≤ 0x39 ∨ 0x41 ≤ b ∧ b ≤ 0x46 ∨ 0x61 ≤ b ∧ b ≤ 0x66

/-- What a string is made of: octets that are no control characters, and escapes. The escapes by
number need not name characters. -/
inductive StringPiece : Bytes → Prop
  | plain {b : UInt8} (noControl : 0x20 ≤ b) (noQuote : b ≠ 0x22) (noEscape : b ≠ 0x5C) :
      StringPiece [b]
  | letter {b : UInt8} (letter : b ∈ [0x22, 0x5C, 0x2F, 0x62, 0x66, 0x6E, 0x72, 0x74]) :
      StringPiece [0x5C, b]
  | number {a b c d : UInt8} (first : IsHex a) (second : IsHex b) (third : IsHex c)
      (fourth : IsHex d) : StringPiece [0x5C, 0x75, a, b, c, d]

/-- A string, its quotes included. -/
inductive StringText : Bytes → Prop
  | of {pieces : List Bytes} (each : ∀ p ∈ pieces, StringPiece p) :
      StringText (0x22 :: (pieces.flatten ++ [0x22]))

/-- A text with what stands before and behind it. -/
structure Padded where
  before : Bytes
  text : Bytes
  behind : Bytes

namespace Padded

/-- All of it. -/
def octets (p : Padded) : Bytes := p.before ++ (p.text ++ p.behind)

/-- Only white space stands around the text. -/
def Spaced (p : Padded) : Prop := Blank p.before ∧ Blank p.behind

end Padded

/-- A name and a value with the colon between them. -/
def memberOctets (m : Padded × Padded) : Bytes := m.1.octets ++ 0x3A :: m.2.octets

/-- Texts with a comma before each. -/
def behindCommas (parts : List Bytes) : Bytes := parts.flatMap (0x2C :: ·)

/-- A value. -/
inductive ValueText : Bytes → Prop
  | null : ValueText (0x6E :: wordNull)
  | yes : ValueText (0x74 :: wordTrue)
  | no : ValueText (0x66 :: wordFalse)
  | number {s : Bytes} (number : NumberText s) : ValueText s
  | string {s : Bytes} (string : StringText s) : ValueText s
  | emptyArray {w : Bytes} (blank : Blank w) : ValueText (0x5B :: (w ++ [0x5D]))
  | array {first : Padded} {others : List Padded} (spaced : ∀ p ∈ first :: others, p.Spaced)
      (values : ∀ p ∈ first :: others, ValueText p.text) :
      ValueText (0x5B :: (first.octets ++ (behindCommas (others.map Padded.octets) ++ [0x5D])))
  | emptyObject {w : Bytes} (blank : Blank w) : ValueText (0x7B :: (w ++ [0x7D]))
  | object {first : Padded × Padded} {others : List (Padded × Padded)}
      (spaced : ∀ m ∈ first :: others, m.1.Spaced ∧ m.2.Spaced)
      (names : ∀ m ∈ first :: others, StringText m.1.text)
      (values : ∀ m ∈ first :: others, ValueText m.2.text) :
      ValueText (0x7B :: (memberOctets first ++ (behindCommas (others.map memberOctets) ++ [0x7D])))

/-- One value with white space around it. -/
def JsonText (s : Bytes) : Prop := ∃ p : Padded, p.Spaced ∧ ValueText p.text ∧ s = p.octets

/-! ## Octets -/

theorem isSpace_iff {b : UInt8} :
    isSpace b = true ↔ b = 0x20 ∨ b = 0x09 ∨ b = 0x0A ∨ b = 0x0D := by
  simp [isSpace, or_assoc]

theorem isDigit_iff {b : UInt8} : isDigit b = true ↔ 0x30 ≤ b ∧ b ≤ 0x39 := by
  simp [isDigit]

theorem isHex_iff {b : UInt8} : IsHex b ↔ ∃ n, Hex.digit? b = some n := by
  rw [← Option.isSome_iff_exists, Hex.digit?, IsHex]
  split_ifs with decimal lower upper
  · simp [decimal]
  · simp [lower]
  · simp [upper]
  · simp [decimal, lower, upper]

theorem mem_letters_iff {b : UInt8} :
    b ∈ [0x22, 0x5C, 0x2F, 0x62, 0x66, 0x6E, 0x72, 0x74] ↔ ∃ c, (b, c) ∈ escapeLetters := by
  have letters : [0x22, 0x5C, 0x2F, 0x62, 0x66, 0x6E, 0x72, 0x74] = escapeLetters.map Prod.fst := rfl
  rw [letters, List.mem_map]
  constructor
  · rintro ⟨⟨_, c⟩, mem, rfl⟩
    exact ⟨c, mem⟩
  · rintro ⟨c, mem⟩
    exact ⟨_, mem, rfl⟩

theorem Blank.isSpace (blank : Blank w) : ∀ b ∈ w, isSpace b = true :=
  fun b mem => isSpace_iff.mpr (blank b mem)

theorem Blank.skipSpace_append (blank : Blank w) (s : Bytes) : skipSpace (w ++ s) = skipSpace s :=
  Json.skipSpace_append blank.isSpace s

theorem Blank.append (blank : Blank v) (blank' : Blank w) : Blank (v ++ w) :=
  List.forall_mem_append.mpr ⟨blank, blank'⟩

/-- What stands before the first token is white space. -/
theorem exists_blank (s : Bytes) : ∃ w, Blank w ∧ s = w ++ skipSpace s :=
  ⟨s.takeWhile Json.isSpace, fun _ mem => isSpace_iff.mp (List.mem_takeWhile_imp mem),
    List.takeWhile_append_dropWhile.symm⟩

/-- What is left is blank exactly if no token stands in it. -/
theorem blank_iff : Blank w ↔ skipSpace w = [] := by
  rw [skipSpace, List.dropWhile_eq_nil_iff]
  exact forall₂_congr fun b _ => isSpace_iff.symm

/-! ## Numbers -/

theorem DigitsText.digitsAt {ds : Bytes} (run : DigitsText ds)
    (stops : ∀ b ∈ t.head?, isDigit b = false) : DigitsAt (ds ++ t) ds t :=
  ⟨rfl, run.nonempty, fun b mem => isDigit_iff.mpr (run.digits b mem), stops⟩

theorem DigitsAt.produced {ds : Bytes} (run : DigitsAt s ds t) : DigitsText ds :=
  ⟨run.nonempty, fun b mem => isDigit_iff.mp (run.digits b mem)⟩

/-- In front of an exponent neither digits nor a fraction go on. -/
theorem ExponentText.exponentAt (power : ExponentText s) (stops : Stops t) :
    (∃ e, ExponentAt (s ++ t) e t) ∧ ∀ b ∈ (s ++ t).head?, isDigit b = false ∧ b ≠ 0x2E := by
  cases power with
  | none => exact ⟨⟨_, stops.noExponent⟩, fun b front => ⟨(stops b front).1, (stops b front).2.1⟩⟩
  | @digits m sign ds mark signed run =>
    have digits := run.digitsAt stops.isDigit
    refine ⟨?_, ?_⟩
    · simp only [List.mem_cons, List.not_mem_nil, or_false] at signed
      obtain rfl | rfl | rfl := signed
      · exact ⟨_, .plain mark digits⟩
      · exact ⟨_, .plus mark digits⟩
      · exact ⟨_, .minus mark digits⟩
    · rintro _ ⟨⟩
      obtain rfl | rfl := mark <;> decide

/-- In front of a fraction no digits go on. -/
theorem FractionText.fractionAt (point : FractionText s)
    (stops : ∀ b ∈ t.head?, isDigit b = false ∧ b ≠ 0x2E) :
    (∃ ds, FractionAt (s ++ t) ds t) ∧ ∀ b ∈ (s ++ t).head?, isDigit b = false := by
  cases point with
  | none =>
    exact ⟨⟨_, .none fun front => (stops _ front).2 rfl⟩, fun b front => (stops b front).1⟩
  | digits run =>
    refine ⟨⟨_, .digits (run.digitsAt fun b front => (stops b front).1)⟩, ?_⟩
    rintro _ ⟨⟩
    rfl

theorem WholeText.digits_noZero (integer : WholeText s) :
    DigitsText s ∧ (s.head? = some 0x30 → s = [0x30]) := by
  cases integer with
  | zero => exact ⟨⟨by simp, List.forall_mem_singleton.mpr (by decide)⟩, fun _ => rfl⟩
  | digits run noZero => exact ⟨run, fun zero => absurd zero noZero⟩

/-- A number that is produced is one of the text, as far as it is not followed by what would
lengthen it. -/
theorem NumberText.numberAt (number : NumberText s) (stops : Stops t) :
    ∃ l, NumberAt (s ++ t) l t := by
  obtain ⟨signed, integer, point, power⟩ := number
  rename_i sign whole fraction exponent
  obtain ⟨⟨e, exponentAt⟩, more⟩ := power.exponentAt stops
  obtain ⟨⟨ds, fractionAt⟩, more⟩ := point.fractionAt more
  obtain ⟨run, noZero⟩ := integer.digits_noZero
  have magnitude (negative : Bool) :
      MagnitudeAt negative (whole ++ (fraction ++ (exponent ++ t))) ⟨negative, whole, ds, e⟩ t :=
    .of (run.digitsAt more) noZero fractionAt exponentAt
  simp only [List.mem_cons, List.not_mem_nil, or_false] at signed
  simp only [List.append_assoc]
  obtain rfl | rfl := signed
  · exact ⟨_, .plain (magnitude false)⟩
  · exact ⟨_, .minus (magnitude true)⟩

theorem FractionAt.produced {ds : Bytes} (point : FractionAt s ds t) :
    ∃ f, s = f ++ t ∧ FractionText f := by
  cases point with
  | none => exact ⟨[], rfl, .none⟩
  | digits digits => exact ⟨_, by rw [digits.text, List.cons_append], .digits digits.produced⟩

theorem ExponentAt.produced {e : Option Int} (power : ExponentAt s e t) :
    ∃ p, s = p ++ t ∧ ExponentText p := by
  have some (sign : Bytes) {m : UInt8} {u ds : Bytes} (mark : m = 0x65 ∨ m = 0x45)
      (signed : sign ∈ [[], [0x2B], [0x2D]]) (digits : DigitsAt u ds t) :
      ∃ p, m :: (sign ++ u) = p ++ t ∧ ExponentText p :=
    ⟨m :: (sign ++ ds), by simp [digits.text], .digits mark signed digits.produced⟩
  cases power with
  | none => exact ⟨[], rfl, .none⟩
  | plain mark digits => exact some [] mark (by simp) digits
  | plus mark digits => exact some [0x2B] mark (by simp) digits
  | minus mark digits => exact some [0x2D] mark (by simp) digits

theorem DigitsText.whole {ds : Bytes} (run : DigitsText ds)
    (noZero : ds.head? = some 0x30 → ds = [0x30]) : WholeText ds := by
  by_cases zero : ds.head? = some 0x30
  · rw [noZero zero]
    exact .zero
  · exact .digits run zero

theorem MagnitudeAt.produced {negative : Bool} {l : Literal}
    (magnitude : MagnitudeAt negative s l t) (sign : Bytes) (signed : sign ∈ [[], [0x2D]]) :
    ∃ n, sign ++ s = n ++ t ∧ NumberText n := by
  cases magnitude with
  | of digits noZero point power =>
    obtain ⟨f, rfl, fraction⟩ := point.produced
    obtain ⟨p, rfl, exponent⟩ := power.produced
    exact ⟨_, by simp [digits.text], .of signed (digits.produced.whole noZero) fraction exponent⟩

theorem NumberAt.produced {l : Literal} (number : NumberAt s l t) :
    ∃ n, s = n ++ t ∧ NumberText n := by
  cases number with
  | plain magnitude => exact magnitude.produced [] (by simp)
  | minus magnitude => exact magnitude.produced [0x2D] (by simp)

/-! ## Strings -/

theorem HexAt.produced {n : Nat} (digits : HexAt s n t) :
    ∃ a b c d, s = a :: b :: c :: d :: t ∧ IsHex a ∧ IsHex b ∧ IsHex c ∧ IsHex d := by
  cases digits with
  | of first second third fourth =>
    exact ⟨_, _, _, _, rfl, isHex_iff.mpr ⟨_, first⟩, isHex_iff.mpr ⟨_, second⟩,
      isHex_iff.mpr ⟨_, third⟩, isHex_iff.mpr ⟨_, fourth⟩⟩

theorem StringPiece.formAt (piece : StringPiece s) (more : FormAt t () u) :
    FormAt (s ++ t) () u := by
  cases piece with
  | plain noControl noQuote noEscape => exact .plain noQuote noEscape noControl more
  | letter letter =>
    obtain ⟨c, mem⟩ := mem_letters_iff.mp letter
    exact .letter mem more
  | number first second third fourth =>
    obtain ⟨_, first⟩ := isHex_iff.mp first
    obtain ⟨_, second⟩ := isHex_iff.mp second
    obtain ⟨_, third⟩ := isHex_iff.mp third
    obtain ⟨_, fourth⟩ := isHex_iff.mp fourth
    exact .number (.of first second third fourth t) more

theorem StringText.formAt (string : StringText s) (t : Bytes) :
    ∃ u, s ++ t = 0x22 :: u ∧ FormAt u () t := by
  obtain ⟨each⟩ := string
  rename_i pieces
  refine ⟨pieces.flatten ++ 0x22 :: t, by simp, ?_⟩
  induction pieces with
  | nil => exact .close t
  | cons p ps ih =>
    obtain ⟨piece, others⟩ := List.forall_mem_cons.mp each
    rw [List.flatten_cons, List.append_assoc]
    exact piece.formAt (ih others)

theorem FormAt.pieces {x : Unit} (form : FormAt s x t) :
    ∃ pieces : List Bytes, (∀ p ∈ pieces, StringPiece p) ∧ s = pieces.flatten ++ 0x22 :: t := by
  have cons {p u : Bytes} (piece : StringPiece p)
      (more : ∃ pieces : List Bytes, (∀ p ∈ pieces, StringPiece p) ∧
        u = pieces.flatten ++ 0x22 :: t) :
      ∃ pieces : List Bytes, (∀ p ∈ pieces, StringPiece p) ∧
        p ++ u = pieces.flatten ++ 0x22 :: t := by
    obtain ⟨pieces, each, rfl⟩ := more
    exact ⟨p :: pieces, List.forall_mem_cons.mpr ⟨piece, each⟩, by simp⟩
  induction form with
  | close t => exact ⟨[], List.forall_mem_nil _, rfl⟩
  | plain noQuote noEscape noControl _ ih => exact cons (.plain noControl noQuote noEscape) (ih cons)
  | letter letter _ ih => exact cons (.letter (mem_letters_iff.mpr ⟨_, letter⟩)) (ih cons)
  | number digits _ ih =>
    obtain ⟨a, b, c, d, rfl, first, second, third, fourth⟩ := digits.produced
    exact cons (.number first second third fourth) (ih cons)

theorem FormAt.produced {x : Unit} (form : FormAt s x t) :
    ∃ x, 0x22 :: s = x ++ t ∧ StringText x := by
  obtain ⟨pieces, each, rfl⟩ := form.pieces
  exact ⟨_, by simp, .of each⟩

/-! ## What a document takes off the front -/

/-- White space and a text of the given kind stand in front of what is left. -/
def TakesOff (P : Bytes → Prop) (s t : Bytes) : Prop :=
  ∃ w v, Blank w ∧ P v ∧ s = w ++ (v ++ t)

theorem TakesOff.of_skipSpace {P : Bytes → Prop} (text : P v) (front : skipSpace s = v ++ t) :
    TakesOff P s t := by
  obtain ⟨w, blank, parts⟩ := exists_blank s
  exact ⟨w, v, blank, text, by rw [← front, ← parts]⟩

/-- An octet behind white space. -/
theorem exists_blank_of_skipSpace {b : UInt8} (front : skipSpace s = b :: t) :
    ∃ w, Blank w ∧ s = w ++ b :: t := by
  obtain ⟨w, blank, parts⟩ := exists_blank s
  exact ⟨w, blank, by rw [← front, ← parts]⟩

theorem Separated.exists_comma (separated : Separated false s u) :
    ∃ w v, Blank w ∧ Blank v ∧ s = w ++ 0x2C :: (v ++ u) := by
  cases separated with
  | comma comma start =>
    obtain ⟨w, blank, rfl⟩ := exists_blank_of_skipSpace comma
    obtain ⟨v, blank', parts⟩ := exists_blank _
    rw [start] at parts
    exact ⟨w, v, blank, blank', by rw [parts]⟩

/-- What an item is made of. -/
def ItemText (p : Padded) : Prop := p.Spaced ∧ ValueText p.text

/-- What a member is made of. -/
def MemberText (m : Padded × Padded) : Prop :=
  (m.1.Spaced ∧ m.2.Spaced) ∧ StringText m.1.text ∧ ValueText m.2.text

theorem TakesOff.item {before behind : Bytes} (blank : Blank before) (blank' : Blank behind)
    (value : TakesOff ValueText u (behind ++ t)) :
    ∃ p, ItemText p ∧ before ++ u = p.octets ++ t := by
  obtain ⟨w, v, spaced, value, rfl⟩ := value
  exact ⟨⟨before ++ w, v, behind⟩, ⟨⟨blank.append spaced, blank'⟩, value⟩, by simp [Padded.octets]⟩

theorem TakesOff.member {before behind : Bytes} (blank : Blank before) (blank' : Blank behind)
    (name : FormAt u () v) (colon : skipSpace v = 0x3A :: w)
    (value : TakesOff ValueText w (behind ++ t)) :
    ∃ m, MemberText m ∧ before ++ 0x22 :: u = memberOctets m ++ t := by
  obtain ⟨n, text, string⟩ := name.produced
  obtain ⟨x, spaced, rfl⟩ := exists_blank_of_skipSpace colon
  obtain ⟨y, z, spaced', value, rfl⟩ := value
  refine ⟨(⟨before, n, x⟩, ⟨y, z, behind⟩), ⟨⟨⟨blank, spaced⟩, spaced', blank'⟩, string, value⟩, ?_⟩
  rw [text]
  simp [memberOctets, Padded.octets]

/-- The items behind the first one, each with its comma. -/
theorem ItemsAt.produced {ds : List (Document Unit)}
    (each : ∀ d ∈ ds, ∀ s t, DocumentAt FormAt s d t → TakesOff ValueText s t)
    (items : ItemsAt (DocumentAt FormAt) false s ds t) :
    ∃ (w : Bytes) (ps : List Padded), Blank w ∧ (∀ p ∈ ps, ItemText p) ∧
      s = w ++ (behindCommas (ps.map Padded.octets) ++ 0x5D :: t) := by
  induction ds generalizing s with
  | nil =>
    cases items with
    | done close =>
      obtain ⟨w, blank, rfl⟩ := exists_blank_of_skipSpace close
      exact ⟨w, [], blank, List.forall_mem_nil _, rfl⟩
  | cons d ds ih =>
    obtain ⟨here, others⟩ := List.forall_mem_cons.mp each
    cases items with
    | more separated item more =>
      obtain ⟨w, before, blank, spaced, rfl⟩ := separated.exists_comma
      obtain ⟨behind, ps, spaced', padded, rfl⟩ := ih others more
      obtain ⟨p, made, text⟩ := (here _ _ item).item spaced spaced'
      refine ⟨w, p :: ps, blank, List.forall_mem_cons.mpr ⟨made, padded⟩, ?_⟩
      rw [text]
      simp [behindCommas]

/-- The members behind the first one, each with its comma. -/
theorem MembersAt.produced {ms : List (Unit × Document Unit)}
    (each : ∀ m ∈ ms, ∀ s t, DocumentAt FormAt s m.2 t → TakesOff ValueText s t)
    (members : MembersAt FormAt (DocumentAt FormAt) false s ms t) :
    ∃ (w : Bytes) (ps : List (Padded × Padded)), Blank w ∧ (∀ m ∈ ps, MemberText m) ∧
      s = w ++ (behindCommas (ps.map memberOctets) ++ 0x7D :: t) := by
  induction ms generalizing s with
  | nil =>
    cases members with
    | done close =>
      obtain ⟨w, blank, rfl⟩ := exists_blank_of_skipSpace close
      exact ⟨w, [], blank, List.forall_mem_nil _, rfl⟩
  | cons m ms ih =>
    obtain ⟨here, others⟩ := List.forall_mem_cons.mp each
    cases members with
    | more separated key colon value more =>
      obtain ⟨w, before, blank, spaced, rfl⟩ := separated.exists_comma
      obtain ⟨behind, ps, spaced', padded, rfl⟩ := ih others more
      obtain ⟨m, made, text⟩ := (here _ _ value).member spaced spaced' key colon
      refine ⟨w, m :: ps, blank, List.forall_mem_cons.mpr ⟨made, padded⟩, ?_⟩
      rw [text]
      simp [behindCommas]

/-- What a document takes off the front is produced. -/
theorem DocumentAt.produced {d : Document Unit} (document : DocumentAt FormAt s d t) :
    TakesOff ValueText s t := by
  induction d generalizing s t with
  | null =>
    cases document with
    | null word => exact .of_skipSpace .null word
  | bool b =>
    cases document with
    | yes word => exact .of_skipSpace .yes word
    | no word => exact .of_skipSpace .no word
  | number l =>
    cases document with
    | number number =>
      obtain ⟨n, text, number⟩ := number.produced
      exact .of_skipSpace (.number number) text
  | string x =>
    cases document with
    | string quote content =>
      obtain ⟨x, text, string⟩ := content.produced
      exact .of_skipSpace (.string string) (quote.trans text)
  | array ds ih =>
    cases document with
    | array bracket content =>
      cases content with
      | done close =>
        obtain ⟨w, blank, rfl⟩ := exists_blank_of_skipSpace close
        exact .of_skipSpace (.emptyArray blank) (by simp [bracket])
      | more separated item more =>
        obtain ⟨here, others⟩ := List.forall_mem_cons.mp ih
        cases separated with
        | first start =>
          obtain ⟨w, blank, parts⟩ := exists_blank _
          rw [start] at parts
          obtain ⟨behind, ps, spaced, padded, rfl⟩ :=
            ItemsAt.produced (fun d mem _ _ => others d mem) more
          obtain ⟨p, made, text⟩ := (here item).item blank spaced
          have all : ∀ q ∈ p :: ps, ItemText q := List.forall_mem_cons.mpr ⟨made, padded⟩
          refine .of_skipSpace (.array (fun q mem => (all q mem).1) fun q mem => (all q mem).2) ?_
          rw [bracket, parts, text]
          simp
  | object ms ih =>
    cases document with
    | object brace content =>
      cases content with
      | done close =>
        obtain ⟨w, blank, rfl⟩ := exists_blank_of_skipSpace close
        exact .of_skipSpace (.emptyObject blank) (by simp [brace])
      | more separated key colon value more =>
        obtain ⟨here, others⟩ := List.forall_mem_cons.mp ih
        cases separated with
        | first start =>
          obtain ⟨w, blank, parts⟩ := exists_blank _
          rw [start] at parts
          obtain ⟨behind, ps, spaced, padded, rfl⟩ :=
            MembersAt.produced (fun m mem _ _ => others m mem) more
          obtain ⟨m, made, text⟩ := (here value).member blank spaced key colon
          have all : ∀ n ∈ m :: ps, MemberText n := List.forall_mem_cons.mpr ⟨made, padded⟩
          refine .of_skipSpace (.object (fun n mem => (all n mem).1) (fun n mem => (all n mem).2.1)
            fun n mem => (all n mem).2.2) ?_
          rw [brace, parts, text]
          simp

/-! ## What is produced is a document -/

/-- Any text of the kind is one of a document, as far as it is not followed by what would lengthen
a number. -/
def Documented (s : Bytes) : Prop := ∀ t, Stops t → ∃ d, DocumentAt FormAt (s ++ t) d t

theorem Blank.stops (blank : Blank w) (stops : Stops t) : Stops (w ++ t) := by
  cases w with
  | nil => exact stops
  | cons a w =>
    intro c front
    obtain rfl : a = c := by simpa using front
    obtain rfl | rfl | rfl | rfl := blank a List.mem_cons_self <;> decide

/-- Neither a comma nor what closes a list or an object lengthens a number. -/
theorem stops_behindCommas {b : UInt8} (parts : List Bytes) (close : b = 0x5D ∨ b = 0x7D)
    (t : Bytes) : Stops (behindCommas parts ++ b :: t) := by
  cases parts with
  | nil =>
    rintro _ ⟨⟩
    obtain rfl | rfl := close <;> decide
  | cons p parts =>
    rintro _ ⟨⟩
    decide

theorem Documented.item {p : Padded} (spaced : p.Spaced) (value : Documented p.text)
    (stops : Stops (p.behind ++ t)) :
    ∃ d, DocumentAt FormAt (skipSpace (p.octets ++ t)) d (p.behind ++ t) := by
  obtain ⟨d, document⟩ := value _ stops
  refine ⟨d, document.of_skipSpace_eq ?_⟩
  rw [skipSpace_skipSpace, Padded.octets, List.append_assoc, spaced.1.skipSpace_append,
    List.append_assoc]

theorem Documented.member {m : Padded × Padded} (spaced : m.1.Spaced ∧ m.2.Spaced)
    (name : StringText m.1.text) (value : Documented m.2.text) (stops : Stops (m.2.behind ++ t)) :
    ∃ u v x d, skipSpace (memberOctets m ++ t) = 0x22 :: u ∧ FormAt u () v ∧
      skipSpace v = 0x3A :: x ∧ DocumentAt FormAt x d (m.2.behind ++ t) := by
  obtain ⟨d, document⟩ := Documented.item spaced.2 value stops
  obtain ⟨u, text, form⟩ := name.formAt (m.1.behind ++ 0x3A :: (m.2.octets ++ t))
  refine ⟨u, _, _, d, ?_, form, ?_, document.of_skipSpace_eq (skipSpace_skipSpace _).symm⟩
  · rw [memberOctets, Padded.octets]
    simp only [List.append_assoc, List.cons_append]
    rw [spaced.1.1.skipSpace_append, text, skipSpace_of_not_isSpace (by decide)]
  · rw [spaced.1.2.skipSpace_append, skipSpace_of_not_isSpace (by decide)]

theorem itemsAt_of_documented {ps : List Padded}
    (each : ∀ p ∈ ps, p.Spaced ∧ Documented p.text) (blank : Blank w) (t : Bytes) :
    ∃ ds, ItemsAt (DocumentAt FormAt) false
      (w ++ (behindCommas (ps.map Padded.octets) ++ 0x5D :: t)) ds t := by
  induction ps generalizing w with
  | nil =>
    refine ⟨[], .done ?_⟩
    rw [blank.skipSpace_append]
    rfl
  | cons p ps ih =>
    obtain ⟨⟨spaced, value⟩, others⟩ := List.forall_mem_cons.mp each
    obtain ⟨ds, items⟩ := ih others spaced.2
    obtain ⟨d, document⟩ := value.item spaced (spaced.2.stops (stops_behindCommas _ (.inl rfl) t))
    refine ⟨d :: ds, .more (.comma ?_ rfl) document items⟩
    rw [blank.skipSpace_append, List.map_cons, behindCommas, List.flatMap_cons, List.append_assoc,
      List.cons_append, skipSpace_of_not_isSpace (by decide)]
    rfl

theorem membersAt_of_documented {ps : List (Padded × Padded)}
    (each : ∀ m ∈ ps, (m.1.Spaced ∧ m.2.Spaced) ∧ StringText m.1.text ∧ Documented m.2.text)
    (blank : Blank w) (t : Bytes) :
    ∃ ms, MembersAt FormAt (DocumentAt FormAt) false
      (w ++ (behindCommas (ps.map memberOctets) ++ 0x7D :: t)) ms t := by
  induction ps generalizing w with
  | nil =>
    refine ⟨[], .done ?_⟩
    rw [blank.skipSpace_append]
    rfl
  | cons m ps ih =>
    obtain ⟨⟨spaced, name, value⟩, others⟩ := List.forall_mem_cons.mp each
    obtain ⟨ms, members⟩ := ih others spaced.2.2
    obtain ⟨u, v, x, d, quote, key, colon, document⟩ :=
      value.member spaced name (spaced.2.2.stops (stops_behindCommas _ (.inr rfl) t))
    refine ⟨((), d) :: ms, .more (.comma ?_ quote) key colon document members⟩
    rw [blank.skipSpace_append, List.map_cons, behindCommas, List.flatMap_cons, List.append_assoc,
      List.cons_append, skipSpace_of_not_isSpace (by decide)]
    rfl

theorem documented_array {first : Padded} {others : List Padded}
    (each : ∀ p ∈ first :: others, p.Spaced ∧ Documented p.text) :
    Documented (0x5B :: (first.octets ++ (behindCommas (others.map Padded.octets) ++ [0x5D]))) := by
  intro t _
  obtain ⟨⟨spaced, value⟩, others⟩ := List.forall_mem_cons.mp each
  obtain ⟨ds, items⟩ := itemsAt_of_documented others spaced.2 t
  obtain ⟨d, document⟩ := value.item spaced (spaced.2.stops (stops_behindCommas _ (.inl rfl) t))
  refine ⟨.array (d :: ds), .array ?_ (.more (.first rfl) document items)⟩
  rw [List.cons_append, skipSpace_of_not_isSpace (by decide)]
  simp

theorem documented_object {first : Padded × Padded} {others : List (Padded × Padded)}
    (each : ∀ m ∈ first :: others,
      (m.1.Spaced ∧ m.2.Spaced) ∧ StringText m.1.text ∧ Documented m.2.text) :
    Documented
      (0x7B :: (memberOctets first ++ (behindCommas (others.map memberOctets) ++ [0x7D]))) := by
  intro t _
  obtain ⟨⟨spaced, name, value⟩, others⟩ := List.forall_mem_cons.mp each
  obtain ⟨ms, members⟩ := membersAt_of_documented others spaced.2.2 t
  obtain ⟨u, v, x, d, quote, key, colon, document⟩ :=
    value.member spaced name (spaced.2.2.stops (stops_behindCommas _ (.inr rfl) t))
  refine ⟨.object (((), d) :: ms), .object ?_ (.more (.first quote) key colon document members)⟩
  rw [List.cons_append, skipSpace_of_not_isSpace (by decide)]
  simp

/-- Every value that is produced is a text of a document. -/
theorem ValueText.documented (value : ValueText s) : Documented s := by
  induction value with
  | null => exact fun t _ => ⟨_, .null (skipSpace_of_not_isSpace (by decide) _)⟩
  | yes => exact fun t _ => ⟨_, .yes (skipSpace_of_not_isSpace (by decide) _)⟩
  | no => exact fun t _ => ⟨_, .no (skipSpace_of_not_isSpace (by decide) _)⟩
  | number number =>
    intro t stops
    obtain ⟨l, numberAt⟩ := number.numberAt stops
    exact ⟨.number l, .number (by rwa [numberAt.skipSpace_eq])⟩
  | string string =>
    intro t _
    obtain ⟨u, text, form⟩ := string.formAt t
    exact ⟨.string (), .string (by rw [text, skipSpace_of_not_isSpace (by decide)]) form⟩
  | emptyArray blank =>
    intro t _
    refine ⟨.array [], .array (skipSpace_of_not_isSpace (by decide) _) (.done ?_)⟩
    simp only [List.append_eq, List.append_assoc]
    rw [blank.skipSpace_append]
    rfl
  | array spaced _ ih => exact documented_array fun p mem => ⟨spaced p mem, ih p mem⟩
  | emptyObject blank =>
    intro t _
    refine ⟨.object [], .object (skipSpace_of_not_isSpace (by decide) _) (.done ?_)⟩
    simp only [List.append_eq, List.append_assoc]
    rw [blank.skipSpace_append]
    rfl
  | object spaced names _ ih =>
    exact documented_object fun m mem => ⟨spaced m mem, names m mem, ih m mem⟩

/-! ## Whole texts -/

/-- The texts of documents are those that are produced. -/
theorem isJson_iff_jsonText : IsJson s ↔ JsonText s := by
  constructor
  · rintro ⟨d, t, document, ended⟩
    obtain ⟨w, v, blank, value, rfl⟩ := document.produced
    exact ⟨⟨w, v, t⟩, ⟨blank, blank_iff.mpr ended⟩, value, rfl⟩
  · rintro ⟨⟨before, v, behind⟩, ⟨blank, blank'⟩, value, rfl⟩
    have stops : Stops (behind ++ []) := blank'.stops (by simp [Stops])
    rw [List.append_nil] at stops
    obtain ⟨d, document⟩ := value.documented behind stops
    exact ⟨d, behind, document.of_skipSpace_eq (blank.skipSpace_append _), blank_iff.mp blank'⟩

end ObserverRelay.Json
