import ObserverRelay.Proofs.Text.Numerals
import ObserverRelay.Proofs.Text.Trimming
import ObserverRelay.Relay.Settings
/-!
# Which texts are durations

A duration is a numeral, white space that may be left out, and the letters of a unit, which may be
left out as well. One unit's letters end with another's, but a numeral ends with a digit: what
stands before the letters tells the units apart, so it does not matter in which order they are
tried.

## Main statements

* `count?_eq_some_iff`: what stands before the letters.
* `ofTrimmed?_eq_some_iff`: which texts without white space at their ends name which duration.
* `durations_read`: what is read from any text.
-/
namespace ObserverRelay.Relay

open Numeral Text

/-- What a number counts. -/
inductive TimeUnit
  /-- Seconds that are not called so. -/
  | unnamed
  | seconds
  | milliseconds
  | minutes
  deriving DecidableEq, Repr

namespace TimeUnit

/-- The letters of a unit. -/
def letters : TimeUnit → List Char
  | unnamed => []
  | seconds => ['s']
  | milliseconds => ['m', 's']
  | minutes => ['m']

/-- How long a unit is. -/
def millis : TimeUnit → Nat
  | unnamed | seconds => 1000
  | milliseconds => 1
  | minutes => 60 * 1000

end TimeUnit

namespace Duration

variable {s t : String} {n : Nat} {unit : TimeUnit} {d : Duration}

/-- A text that says how many of which unit: a numeral, blanks and the unit's letters. -/
inductive Written (s : String) (n : Nat) (unit : TimeUnit) : Prop
  | of {numeral : String} {blanks : List Char}
      (text : s.toList = numeral.toList ++ blanks ++ unit.letters) (names : Names numeral n)
      (blank : ∀ c ∈ blanks, isBlank c = true)

/-- Numbers have 64 bits, and so has a number of minutes when it is counted in seconds. -/
structure Fits (n : Nat) (unit : TimeUnit) : Prop where
  number : n < UInt64.size
  minutes : unit = .minutes → 60 * n < UInt64.size

/-! ## What stands before the letters -/

theorem isBlank_of_isDigit {c : Char} (digit : c.isDigit = true) : isBlank c = false := by
  have low : 48 ≤ c.toNat := (Char.isDigit_iff_toNat.mp digit).1
  have high : c.toNat ≤ 57 := (Char.isDigit_iff_toNat.mp digit).2
  simp only [isBlank, Bool.or_eq_false_iff, Bool.and_eq_false_iff, decide_eq_false_iff_not,
    beq_eq_false_iff_ne]
  omega

/-- A numeral ends with a digit. -/
theorem exists_last_of_names (names : Names s n) :
    ∃ front c, s.toList = front ++ [c] ∧ c.isDigit = true := by
  have last {cs : List Char} (digits : Denotes cs n) :
      ∃ front c, cs = front ++ [c] ∧ c.isDigit = true := by
    obtain ⟨front, c, rfl⟩ := (List.eq_nil_or_concat' cs).resolve_left digits.nonempty
    exact ⟨front, c, rfl, digits.digits c (by simp)⟩
  cases names with
  | plain digits => exact last digits
  | plus sign digits =>
    obtain ⟨front, c, rfl, digit⟩ := last digits
    exact ⟨'+' :: front, c, sign, digit⟩

theorem endsOutside_of_names (names : Names s n) : EndsOutside isBlank s.toList := by
  intro front c last
  obtain ⟨front', c', last', digit⟩ := exists_last_of_names names
  obtain ⟨-, rfl⟩ := List.append_singleton_inj.mp (last.symm.trans last')
  exact isBlank_of_isDigit digit

/-- A text that begins with no blank counts what its numeral names, blanks behind it aside. -/
theorem count?_eq_some_iff (starts : StartsOutside isBlank s.toList) :
    count? s = some n ↔ n < UInt64.size ∧ ∃ (numeral : String) (blanks : List Char),
      s.toList = numeral.toList ++ blanks ∧ Names numeral n ∧ ∀ c ∈ blanks, isBlank c = true := by
  have read (x : String) :
      (Numeral.read bound64 x).toOption = some n ↔ Names x n ∧ n < UInt64.size := by
    have ok : (Numeral.read bound64 x).toOption = some n ↔ Numeral.read bound64 x = .ok n := by
      cases Numeral.read bound64 x <;> simp [Except.toOption]
    rw [ok, read_eq_ok_iff (by decide)]
    rfl
  rw [count?, read, and_comm]
  refine and_congr_right fun _ => ?_
  constructor
  · intro names
    obtain ⟨blanks, whole, blank⟩ := exists_eq_dropTrailing_append isBlank s.toList
    refine ⟨trim s, blanks, ?_, names, blank⟩
    rwa [trim, String.toList_ofList, trimList_of_startsOutside starts]
  · rintro ⟨numeral, blanks, whole, names, blank⟩
    have same : trim s = numeral := by
      rw [trim, trimList_of_startsOutside starts, whole, dropTrailing_append_of_forall blank,
        (endsOutside_of_names names).dropTrailing_eq, String.ofList_toList]
    rwa [same]

/-! ## Letters -/

/-- An ending that does not hold a member before it stands behind this member. -/
theorem suffix_of_suffix_append_cons {α : Type} {xs ys front : List α} {c : α} (absent : c ∉ xs)
    (ends : xs <:+ front ++ c :: ys) : xs <:+ ys := by
  rcases List.suffix_or_suffix_of_suffix ends (List.suffix_append front (c :: ys)) with
    inside | longer
  · rcases List.suffix_cons_iff.mp inside with rfl | behind
    · exact absurd List.mem_cons_self absent
    · exact behind
  · exact absurd (longer.subset List.mem_cons_self) absent

theorem visible_letters (unit : TimeUnit) :
    ∀ c ∈ unit.letters, c.isDigit = false ∧ isBlank c = false := by
  cases unit <;> simp [TimeUnit.letters, isBlank]

/-- A text that is written with one unit ends with the letters of another one only if the first
unit's letters do. -/
theorem Written.suffix_letters (written : Written s n unit) {other : TimeUnit}
    (ends : other.letters <:+ s.toList) : other.letters <:+ unit.letters := by
  obtain @⟨numeral, blanks, text, names, blank⟩ := written
  rw [text] at ends
  rcases List.eq_nil_or_concat' blanks with rfl | ⟨others, c, rfl⟩
  · obtain ⟨front, c, last, digit⟩ := exists_last_of_names names
    rw [last, List.append_nil, List.append_assoc, List.singleton_append] at ends
    refine suffix_of_suffix_append_cons (fun mem => ?_) ends
    rw [(visible_letters other c mem).1] at digit
    cases digit
  · have here : isBlank c = true := blank c (by simp)
    rw [← List.append_assoc, List.append_assoc, List.singleton_append] at ends
    refine suffix_of_suffix_append_cons (fun mem => ?_) ends
    rw [(visible_letters other c mem).2] at here
    cases here

/-! ## Texts -/

/-- A text that begins with no blank is written with a unit exactly if what stands before the unit's
letters is counted. -/
theorem written_iff (unit : TimeUnit) (starts : StartsOutside isBlank s.toList)
    (whole : s.toList = t.toList ++ unit.letters) :
    Written s n unit ∧ n < UInt64.size ↔ count? t = some n := by
  have front : StartsOutside isBlank t.toList := by
    intro c rest first
    exact starts c (rest ++ unit.letters) (by rw [whole, first, List.cons_append])
  rw [count?_eq_some_iff front, and_comm]
  refine and_congr_right fun _ => ?_
  constructor
  · rintro ⟨text, names, blank⟩
    exact ⟨_, _, List.append_cancel_right (whole.symm.trans text), names, blank⟩
  · rintro ⟨numeral, blanks, text, names, blank⟩
    exact .of (by rw [whole, text]) names blank

theorem ofTrimmed?_eq_some_iff (starts : StartsOutside isBlank s.toList)
    (ends : EndsOutside isBlank s.toList) :
    ofTrimmed? s = some d ↔ ∃ n unit, Written s n unit ∧ Fits n unit ∧ d = ⟨n * unit.millis⟩ := by
  -- Where no unit is named, nothing is left to trim.
  have bare : s.toList = s.toList ++ TimeUnit.unnamed.letters := (List.append_nil _).symm
  have numeral : (Numeral.read bound64 s).toOption = count? s := by
    rw [count?, trim, trimList_of_startsOutside starts, ends.dropTrailing_eq, String.ofList_toList]
  constructor
  · intro read
    unfold ofTrimmed? at read
    split at read
    next t taken =>
      obtain ⟨n, counted, rfl⟩ := Option.map_eq_some_iff.mp read
      obtain ⟨written, small⟩ := (written_iff .milliseconds starts
        (withoutEnding?_eq_some_iff.mp taken)).mpr counted
      exact ⟨n, .milliseconds, written, ⟨small, by rintro ⟨⟩⟩, by simp [TimeUnit.millis]⟩
    split at read
    next t taken =>
      obtain ⟨n, counted, rfl⟩ := Option.map_eq_some_iff.mp read
      obtain ⟨written, small⟩ := (written_iff .seconds starts
        (withoutEnding?_eq_some_iff.mp taken)).mpr counted
      exact ⟨n, .seconds, written, ⟨small, by rintro ⟨⟩⟩, rfl⟩
    split at read
    next t taken =>
      obtain ⟨n, counted, made⟩ := Option.bind_eq_some_iff.mp read
      obtain ⟨written, small⟩ := (written_iff .minutes starts
        (withoutEnding?_eq_some_iff.mp taken)).mpr counted
      split at made
      next fits =>
        obtain rfl := Option.some.inj made
        have seconds : 60 * n < UInt64.size := by rwa [Nat.mul_comm]
        exact ⟨n, .minutes, written, ⟨small, fun _ => seconds⟩, by
          simp [TimeUnit.millis, ofSeconds, Nat.mul_assoc]⟩
      next => cases made
    next =>
      rw [numeral] at read
      obtain ⟨n, counted, rfl⟩ := Option.map_eq_some_iff.mp read
      obtain ⟨written, small⟩ := (written_iff .unnamed starts bare).mpr counted
      exact ⟨n, .unnamed, written, ⟨small, by rintro ⟨⟩⟩, rfl⟩
  · rintro ⟨n, unit, written, ⟨small, minutes⟩, rfl⟩
    obtain ⟨t, whole⟩ : ∃ t : String, s.toList = t.toList ++ unit.letters := by
      obtain @⟨numeral, blanks, text, -, -⟩ := written
      exact ⟨String.ofList (numeral.toList ++ blanks), by rw [text, String.toList_ofList]⟩
    have counted := (written_iff unit starts whole).mp ⟨written, small⟩
    -- The units that are tried before this one have letters with which the text does not end.
    have other (v : TimeUnit) (ending : String) (letters : ending.toList = v.letters)
        (no : ¬v.letters <:+ unit.letters) : withoutEnding? ending s = none :=
      withoutEnding?_eq_none_iff.mpr (letters ▸ fun ends => no (written.suffix_letters ends))
    have own (ending : String) (letters : ending.toList = unit.letters) :
        withoutEnding? ending s = some t :=
      withoutEnding?_eq_some_iff.mpr (letters ▸ whole)
    cases unit with
    | milliseconds =>
      simp [ofTrimmed?, own "ms" rfl, counted, TimeUnit.millis]
    | seconds =>
      have noMs := other .milliseconds "ms" rfl (by decide)
      simp [ofTrimmed?, noMs, own "s" rfl, counted, TimeUnit.millis, ofSeconds]
    | minutes =>
      have noMs := other .milliseconds "ms" rfl (by decide)
      have noS := other .seconds "s" rfl (by decide)
      have fits : n * 60 < bound64 := by
        rw [Nat.mul_comm]
        exact minutes rfl
      simp [ofTrimmed?, noMs, noS, own "m" rfl, counted, fits, TimeUnit.millis,
        ofSeconds, Nat.mul_assoc]
    | unnamed =>
      obtain rfl : s = t := String.toList_inj.mp (whole.trans (List.append_nil _))
      have noMs := other .milliseconds "ms" rfl (by decide)
      have noS := other .seconds "s" rfl (by decide)
      have noM := other .minutes "m" rfl (by decide)
      simp [ofTrimmed?, noMs, noS, noM, numeral, counted, TimeUnit.millis, ofSeconds]

end Duration

/-- Around a text stands white space that does not count. What is between is a duration exactly if it
is a numeral of 64 bits, blanks or none, and `s`, `ms`, `m` or nothing; minutes must fit into 64 bits
as seconds. Then the duration is exactly that many units long. Of any other text the refusal holds
what is left without the white space around it. -/
theorem durations_read (s : String) :
    ∃ t, Trimmed s t ∧
      (∀ d, readDuration s = .ok d ↔ ∃ n unit, Duration.Written t n unit ∧
        Duration.Fits n unit ∧ d = ⟨n * unit.millis⟩) ∧
      ∀ e, readDuration s = .error e ↔ e = .badDuration t ∧
        ¬∃ n unit, Duration.Written t n unit ∧ Duration.Fits n unit := by
  have trimmed := trimmed_trim s
  have read (d : Duration) := Duration.ofTrimmed?_eq_some_iff (d := d) trimmed.starts trimmed.ends
  refine ⟨trim s, trimmed, fun d => ?_, fun e => ?_⟩
  · rw [← read, readDuration, Duration.read]
    cases Duration.ofTrimmed? (trim s) <;> simp [Except.mapError]
  · have none : (¬∃ n unit, Duration.Written (trim s) n unit ∧ Duration.Fits n unit) ↔
        Duration.ofTrimmed? (trim s) = none := by
      rw [Option.eq_none_iff_forall_ne_some, ← not_exists, not_iff_not]
      simp only [read]
      constructor
      · rintro ⟨n, unit, written, fits⟩
        exact ⟨_, n, unit, written, fits, rfl⟩
      · rintro ⟨-, n, unit, written, fits, -⟩
        exact ⟨n, unit, written, fits⟩
    rw [none, readDuration, Duration.read]
    cases Duration.ofTrimmed? (trim s) <;> simp [Except.mapError, eq_comm]

end ObserverRelay.Relay
