import ObserverRelay.Proofs.Json.Figures
/-!
# No white space outside strings

Whether an octet of a JSON text stands inside a string is known from what is before it: a quote
opens a string and closes it, unless a backslash stands before the quote. In the compact layout
white space stands inside strings only.

## Main statements

* `tight_chars`: the compact layout of a value is tight.
-/
namespace ObserverRelay.Json

open Bytes

variable {s t : Bytes} {p q r : Place} {b : UInt8} {v : Value}

/-- Where an octet stands: outside all strings, inside one, or behind a backslash in one. -/
inductive Place
  | outside
  | inside
  | escaped
  deriving DecidableEq, Repr

/-- Where the next octet stands. -/
def Place.next : Place → UInt8 → Place
  | .outside, b => if b = 0x22 then .inside else .outside
  | .inside, b => if b = 0x22 then .outside else if b = 0x5C then .escaped else .inside
  | .escaped, _ => .inside

/-- The octets lead from one place to another, and none of those outside strings is white space. -/
inductive Passes : Place → Bytes → Place → Prop
  | nil (p : Place) : Passes p [] p
  | cons {p q : Place} {b : UInt8} {s : Bytes} (noSpace : p = .outside → isSpace b = false)
      (more : Passes (p.next b) s q) : Passes p (b :: s) q

/-- Every string in the octets is closed, and no white space stands outside of strings. -/
def Tight (s : Bytes) : Prop := Passes .outside s .outside

theorem Passes.append (h : Passes p s q) (h' : Passes q t r) : Passes p (s ++ t) r := by
  induction h with
  | nil => exact h'
  | cons noSpace _ ih => exact .cons noSpace (ih h')

/-- Inside a string any octet may stand. -/
theorem Passes.within (inside : p ≠ .outside) (more : Passes (p.next b) s q) :
    Passes p (b :: s) q :=
  .cons (fun outside => absurd outside inside) more

/-! ## Scalars -/

/-- Octets outside strings that are neither white space nor quotes. -/
theorem tight_of_forall_mem (plain : ∀ b ∈ s, isSpace b = false ∧ b ≠ 0x22) : Tight s := by
  induction s with
  | nil => exact .nil .outside
  | cons b s ih =>
    obtain ⟨⟨noSpace, noQuote⟩, others⟩ := List.forall_mem_cons.mp plain
    refine .cons (fun _ => noSpace) ?_
    rw [Place.next, if_neg noQuote]
    exact ih others

/-- Octets inside a string that neither close it nor begin an escape. -/
theorem passes_inside_of_forall_mem (plain : ∀ b ∈ s, b ≠ 0x22 ∧ b ≠ 0x5C) :
    Passes .inside s .inside := by
  induction s with
  | nil => exact .nil .inside
  | cons b s ih =>
    obtain ⟨⟨noQuote, noEscape⟩, others⟩ := List.forall_mem_cons.mp plain
    refine .within (by decide) ?_
    rw [Place.next, if_neg noQuote, if_neg noEscape]
    exact ih others

/-- An escape leads back to where it began. -/
theorem passes_escape (b : UInt8) (plain : ∀ b ∈ s, b ≠ 0x22 ∧ b ≠ 0x5C) :
    Passes .inside (0x5C :: b :: s) .inside :=
  .within (by decide) (.within (by decide) (passes_inside_of_forall_mem plain))

theorem plain_digitChar {k : Nat} (small : k < 16) :
    (Hex.digitChar k).toUInt8 ≠ 0x22 ∧ (Hex.digitChar k).toUInt8 ≠ 0x5C := by
  have digit := (Hex.digit?_digitChar small).2
  constructor
  · intro quote
    rw [quote] at digit
    cases digit
  · intro escape
    rw [escape] at digit
    cases digit

theorem passes_unicodeEscape (n : Nat) : Passes .inside (ofChars (unicodeEscape n)) .inside := by
  have small (k : Nat) : k % 16 < 16 := Nat.mod_lt k (by decide)
  rw [unicodeEscape_eq, ofChars_cons_of_lt (by decide), ofChars_cons_of_lt (by decide),
    ofChars_digitChar (small _), ofChars_digitChar (small _), ofChars_digitChar (small _),
    ofChars_digitChar (small _)]
  refine passes_escape _ fun b mem => ?_
  simp only [ofChars_nil, List.mem_cons, List.not_mem_nil, or_false] at mem
  obtain rfl | rfl | rfl | rfl := mem
  all_goals exact plain_digitChar (small _)

theorem passes_escapeChar (c : Char) : Passes .inside (ofChars (escapeChar c)) .inside := by
  simp only [escapeChar]
  split
  iterate 7 exact passes_escape _ (List.forall_mem_nil _)
  · split
    next => exact passes_unicodeEscape c.toNat
    next noQuote noEscape _ _ _ _ _ noControl =>
      rw [ofChars_cons, ofChars_nil, List.append_nil]
      refine passes_inside_of_forall_mem fun b mem => ?_
      obtain ⟨noQuote, noEscape, -⟩ := plain_utf8EncodeChar noQuote noEscape noControl b mem
      exact ⟨noQuote, noEscape⟩

theorem tight_stringChars (x : String) : Tight (ofChars (stringChars x)) := by
  have inside (cs : List Char) : Passes .inside (ofChars (cs.flatMap escapeChar)) .inside := by
    induction cs with
    | nil => exact .nil .inside
    | cons c cs ih =>
      rw [List.flatMap_cons, ofChars_append]
      exact (passes_escapeChar c).append ih
  rw [stringChars, ofChars_cons_of_lt (by decide), ofChars_append]
  exact .cons (fun _ => rfl) ((inside x.toList).append (.within (by decide) (.nil .outside)))

theorem tight_integerChars (n : Int) : Tight (ofChars (integerChars n)) := by
  have digits : Tight (ofChars (Nat.toDigits 10 n.natAbs)) := by
    have figures := figures_toDigits n.natAbs
    refine tight_of_forall_mem fun b mem => ?_
    rw [figures.ofChars_eq] at mem
    obtain ⟨c, figure, rfl⟩ := List.mem_map.mp mem
    obtain ⟨-, digit⟩ := isDigit_of_digit? (figures c figure)
    refine ⟨isSpace_of_isDigit digit, fun quote => ?_⟩
    rw [quote] at digit
    cases digit
  rw [integerChars]
  split_ifs with minus
  · rw [ofChars_cons_of_lt (by decide)]
    exact .cons (fun _ => rfl) digits
  · exact digits

/-! ## Values -/

theorem tight_itemsChars {vs : List Value} (each : ∀ v ∈ vs, Tight (ofChars v.chars)) :
    Tight (ofChars (itemsChars vs)) := by
  induction vs with
  | nil => exact .nil .outside
  | cons v vs ih =>
    obtain ⟨here, others⟩ := List.forall_mem_cons.mp each
    cases vs with
    | nil => exact here
    | cons w vs =>
      rw [itemsChars, ofChars_append, ofChars_cons_of_lt (by decide)]
      · exact here.append (.cons (fun _ => rfl) (ih others))
      · exact List.cons_ne_nil w vs

theorem tight_membersChars {ms : Members} (each : ∀ m ∈ ms, Tight (ofChars m.2.chars)) :
    Tight (ofChars (membersChars ms)) := by
  induction ms with
  | nil => exact .nil .outside
  | cons m ms ih =>
    obtain ⟨k, v⟩ := m
    obtain ⟨here, others⟩ := List.forall_mem_cons.mp each
    cases ms with
    | nil =>
      rw [membersChars, ofChars_append, ofChars_cons_of_lt (by decide)]
      exact (tight_stringChars k).append (.cons (fun _ => rfl) here)
    | cons n ms =>
      rw [membersChars, ofChars_append, ofChars_cons_of_lt (by decide), ofChars_append,
        ofChars_cons_of_lt (by decide)]
      · exact (tight_stringChars k).append
          (.cons (fun _ => rfl) (here.append (.cons (fun _ => rfl) (ih others))))
      · exact List.cons_ne_nil n ms

/-- In the compact layout of a value with integers only, white space stands inside strings. -/
theorem tight_chars (whole : v.Whole) : Tight (ofChars v.chars) := by
  induction whole with
  | null => exact tight_of_forall_mem (List.forall_iff_forall_mem.mp (by decide))
  | bool b => cases b <;> exact tight_of_forall_mem (List.forall_iff_forall_mem.mp (by decide))
  | integer low high => exact tight_integerChars _
  | string x => exact tight_stringChars x
  | array items ih =>
    rw [Value.chars, ofChars_cons_of_lt (by decide), ofChars_append]
    exact .cons (fun _ => rfl) ((tight_itemsChars ih).append (.cons (fun _ => rfl) (.nil .outside)))
  | object members ih =>
    rw [Value.chars, ofChars_cons_of_lt (by decide), ofChars_append]
    exact .cons (fun _ => rfl)
      ((tight_membersChars ih).append (.cons (fun _ => rfl) (.nil .outside)))

end ObserverRelay.Json
