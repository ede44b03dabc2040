import ObserverRelay.Proofs.Json.Completeness
import ObserverRelay.Proofs.Json.Figures
/-!
# Values are read back from their compact layout

A value whose numbers are integers of 64 bits is written as a document that means it both ways: by
the digits that are written, and by what a reader makes of them. So it is read back as it was, if
no object in it holds a name twice and it is not nested too deep.

## Main statements

* `exists_document`: the document that a value is written as.
* `parseFront_render`, `parse_render`: the value is read back.
-/
namespace ObserverRelay.Json

open Bytes

variable {α β : Type} {depth : Nat} {v : Value}

/-- Lists and objects in the value are nested at most that deep. -/
inductive Value.Within : Nat → Value → Prop
  | null (depth : Nat) : Within depth .null
  | bool (depth : Nat) (b : Bool) : Within depth (.bool b)
  | number (depth : Nat) (n : Number) : Within depth (.number n)
  | string (depth : Nat) (x : String) : Within depth (.string x)
  | array {depth : Nat} {vs : List Value} (items : ∀ v ∈ vs, Within depth v) :
      Within (depth + 1) (.array vs)
  | object {depth : Nat} {ms : Members} (members : ∀ m ∈ ms, Within depth m.2) :
      Within (depth + 1) (.object ms)

/-! ## Integers -/

/-- An integer as it is written. -/
def Literal.ofInt (n : Int) : Literal := .ofNat (decide (n < 0)) n.natAbs

theorem written_ofInt (n : Int) : Written (.ofInt n) (.integer n) := by
  intro t stops
  rw [Number.chars, integerChars, Literal.ofInt]
  by_cases minus : n < 0
  · rw [if_pos minus, ofChars_cons_of_lt (by decide), decide_eq_true minus]
    exact .minus (magnitudeAt_toDigits true n.natAbs stops)
  · rw [if_neg minus, decide_eq_false minus]
    exact .plain (magnitudeAt_toDigits false n.natAbs stops)

/-- An integer that fits into 64 bits is read as it was written. -/
theorem becomes_ofInt {n : Int} (low : -(Numeral.signedBound64 : Int) ≤ n)
    (high : n < Numeral.bound64) : Becomes (.ofInt n) (.integer n) := by
  have bounds : Numeral.signedBound64 < Numeral.bound64 := by decide
  have significand : (Literal.ofInt n).significand = n.natAbs := by
    simp [Literal.ofInt, Literal.ofNat, Literal.significand, natural_toDigits]
  have absorbed : (Literal.ofInt n).absorbed = (n.natAbs, []) := by
    rw [Literal.absorbed_eq (by rw [significand]; omega)]
    simp [Literal.ofInt, Literal.ofNat, natural_toDigits]
  have kept : integerNumber (decide (n < 0)) n.natAbs = .integer n := by
    rw [integerNumber]
    by_cases minus : n < 0
    · have inside : ¬(n.natAbs = 0 ∨ Numeral.signedBound64 < n.natAbs) := by omega
      rw [decide_eq_true minus, if_neg (by decide), if_neg inside]
      congr 1
      omega
    · rw [decide_eq_false minus, if_pos (by decide)]
      congr 1
      omega
  have becomes : Becomes (.ofInt n) (integerNumber (decide (n < 0)) (Literal.ofInt n).absorbed.1) :=
    .plain ⟨rfl, rfl, by rw [absorbed]⟩
  rwa [absorbed, kept] at becomes

/-- A number without point and exponent that is an integer of 64 bits, signed or not, and no
negative zero. -/
structure Literal.Integral (l : Literal) : Prop where
  noFraction : l.fraction = []
  noExponent : l.exponent = none
  high : natural l.whole < Numeral.bound64
  low : l.negative → natural l.whole ≠ 0 ∧ natural l.whole ≤ Numeral.signedBound64

theorem Literal.integral_ofInt {n : Int} (low : -(Numeral.signedBound64 : Int) ≤ n)
    (high : n < Numeral.bound64) : (Literal.ofInt n).Integral := by
  have bounds : Numeral.signedBound64 < Numeral.bound64 := by decide
  have digits : natural (Literal.ofInt n).whole = n.natAbs := natural_toDigits n.natAbs
  refine ⟨rfl, rfl, by omega, fun minus => ?_⟩
  have negative : n < 0 := of_decide_eq_true minus
  omega

/-- The integer that digits in front of a point say. -/
def Literal.integer (l : Literal) : Int := if l.negative then -natural l.whole else natural l.whole

theorem Literal.Integral.significand_eq {l : Literal} (integral : l.Integral) :
    l.significand = natural l.whole := by
  rw [significand, integral.noFraction, List.append_nil]

/-- It becomes the integer that it says. -/
theorem Literal.Integral.eq_of_becomes {l : Literal} {n : Number} (integral : l.Integral)
    (becomes : Becomes l n) : n = .integer l.integer := by
  have absorbed := l.absorbed_eq (by rw [integral.significand_eq]; exact integral.high)
  cases becomes with
  | plain plain =>
    rw [absorbed, integerNumber, Literal.integer]
    cases minus : l.negative with
    | false => rfl
    | true =>
      obtain ⟨noZero, low⟩ := integral.low minus
      have inside : ¬(natural l.whole = 0 ∨ Numeral.signedBound64 < natural l.whole) := by omega
      rw [if_neg (by decide), if_neg inside]
      rfl
  | scaled noPlain =>
    exact absurd ⟨integral.noFraction, integral.noExponent, by rw [absorbed]⟩ noPlain

theorem Literal.Integral.becomes {l : Literal} {n : Number} (integral : l.Integral)
    (becomes : Becomes l n) : (Value.number n).Whole := by
  have high := integral.high
  have low := integral.low
  rw [integral.eq_of_becomes becomes, integer]
  split_ifs with minus
  · have low := low minus
    exact .integer (by omega) (by omega)
  · exact .integer (by omega) (by omega)

/-- All numbers in the document are integers of 64 bits and no negative zeros. -/
inductive Document.Integral : Document α → Prop
  | null : Integral .null
  | bool (b : Bool) : Integral (.bool b)
  | number {l : Literal} (integral : l.Integral) : Integral (.number l)
  | string (x : α) : Integral (.string x)
  | array {ds : List (Document α)} (items : ∀ d ∈ ds, Integral d) : Integral (.array ds)
  | object {ms : List (α × Document α)} (members : ∀ m ∈ ms, Integral m.2) :
      Integral (.object ms)

/-! ## Documents of values -/

/-- What each spelled number becomes, it becomes in a whole document. -/
theorem Means.imp {N M : Literal → Number → Prop} (imp : ∀ l n, N l n → M l n)
    {d : Document String} (means : Means N d v) : Means M d v := by
  induction d generalizing v with
  | null | bool | string =>
    cases means
    constructor
  | number l =>
    cases means with
    | number number => exact .number (imp _ _ number)
  | array ds ih =>
    cases means with
    | array items => exact .array (forall₂_imp_mem items fun d hd _ here => ih d hd here)
  | object ms ih =>
    cases means with
    | object names values =>
      refine .object names (forall₂_imp_mem values fun d hd _ here => ?_)
      obtain ⟨m, hm, rfl⟩ := List.mem_map.mp hd
      exact ih m hm here

/-- What holds of the values that the members of an object mean holds of its own. -/
theorem forall_mem_assignAll_of_means {N : Literal → Number → Prop} {P : Value → Prop}
    {ms : List (String × Document String)} {vs : Members}
    (values : List.Forall₂ (Means N) (ms.map Prod.snd) (vs.map Prod.snd))
    (each : ∀ m ∈ ms, ∀ v, Means N m.2 v → P v) : ∀ m ∈ Members.assignAll [] vs, P m.2 := by
  intro m mem
  obtain mem | mem := Members.mem_assignAll mem
  · cases mem
  · obtain ⟨d, mem', means⟩ := exists_mem_of_forall₂ values (List.mem_map_of_mem mem)
    obtain ⟨n, mem'', rfl⟩ := List.mem_map.mp mem'
    exact each n mem'' m.2 means

/-- A value is nested no deeper than a document that means it. -/
theorem Means.within {N : Literal → Number → Prop} {d : Document String} (means : Means N d v)
    (within : d.Within depth) : v.Within depth := by
  induction d generalizing depth v with
  | null =>
    cases means
    exact .null depth
  | bool b =>
    cases means
    exact .bool depth b
  | number l =>
    cases means
    exact .number depth _
  | string x =>
    cases means
    exact .string depth x
  | array ds ih =>
    cases means with
    | array items =>
      cases within with
      | array inner =>
        refine .array fun v mem => ?_
        obtain ⟨d, mem', here⟩ := exists_mem_of_forall₂ items mem
        exact ih d mem' here (inner d mem')
  | object ms ih =>
    cases means with
    | object names values =>
      cases within with
      | object inner =>
        exact .object (forall_mem_assignAll_of_means values fun m mem v here =>
          ih m mem here (inner m mem))

/-- A document with integers only means a value with integers only. -/
theorem Means.whole {d : Document String} (means : Means Becomes d v) (integral : d.Integral) :
    v.Whole := by
  induction d generalizing v with
  | null =>
    cases means
    exact .null
  | bool b =>
    cases means
    exact .bool b
  | number l =>
    cases means with
    | number becomes =>
      cases integral with
      | number integral => exact integral.becomes becomes
  | string x =>
    cases means
    exact .string x
  | array ds ih =>
    cases means with
    | array items =>
      cases integral with
      | array inner =>
        refine .array fun v mem => ?_
        obtain ⟨d, mem', here⟩ := exists_mem_of_forall₂ items mem
        exact ih d mem' here (inner d mem')
  | object ms ih =>
    cases means with
    | object names values =>
      cases integral with
      | object inner =>
        exact .object (forall_mem_assignAll_of_means values fun m mem v here =>
          ih m mem here (inner m mem))

/-- A document says what a value holds, with numbers that are written as they become. -/
structure Document.Tells (depth : Nat) (d : Document String) (v : Value) : Prop where
  means : Means (fun l n => Written l n ∧ Becomes l n) d v
  noRepeats : d.NoRepeats
  integral : d.Integral
  within : d.Within depth

/-- The document that a value is written as. -/
theorem exists_document (whole : v.Whole) (distinct : v.Distinct) (within : v.Within depth) :
    ∃ d : Document String, d.Tells depth v := by
  induction whole generalizing depth with
  | null => exact ⟨.null, .null, .null, .null, .null depth⟩
  | bool b => exact ⟨.bool b, .bool b, .bool b, .bool b, .bool depth b⟩
  | @integer n low high =>
    exact ⟨.number (.ofInt n), .number ⟨written_ofInt n, becomes_ofInt low high⟩, .number _,
      .number (Literal.integral_ofInt low high), .number depth _⟩
  | string x => exact ⟨.string x, .string x, .string x, .string x, .string depth x⟩
  | @array vs items ih =>
    cases distinct with
    | array distincts =>
      cases within with
      | @array depth _ inner =>
        obtain ⟨ds, tells⟩ := exists_forall₂_of_forall_mem fun v hv =>
          ih v hv (distincts v hv) (inner v hv)
        exact ⟨.array ds, .array (tells.imp fun _ _ t => t.means),
          .array (forall_mem_of_forall₂ tells fun _ _ t => t.noRepeats),
          .array (forall_mem_of_forall₂ tells fun _ _ t => t.integral),
          .array (forall_mem_of_forall₂ tells fun _ _ t => t.within)⟩
  | @object vs members ih =>
    cases distinct with
    | object names distincts =>
      cases within with
      | @object depth _ inner =>
        obtain ⟨ms, same, tells⟩ := exists_members fun m hm =>
          ih m hm (distincts m hm) (inner m hm)
        have noRepeats := forall_mem_of_forall₂ tells fun _ _ t => t.noRepeats
        have integral := forall_mem_of_forall₂ tells fun _ _ t => t.integral
        have shallow := forall_mem_of_forall₂ tells fun _ _ t => t.within
        have means : Means (fun l n => Written l n ∧ Becomes l n) (.object ms)
            (.object (Members.assignAll [] vs)) :=
          .object same (tells.imp fun _ _ t => t.means)
        rw [Members.assignAll_nil names] at means
        refine ⟨.object ms, means, .object ?_ ?_, .object ?_, .object ?_⟩
        · rw [same]
          exact names
        · exact fun m hm => noRepeats m.2 (List.mem_map_of_mem hm)
        · exact fun m hm => integral m.2 (List.mem_map_of_mem hm)
        · exact fun m hm => shallow m.2 (List.mem_map_of_mem hm)

/-- The compact layout is the text of a document that is read as the value. -/
theorem exists_spells_render (whole : v.Whole) (distinct : v.Distinct) (within : v.Within depth) :
    ∃ d : Document String, Spells TextAt (ofText v.render) d ∧ Means Becomes d v ∧ d.Within depth := by
  obtain ⟨d, tells⟩ := exists_document whole distinct within
  exact ⟨d, spells_render (tells.means.imp fun _ _ h => h.1) tells.noRepeats,
    tells.means.imp fun _ _ h => h.2, tells.within⟩

/-! ## Values that are written and read back -/

/-- A value that is read back from its compact layout where so much nesting is allowed. -/
structure Value.Writable (depth : Nat) (v : Value) : Prop where
  whole : v.Whole
  distinct : v.Distinct
  within : v.Within depth

namespace Value.Writable

theorem null (depth : Nat) : Writable depth .null := ⟨.null, .null, .null depth⟩

theorem string (depth : Nat) (x : String) : Writable depth (.string x) :=
  ⟨.string x, .string x, .string depth x⟩

theorem word (depth : Nat) {n : Nat} (fits : n < Numeral.bound64) : Writable depth (.ofNat n) :=
  ⟨.integer (by omega) (by omega), .number _, .number depth _⟩

theorem array {vs : List Value} (items : ∀ v ∈ vs, v.Writable depth) :
    Writable (depth + 1) (.array vs) where
  whole := .array fun v mem => (items v mem).whole
  distinct := .array fun v mem => (items v mem).distinct
  within := .array fun v mem => (items v mem).within

theorem object {ms : Members} (names : (Members.names ms).Nodup)
    (members : ∀ m ∈ ms, m.2.Writable depth) : Writable (depth + 1) (.object ms) where
  whole := .object fun m mem => (members m mem).whole
  distinct := .object names fun m mem => (members m mem).distinct
  within := .object fun m mem => (members m mem).within

end Value.Writable

/-- The compact layout of members, repeated names included, is the text of an object of them. -/
theorem exists_spells_members {vs : Members} (writable : ∀ m ∈ vs, m.2.Writable depth) :
    ∃ ms : List (String × Document String), ms.map Prod.fst = vs.map Prod.fst ∧
      Spells TextAt (ofText (Value.object vs).render) (.object ms) ∧
      Means Becomes (.object ms) (.object (Members.assignAll [] vs)) ∧
      (Document.object ms).Within (depth + 1) ∧ (Document.object ms).Integral ∧
      ∀ m ∈ ms, m.2.NoRepeats := by
  obtain ⟨ms, names, tells⟩ := exists_members fun m hm =>
    exists_document (writable m hm).whole (writable m hm).distinct (writable m hm).within
  have shallow := forall_mem_of_forall₂ tells fun _ _ t => t.within
  have integral := forall_mem_of_forall₂ tells fun _ _ t => t.integral
  have noRepeats := forall_mem_of_forall₂ tells fun _ _ t => t.noRepeats
  have written := documentAt_objectChars (t := []) names <| tells.imp fun _ _ t _ stops =>
    documentAt_chars (t.means.imp fun _ _ h => h.1) t.noRepeats stops
  rw [List.append_nil, ← ofText_ofList_eq] at written
  exact ⟨ms, names, ⟨[], written, rfl⟩,
    .object names (tells.imp fun _ _ t => t.means.imp fun _ _ h => h.2),
    .object fun m hm => shallow m.2 (List.mem_map_of_mem hm),
    .object fun m hm => integral m.2 (List.mem_map_of_mem hm),
    fun m hm => noRepeats m.2 (List.mem_map_of_mem hm)⟩

/-- A value is read back from the front of its compact layout. -/
theorem parseFront_render (whole : v.Whole) (distinct : v.Distinct) (within : v.Within maxDepth) :
    Value.parseFront (ofText v.render) = .ok v := by
  obtain ⟨d, ⟨t, document, -⟩, means, shallow⟩ := exists_spells_render whole distinct within
  exact parseFront_of_document document means shallow

/-- The compact layout as a whole is read back as the value. -/
theorem parse_render (whole : v.Whole) (distinct : v.Distinct) (within : v.Within maxDepth) :
    Value.parse (ofText v.render) = .ok v := by
  obtain ⟨d, ⟨t, document, blank⟩, means, shallow⟩ := exists_spells_render whole distinct within
  exact readWhole_eq_ok_iff.mpr ⟨t, view_readValue document means shallow, blank⟩

end ObserverRelay.Json
