import ObserverRelay.Proofs.Json.Tokens
/-!
# What a number is read as

A number is read to its end, as the grammar has it. What it becomes is determined by its parts: an
integer without point and exponent whose digits fit into 64 bits is kept, and of any other number
the digits that fit are scaled by a power of ten.

## Main statements

* `becomes_of_readNumber`: numbers that are read are numbers of the grammar.
-/
namespace ObserverRelay.Json

variable {s t u : Bytes}

/-! ## Digits -/

/-- The number that decimal digits go on to name. -/
def naturalFrom (n : Nat) (ds : Bytes) : Nat := ds.foldl (fun n b => n * 10 + digitValue b) n

@[simp] theorem naturalFrom_nil (n : Nat) : naturalFrom n [] = n := rfl

@[simp] theorem naturalFrom_cons (n : Nat) (b : UInt8) (ds : Bytes) :
    naturalFrom n (b :: ds) = naturalFrom (n * 10 + digitValue b) ds := by
  rw [naturalFrom, List.foldl_cons, naturalFrom]

theorem natural_append (ds es : Bytes) : natural (ds ++ es) = naturalFrom (natural ds) es := by
  rw [natural, natural, naturalFrom, List.foldl_append]

theorem le_naturalFrom (n : Nat) (ds : Bytes) : n ≤ naturalFrom n ds := by
  induction ds generalizing n with
  | nil => exact Nat.le_refl n
  | cons b ds ih =>
    have step := ih (n * 10 + digitValue b)
    rw [naturalFrom_cons]
    omega

/-- Digits that fit into the significand are taken whole. -/
theorem absorb_eq {n : Nat} {ds : Bytes} (fits : naturalFrom n ds < Numeral.bound64) :
    absorb n (ds.map digitValue) = (naturalFrom n ds, []) := by
  induction ds generalizing n with
  | nil => rfl
  | cons b ds ih =>
    rw [naturalFrom_cons] at fits ⊢
    have step := le_naturalFrom (n * 10 + digitValue b) ds
    rw [List.map_cons, absorb, if_pos (by omega), ih fits]

/-- The digits of an exponent are taken whole as long as they fit into 32 bits. -/
theorem exponentValue_eq {n : Nat} {ds : Bytes} (fits : naturalFrom n ds ≤ 2147483647) :
    exponentValue n ds = .inl (naturalFrom n ds) := by
  induction ds generalizing n with
  | nil => rfl
  | cons b ds ih =>
    rw [naturalFrom_cons] at fits ⊢
    have step := le_naturalFrom (n * 10 + digitValue b) ds
    rw [exponentValue, if_pos (by omega), ih fits]

theorem eq_of_exponentValue {n m : Nat} {ds : Bytes} (small : n ≤ 2147483647)
    (h : exponentValue n ds = .inl m) : m = naturalFrom n ds ∧ m ≤ 2147483647 := by
  induction ds generalizing n with
  | nil =>
    obtain rfl : n = m := Sum.inl.inj h
    exact ⟨rfl, small⟩
  | cons b ds ih =>
    rw [exponentValue] at h
    split at h
    next small' => exact ih small' h
    next => cases h

/-! ## Parts of a number -/

/-- A number of a sign, a significand and a power of ten. An exponent beyond 32 bits leaves zero. -/
inductive Scaled (negative : Bool) (significand : Nat) (exponent : Int) (e : Option Int) :
    Number → Prop
  | scaled {x : Binary64} (small : ∀ k ∈ e, k.natAbs ≤ 2147483647)
      (scaled : scaled? significand (exponent + e.getD 0) = some x) :
      Scaled negative significand exponent e (.binary (if negative then x.negate else x))
  | vanished {k : Int} (given : e = some k) (large : 2147483647 < k.natAbs)
      (zero : significand = 0 ∨ k < 0) : Scaled negative significand exponent e (.binary (.zero negative))

variable {negative : Bool} {significand : Nat} {exponent : Int} {n : Number}

theorem Scaled.unique {e : Option Int} {m : Number} (h : Scaled negative significand exponent e m)
    (h' : Scaled negative significand exponent e n) : m = n := by
  cases h with
  | scaled small scaled =>
    cases h' with
    | scaled _ scaled' =>
      obtain rfl := Option.some.inj (scaled.symm.trans scaled')
      rfl
    | vanished given large => exact absurd (small _ given) (Nat.not_le.mpr large)
  | vanished given large =>
    cases h' with
    | scaled small => exact absurd (small _ given) (Nat.not_le.mpr large)
    | vanished => rfl

theorem scaled_of_binaryAt {h : u.length < s.length}
    (read : (binaryAt negative significand exponent u h).view = .ok (n, t)) :
    u = t ∧ ∃ x, scaled? significand exponent = some x ∧
      n = .binary (if negative then x.negate else x) := by
  unfold binaryAt at read
  split at read
  next x scaled =>
    obtain ⟨rfl, rfl⟩ : Number.binary (if negative then x.negate else x) = n ∧ u = t := by
      simpa using read
    exact ⟨rfl, x, scaled, rfl⟩
  next => cases read

theorem scaled_of_binaryAt_none {h : u.length < s.length}
    (read : (binaryAt negative significand exponent u h).view = .ok (n, t)) :
    u = t ∧ Scaled negative significand exponent none n := by
  obtain ⟨rest, x, scaled, rfl⟩ := scaled_of_binaryAt read
  exact ⟨rest, .scaled nofun (by simpa using scaled)⟩

theorem scaled_of_readExponent {m : UInt8} (mark : m = 0x65 ∨ m = 0x45)
    (read : (readExponent negative significand exponent s).view = .ok (n, t)) :
    ∃ e, ExponentAt (m :: s) e t ∧ Scaled negative significand exponent e n := by
  rw [readExponent] at read
  split at read
  next => cases read
  next b r _ front _ =>
    split at read
    next digit =>
      have digits := digitsAt_cons digit r
      generalize (b :: r).takeWhile isDigit = ds at digits read
      have power := (exponentAt_mark_iff mark).mpr ⟨ds, front ▸ digits, rfl⟩
      cases value : exponentValue 0 ds with
      | inl e =>
        obtain ⟨rfl, small⟩ := eq_of_exponentValue (Nat.zero_le _) value
        change natural ds ≤ _ at small
        simp only [value] at read
        obtain ⟨rfl, x, scaled, rfl⟩ := scaled_of_binaryAt read
        refine ⟨_, power, .scaled ?_ ?_⟩
        · rintro k ⟨⟩
          split <;> omega
        · rw [← scaled]
          by_cases minus : s.head? = some 0x2D
          · simp [minus, sub_eq_add_neg, natural, naturalFrom]
          · simp [minus, natural, naturalFrom]
      | inr later =>
        have large : ¬natural ds ≤ 2147483647 := by
          intro fits
          rw [exponentValue_eq fits] at value
          cases value
        simp only [value] at read
        split at read
        next => cases read
        next zero =>
          obtain ⟨rfl, rfl⟩ : Number.binary (.zero negative) = n ∧ skipDigits r = t := by
            simpa using read
          refine ⟨_, power, .vanished rfl ?_ ?_⟩
          · split <;> omega
          · rw [not_and_or, not_not, not_not, beq_iff_eq] at zero
            refine zero.imp_right fun minus => ?_
            rw [if_pos minus]
            omega
    next => cases read

theorem scaled_of_readScale {h : t.length < s.length}
    (read : (readScale negative significand exponent s t h).view = .ok (n, u)) :
    ∃ e, ExponentAt t e u ∧ Scaled negative significand exponent e n := by
  unfold readScale at read
  split at read
  next =>
    obtain ⟨rfl, scaled⟩ := scaled_of_binaryAt_none read
    exact ⟨none, .none (by decide), scaled⟩
  next b r h =>
    split at read
    next mark =>
      rw [Outcome.view_within] at read
      exact scaled_of_readExponent mark read
    next noMark =>
      obtain ⟨rfl, scaled⟩ := scaled_of_binaryAt_none read
      exact ⟨none, .none (by simpa [not_or] using noMark), scaled⟩

theorem scaled_of_readFraction
    (read : (readFraction negative significand exponent s).view = .ok (n, u)) :
    ∃ ds t e, DigitsAt s ds t ∧ ExponentAt t e u ∧
      Scaled negative (absorb significand (ds.map digitValue)).1
        (exponent - (ds.length - (absorb significand (ds.map digitValue)).2.length : Nat)) e n := by
  rw [readFraction.eq_def] at read
  split at read
  next => cases read
  next b r =>
    split at read
    next digit =>
      have digits := digitsAt_cons digit r
      generalize (b :: r).takeWhile isDigit = ds at digits read
      obtain ⟨e, power, scaled⟩ := scaled_of_readScale read
      exact ⟨ds, _, e, digits, power, scaled⟩
    next => cases read

/-! ## Numbers -/

namespace Literal

variable {l : Literal}

/-- The digits before the point that fit into the significand, and those that are left out. -/
def absorbed (l : Literal) : Nat × List Nat := absorb 0 (l.whole.map digitValue)

/-- All digits that fit, and those behind the point that are left out. -/
def absorbedAll (l : Literal) : Nat × List Nat := absorb l.absorbed.1 (l.fraction.map digitValue)

/-- The power of ten that digits make up for: one up for each that is left out before the point,
one down for each that is taken from behind it. -/
def shift (l : Literal) : Int :=
  l.absorbed.2.length - (l.fraction.length - l.absorbedAll.2.length : Nat)

/-- An integer without point and exponent whose digits fit. -/
def Plain (l : Literal) : Prop := l.fraction = [] ∧ l.exponent = none ∧ l.absorbed.2 = []

theorem absorbed_eq (fits : l.significand < Numeral.bound64) :
    l.absorbed = (natural l.whole, []) := by
  rw [significand, natural_append] at fits
  exact absorb_eq (Nat.lt_of_le_of_lt (le_naturalFrom _ l.fraction) fits)

theorem absorbedAll_eq (fits : l.significand < Numeral.bound64) :
    l.absorbedAll = (l.significand, []) := by
  rw [absorbedAll, absorbed_eq fits]
  rw [significand, natural_append] at fits ⊢
  exact absorb_eq fits

theorem shift_eq (fits : l.significand < Numeral.bound64) : l.shift = -l.fraction.length := by
  rw [shift, absorbed_eq fits, absorbedAll_eq fits]
  simp

end Literal

/-- What becomes of a number: an integer whose digits fit is kept, any other number is scaled. -/
inductive Becomes (l : Literal) : Number → Prop
  | plain (plain : l.Plain) : Becomes l (integerNumber l.negative l.absorbed.1)
  | scaled {n : Number} (noPlain : ¬l.Plain)
      (scaled : Scaled l.negative l.absorbedAll.1 l.shift l.exponent n) : Becomes l n

/-- What becomes of a number is determined. -/
theorem Becomes.unique {l : Literal} {m : Number} (h : Becomes l m) (h' : Becomes l n) : m = n := by
  cases h with
  | plain plain =>
    cases h' with
    | plain => rfl
    | scaled noPlain => exact absurd plain noPlain
  | scaled noPlain scaled =>
    cases h' with
    | plain plain => exact absurd plain noPlain
    | scaled _ scaled' => exact scaled.unique scaled'

theorem exponentAt_none_iff : ExponentAt t none t ↔ ¬exponentFollows t = true := by
  have follows : exponentFollows t = true ↔ t.head? = some 0x65 ∨ t.head? = some 0x45 := by
    cases t <;> simp [exponentFollows]
  rw [follows, not_or]
  constructor
  · intro h
    cases h with
    | none noMark => exact noMark
  · exact .none

theorem becomes_of_readTail {whole : Bytes} {h : t.length < s.length}
    (read : (readTail negative (absorb 0 (whole.map digitValue)).1
      (absorb 0 (whole.map digitValue)).2 s t h).view = .ok (n, u)) :
    ∃ ds v e, FractionAt t ds v ∧ ExponentAt v e u ∧ Becomes ⟨negative, whole, ds, e⟩ n := by
  rw [readTail.eq_def] at read
  split at read
  next r h =>
    rw [Outcome.view_within] at read
    obtain ⟨ds, v, e, digits, power, scaled⟩ := scaled_of_readFraction read
    exact ⟨ds, v, e, .digits digits, power, .scaled (fun plain => digits.nonempty plain.1) scaled⟩
  next noPoint =>
    have point : FractionAt t [] t := by
      refine .none fun front => ?_
      obtain ⟨r, rfl⟩ := List.head?_eq_some_iff.mp front
      exact noPoint r h rfl HEq.rfl
    split at read
    next ends =>
      obtain ⟨rfl, rfl⟩ :
          integerNumber negative (absorb 0 (whole.map digitValue)).1 = n ∧ t = u := by
        simpa using read
      exact ⟨[], t, none, point, exponentAt_none_iff.mpr ends.2, .plain ⟨rfl, rfl, ends.1⟩⟩
    next goesOn =>
      obtain ⟨e, power, scaled⟩ := scaled_of_readScale read
      refine ⟨[], t, e, point, power, .scaled ?_ ?_⟩
      · rintro ⟨-, noExponent, all⟩
        obtain rfl : e = none := noExponent
        have ends : ¬exponentFollows t = true := by
          cases power with
          | none noMark => exact exponentAt_none_iff.mp (.none noMark)
        exact goesOn ⟨all, ends⟩
      · simpa [Literal.shift, Literal.absorbed, Literal.absorbedAll, absorb] using scaled

theorem becomes_of_readMagnitude (read : (readMagnitude negative s).view = .ok (n, t)) :
    ∃ l, MagnitudeAt negative s l t ∧ Becomes l n := by
  rw [readMagnitude.eq_def] at read
  split at read
  next => cases read
  next b r =>
    split at read
    next => cases read
    next digit =>
      rw [not_not] at digit
      split at read
      next => cases read
      next noZeros =>
        have digits := digitsAt_cons digit r
        have noZero := (noZero_iff digit r).mpr noZeros
        generalize (b :: r).takeWhile isDigit = whole at digits noZero read
        obtain ⟨ds, v, e, point, power, becomes⟩ := becomes_of_readTail read
        exact ⟨_, .of digits noZero point power, becomes⟩

/-- A number that is read is one of the grammar. -/
theorem becomes_of_readNumber (read : (readNumber s).view = .ok (n, t)) :
    ∃ l, NumberAt s l t ∧ Becomes l n := by
  rw [readNumber.eq_def] at read
  split at read
  next r =>
    rw [Outcome.view_behind] at read
    obtain ⟨l, magnitude, becomes⟩ := becomes_of_readMagnitude read
    exact ⟨l, .minus magnitude, becomes⟩
  next =>
    obtain ⟨l, magnitude, becomes⟩ := becomes_of_readMagnitude read
    exact ⟨l, .plain magnitude, becomes⟩

end ObserverRelay.Json
