import ObserverRelay.Proofs.Json.Figures
/-!
# Which numbers keep their value

An integer of 64 bits is kept as it is. Any other number becomes a binary number, of which the
shortest decimal is written. If it has at most fifteen digits and a power of ten that is a binary
number itself, then it is rounded once only, and the shortest decimal is the number again.

## Main statements

* `written_eq_value`: what becomes of such a number is written with its value.
* `exists_written_alike`: what a document becomes is written as a document that is alike.
-/
namespace ObserverRelay.Json

open Binary64

variable {significand k : Nat} {exponent : Int} {x : Binary64}

/-! ## Numbers that are binary numbers -/

/-- Natural numbers of 53 binary digits, and zeros behind them, are binary numbers. -/
theorem ofNat_exact {c j : Nat} (small : c < 2 ^ 53) (fits : j + unitPower ≤ maxScale) :
    (Binary64.ofNat (c * 2 ^ j)).negative = false ∧
      (Binary64.ofNat (c * 2 ^ j)).units = c * 2 ^ j * unitsPerOne := by
  have units : c * 2 ^ j * unitsPerOne = c * 2 ^ (j + unitPower) * 1 := by
    rw [unitsPerOne_eq, Nat.pow_add]
    ring
  obtain ⟨x, rounded, sign, exact⟩ := ofRatio?_exact false Nat.one_pos small fits units
  rw [Binary64.ofNat, rounded, Option.getD_some, exact, units, Nat.mul_one]
  exact ⟨sign, rfl⟩

/-- Powers of ten up to this one are binary numbers. -/
def exactPower : Nat := 22

theorem powerOfTen_exact (small : k ≤ exactPower) : (powerOfTen k).negative = false ∧
    (powerOfTen k).units = 10 ^ k * unitsPerOne := by
  have fives : 5 ^ k < 2 ^ 53 :=
    Nat.lt_of_le_of_lt (Nat.pow_le_pow_right (by decide) small) (by decide)
  have fits : k + unitPower ≤ maxScale := by
    have : exactPower + unitPower ≤ maxScale := by decide
    omega
  have power : tenTo k = 5 ^ k * 2 ^ k := by
    rw [tenTo_eq, ← Nat.mul_pow]
  rw [powerOfTen, power, ← tenTo_eq, power]
  exact ofNat_exact fives fits

theorem ofNat_significand (small : significand < 2 ^ 53) :
    (Binary64.ofNat significand).negative = false ∧
      (Binary64.ofNat significand).units = significand * unitsPerOne := by
  have exact := ofNat_exact (j := 0) small (by decide)
  rwa [Nat.pow_zero, Nat.mul_one] at exact

/-- A significand is multiplied with a power of ten by one rounding. -/
theorem scaled?_natCast (small : significand < 2 ^ 53) (fits : k ≤ exactPower) :
    scaled? significand k =
      ofRatio? false (significand * unitsPerOne * (10 ^ k * unitsPerOne))
        (unitsPerOne * unitsPerOne) := by
  have whole := ofNat_significand small
  have power := powerOfTen_exact fits
  have within : (k : Int) ≤ decadeLimit := by
    have : exactPower ≤ decadeLimit := by decide
    omega
  rw [scaled?, if_neg (by omega), if_pos within, Int.toNat_natCast, mul?, whole.1, whole.2, power.1,
    power.2, bne_self_eq_false]

/-- A significand is divided by a power of ten by one rounding. -/
theorem scaled?_neg (small : significand < 2 ^ 53) (fits : k + 1 ≤ exactPower) :
    scaled? significand (-(k + 1 : Nat)) =
      ofRatio? false (significand * unitsPerOne) (10 ^ (k + 1) * unitsPerOne) := by
  have whole := ofNat_significand small
  have power := powerOfTen_exact fits
  have noSteps : (k + 1 - 1) / decadeLimit = 0 := by
    have : exactPower < decadeLimit := by decide
    exact Nat.div_eq_of_lt (by omega)
  rw [scaled?, if_pos (by omega), Int.natAbs_neg, Int.natAbs_natCast, divPowerOfTen, noSteps,
    divDecades, Option.bind_some, Nat.zero_mul, Nat.sub_zero, div?, whole.1, whole.2, power.1,
    power.2, bne_self_eq_false]

/-- No power of ten that is a binary number takes a significand to where digits are lost. -/
theorem le_unitsPerOne : 2 ^ 52 * 10 ^ exactPower ≤ unitsPerOne := by
  have power : 2 ^ 52 * 10 ^ exactPower ≤ 2 ^ 126 := by decide
  rw [unitsPerOne_eq]
  exact Nat.le_trans power (Nat.pow_le_pow_right (by decide) (by decide))

/-- With a significand and a power of ten that are binary numbers, there is one rounding. -/
theorem scaled?_eq_ofRatio? (small : significand < 2 ^ 53) (fits : exponent.natAbs ≤ exactPower) :
    ∃ num den : Nat, 0 < den ∧ (num / den : ℚ) = significand * 10 ^ exponent ∧
      significand * (2 ^ 52 * den) ≤ num * unitsPerOne ∧
      scaled? significand exponent = ofRatio? false num den := by
  have unit : (unitsPerOne : ℚ) ≠ 0 := cast_unitsPerOne_pos.ne'
  have large := le_unitsPerOne
  obtain ⟨k, rfl⟩ | ⟨k, rfl⟩ : (∃ k : Nat, exponent = k) ∨ ∃ k : Nat, exponent = -(k + 1 : Nat) := by
    cases exponent with
    | ofNat k => exact .inl ⟨k, rfl⟩
    | negSucc k => exact .inr ⟨k, rfl⟩
  · refine ⟨_, _, Nat.mul_pos unitsPerOne_pos unitsPerOne_pos, ?_, ?_,
      scaled?_natCast small (by simpa using fits)⟩
    · push_cast
      field_simp
      rw [zpow_natCast]
    · have one : 1 ≤ 10 ^ k := Nat.pow_pos (by decide)
      have half : 2 ^ 52 ≤ unitsPerOne := Nat.le_trans (by decide) large
      generalize unitsPerOne = u at half ⊢
      calc significand * (2 ^ 52 * (u * u))
        _ ≤ significand * (u * (u * u)) := by gcongr
        _ = significand * u * (1 * u) * u := by ring
        _ ≤ significand * u * (10 ^ k * u) * u := by gcongr
  · have fits' : k + 1 ≤ exactPower := by omega
    refine ⟨_, _, Nat.mul_pos (Nat.pow_pos (by decide)) unitsPerOne_pos, ?_, ?_,
      scaled?_neg small fits'⟩
    · rw [zpow_neg, zpow_natCast]
      push_cast
      field_simp
    · have tens : 10 ^ (k + 1) ≤ 10 ^ exactPower := Nat.pow_le_pow_right (by decide) fits'
      generalize unitsPerOne = u at large ⊢
      calc significand * (2 ^ 52 * (10 ^ (k + 1) * u))
        _ = significand * (2 ^ 52 * 10 ^ (k + 1)) * u := by ring
        _ ≤ significand * (2 ^ 52 * 10 ^ exactPower) * u := by gcongr
        _ ≤ significand * u * u := by gcongr

/-- A number of at most fifteen digits is written with its value. -/
theorem value_shortest_of_scaled? (few : significand < 10 ^ 15)
    (fits : exponent.natAbs ≤ exactPower) (scaled : scaled? significand exponent = some x) :
    x.negative = false ∧
      (if x.isZero then 0 else x.shortest.value) = (significand * 10 ^ exponent : ℚ) := by
  have small : significand < 2 ^ 53 := Nat.lt_of_lt_of_le few (by decide)
  obtain ⟨num, den, pos, ratio, large, rounded⟩ := scaled?_eq_ofRatio? small fits
  rw [rounded] at scaled
  have sign : x.negative = false := by
    obtain ⟨m, -, ⟨-, rfl⟩ | ⟨-, rfl⟩⟩ := ofRatio?_cases scaled <;> rfl
  refine ⟨sign, ?_⟩
  by_cases zero : significand = 0
  · have none : num = 0 := by
      have pos' : (den : ℚ) ≠ 0 := by exact_mod_cast pos.ne'
      rw [zero, Nat.cast_zero, zero_mul, div_eq_zero_iff, or_iff_left pos'] at ratio
      exact_mod_cast ratio
    subst none
    obtain ⟨y, same, -, units⟩ := ofRatio?_exact false pos (Nat.two_pow_pos 53)
      (Nat.zero_le maxScale) (show 0 * unitsPerOne = 0 * 2 ^ 0 * den by simp)
    obtain rfl : y = x := Option.some.inj (same.symm.trans scaled)
    rw [isZero_of_units (by simpa using units), zero]
    simp
  · have nonzero : 1 ≤ significand := Nat.pos_of_ne_zero zero
    have normal : x.Normal := by
      refine normal_of_ofRatio? pos ?_ scaled
      rw [Nat.le_div_iff_mul_le pos]
      refine Nat.le_trans ?_ large
      exact Nat.le_mul_of_pos_left _ nonzero
    have interval := mem_interval_of_ofRatio? pos scaled
    rw [ratio] at interval
    have digits : x.isZero = false := by
      rw [Binary64.isZero, beq_eq_false_iff_ne]
      exact normal.pos.ne'
    rw [digits]
    exact value_shortest (d := ⟨significand, exponent⟩) normal few interval

/-! ## Numbers that keep their value -/

/-- An integer of 64 bits, signed or not; or a number of at most fifteen digits, counted from the
first one that is not zero, and a power of ten that is a binary number. -/
def Literal.Kept (l : Literal) : Prop :=
  l.fraction = [] ∧ l.exponent = none ∧ -(Numeral.signedBound64 : ℚ) ≤ l.value ∧
    l.value < Numeral.bound64 ∨
  l.significand < 10 ^ 15 ∧ l.scale.natAbs ≤ exactPower

/-- An integer of 64 bits is written as it is. -/
theorem written_integerNumber {negative : Bool}
    (low : negative = true → significand ≤ Numeral.signedBound64) :
    (integerNumber negative significand).written = signFactor negative * significand := by
  cases negative with
  | false =>
    rw [signFactor, if_neg (by decide), one_mul]
    rfl
  | true =>
    rw [integerNumber, if_neg (by decide), signFactor, if_pos rfl]
    by_cases zero : significand = 0
    · subst zero
      have units : (Binary64.ofNat 0).units = 0 := by
        simpa using (ofNat_significand (Nat.two_pow_pos 53)).2
      have none : (Binary64.ofNat 0).negate.isZero = true := isZero_of_units units
      rw [if_pos (.inl rfl), Number.written, none]
      simp
    · have inside : ¬(significand = 0 ∨ Numeral.signedBound64 < significand) := by
        have := low rfl
        omega
      rw [if_neg inside, Number.written]
      push_cast
      ring

/-- A binary number is written behind its sign. -/
theorem written_signed (positive : x.negative = false) (negative : Bool) :
    (Number.binary (if negative then x.negate else x)).written =
      signFactor negative * if x.isZero then 0 else x.shortest.value := by
  cases negative with
  | false =>
    simp only [Bool.false_eq_true, if_false]
    rw [Number.written, positive]
  | true =>
    have sign : x.negate.negative = true := by rw [negate, positive]; rfl
    have zero : x.negate.isZero = x.isZero := rfl
    simp only [if_true]
    rw [Number.written, sign, zero, shortest_negate]

theorem Literal.value_of_integer {l : Literal} (noFraction : l.fraction = [])
    (noExponent : l.exponent = none) : l.value = signFactor l.negative * l.significand := by
  have scale : l.scale = 0 := by
    rw [Literal.scale, noFraction, noExponent]
    rfl
  rw [Literal.value_eq, scale, zpow_zero, mul_one]

/-- The digits of an integer that keeps its value are those of an integer of 64 bits. -/
theorem Literal.Kept.bounds {l : Literal} (kept : l.Kept) (noFraction : l.fraction = [])
    (noExponent : l.exponent = none) :
    l.significand < Numeral.bound64 ∧
      (l.negative = true → l.significand ≤ Numeral.signedBound64) := by
  rcases kept with ⟨-, -, low, high⟩ | ⟨few, -⟩
  · rw [Literal.value_of_integer noFraction noExponent] at low high
    cases sign : l.negative with
    | false =>
      rw [sign, signFactor, if_neg (by decide), one_mul] at high
      exact ⟨by exact_mod_cast high, fun h => absurd h (by decide)⟩
    | true =>
      rw [sign, signFactor, if_pos rfl, neg_one_mul, neg_le_neg_iff] at low
      have low' : l.significand ≤ Numeral.signedBound64 := by exact_mod_cast low
      exact ⟨Nat.lt_of_le_of_lt low' (by decide), fun _ => low'⟩
  · exact ⟨Nat.lt_of_lt_of_le few (by decide), fun _ => Nat.le_trans few.le (by decide)⟩

/-- An integer stays one if it fits into 64 bits. -/
theorem written_eq_value_of_integer {l : Literal} {n : Number} (becomes : Becomes l n)
    (noFraction : l.fraction = []) (noExponent : l.exponent = none)
    (fits : l.significand < Numeral.bound64)
    (low : l.negative = true → l.significand ≤ Numeral.signedBound64) : n.written = l.value := by
  have absorbed : l.absorbed = (l.significand, []) := by
    rw [l.absorbed_eq fits, Literal.significand, noFraction, List.append_nil]
  cases becomes with
  | plain =>
    rw [absorbed, Literal.value_of_integer noFraction noExponent]
    exact written_integerNumber low
  | scaled noPlain => exact absurd ⟨noFraction, noExponent, congrArg Prod.snd absorbed⟩ noPlain

/-- A number with a fraction or an exponent becomes a binary number, which its digits and its power
of ten determine. -/
theorem written_eq_value_of_short {l : Literal} {n : Number} (becomes : Becomes l n)
    (noInteger : ¬(l.fraction = [] ∧ l.exponent = none)) (few : l.significand < 10 ^ 15)
    (fits : l.scale.natAbs ≤ exactPower) : n.written = l.value := by
  have few' : l.significand < Numeral.bound64 := Nat.lt_of_lt_of_le few (by decide)
  have scale : -(l.fraction.length : Int) + l.exponent.getD 0 = l.scale := by
    rw [Literal.scale]
    ring
  cases becomes with
  | plain plain => exact absurd ⟨plain.1, plain.2.1⟩ noInteger
  | scaled _ number =>
    rw [l.absorbedAll_eq few', l.shift_eq few'] at number
    rw [Literal.value_eq, mul_assoc]
    cases number with
    | scaled small scaled =>
      rw [scale] at scaled
      obtain ⟨sign, value⟩ := value_shortest_of_scaled? few fits scaled
      rw [written_signed sign, value]
    | vanished given large zero =>
      have none : l.significand = 0 := by
        refine zero.resolve_right fun minus => ?_
        rw [Literal.scale, given, Option.getD_some] at fits
        have : exactPower ≤ 2147483647 := by decide
        omega
      have written : (Number.binary (.zero l.negative)).written = 0 := by
        simp [Number.written, Binary64.zero, Binary64.isZero]
      rw [written, none]
      simp

/-- What becomes of a number that keeps its value is written with that value. -/
theorem written_eq_value {l : Literal} {n : Number} (becomes : Becomes l n) (kept : l.Kept) :
    n.written = l.value := by
  by_cases integer : l.fraction = [] ∧ l.exponent = none
  · obtain ⟨fits, low⟩ := kept.bounds integer.1 integer.2
    exact written_eq_value_of_integer becomes integer.1 integer.2 fits low
  · rcases kept with ⟨noFraction, noExponent, -⟩ | ⟨few, fits⟩
    · exact absurd ⟨noFraction, noExponent⟩ integer
    · exact written_eq_value_of_short becomes integer few fits

/-- A number is spelled another way, with the same value if it is one that keeps its value. -/
def Keeps (l m : Literal) : Prop := l.Kept → m.value = l.value

/-- What a document becomes is written as a document that is alike. -/
theorem exists_written_alike {d : Document String} {v : Value} (means : Means Becomes d v)
    (noRepeats : d.NoRepeats) : ∃ e, d.Alike Keeps e ∧ Spells TextAt (Bytes.ofText v.render) e := by
  have spell (l : Literal) (n : Number) (becomes : Becomes l n) : ∃ m, Keeps l m ∧ Written m n := by
    obtain ⟨m, written, value⟩ := exists_written n
    exact ⟨m, fun kept => value.trans (written_eq_value becomes kept), written⟩
  obtain ⟨e, alike, means⟩ := exists_alike spell means
  exact ⟨e, alike, spells_render means (alike.noRepeats noRepeats)⟩

end ObserverRelay.Json
