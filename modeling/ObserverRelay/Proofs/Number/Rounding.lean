import ObserverRelay.Number.Shortest
import Mathlib.Algebra.Order.Field.Basic
import Mathlib.Data.Rat.Cast.Order
import Mathlib.Order.Interval.Set.OrdConnected
import Mathlib.Tactic.FieldSimp
import Mathlib.Tactic.Linarith
import Mathlib.Tactic.Positivity
import Mathlib.Tactic.Ring
/-!
# Rounding to binary numbers

The number that a ratio is rounded to has the ratio in its interval. A ratio that is a binary
number is not changed at all.

## Main statements

* `mem_interval_of_ofRatio?`: a ratio lies in the interval of the number it is rounded to.
* `ofRatio?_exact`: binary numbers are their own rounding.
-/
namespace ObserverRelay.Binary64

/-! ## Numbers as rationals -/

/-- The magnitude of a number. -/
def magnitude (x : Binary64) : ℚ := x.units / unitsPerOne

/-- The step from a number to the one above it. -/
def spacing (x : Binary64) : ℚ := 2 ^ x.scale / unitsPerOne

/-- One is two to this power, in units. -/
def unitPower : Nat := 1074

theorem unitsPerOne_eq : unitsPerOne = 2 ^ unitPower := Nat.one_shiftLeft unitPower

theorem unitsPerOne_pos : 0 < unitsPerOne := by
  rw [unitsPerOne_eq]
  exact Nat.two_pow_pos unitPower

theorem cast_unitsPerOne_pos : (0 : ℚ) < unitsPerOne := by
  exact_mod_cast unitsPerOne_pos

theorem spacing_pos (x : Binary64) : 0 < x.spacing :=
  div_pos (by positivity) cast_unitsPerOne_pos

theorem units_eq (x : Binary64) : x.units = x.significand * 2 ^ x.scale := by
  rw [units, Nat.shiftLeft_eq]

theorem magnitude_eq (x : Binary64) : x.magnitude = x.significand * x.spacing := by
  rw [magnitude, spacing, units_eq]
  push_cast
  ring

theorem isZero_of_units {x : Binary64} (none : x.units = 0) : x.isZero = true := by
  have power : 2 ^ x.scale ≠ 0 := (Nat.two_pow_pos x.scale).ne'
  rw [units_eq, Nat.mul_eq_zero, or_iff_left power] at none
  rw [isZero, none]
  rfl

/-- A number with all digits of a significand. -/
structure Normal (x : Binary64) : Prop where
  low : 2 ^ 52 ≤ x.significand
  high : x.significand < 2 ^ 53

/-! ## The interval of a number -/

/-- What lies between two ends. The ends belong to it for an even number. -/
def between (m : Nat) (low high : ℚ) : Set ℚ :=
  if m % 2 = 0 then Set.Icc low high else Set.Ioo low high

/-- Twice the part of a step below the number that belongs to its interval: half of it below a
power of two. -/
def below (x : Binary64) : Nat :=
  if x.significand = significandBound / 2 ∧ 0 < x.scale then 1 else 2

/-- What is rounded to a number. -/
def interval (x : Binary64) : Set ℚ :=
  between x.significand ((x.significand - x.below / 4) * x.spacing)
    ((x.significand + 1 / 2) * x.spacing)

theorem mem_between_of_lt {m : Nat} {low high v : ℚ} (above : low < v) (under : v < high) :
    v ∈ between m low high := by
  rw [between]
  split
  · exact ⟨above.le, under.le⟩
  · exact ⟨above, under⟩

theorem mem_between_of_even {m : Nat} {low high v : ℚ} (even : m % 2 = 0) (above : low ≤ v)
    (under : v ≤ high) : v ∈ between m low high := by
  rw [between, if_pos even]
  exact ⟨above, under⟩

theorem mul_mem_between {m : Nat} {low high v c : ℚ} (h : v ∈ between m low high) (pos : 0 < c) :
    v * c ∈ between m (low * c) (high * c) := by
  by_cases even : m % 2 = 0
  · rw [between, if_pos even] at h ⊢
    exact ⟨mul_le_mul_of_nonneg_right h.1 pos.le, mul_le_mul_of_nonneg_right h.2 pos.le⟩
  · rw [between, if_neg even] at h ⊢
    exact ⟨mul_lt_mul_of_pos_right h.1 pos, mul_lt_mul_of_pos_right h.2 pos⟩

theorem bounds_of_mem_between {m : Nat} {low high v : ℚ} (h : v ∈ between m low high) :
    low ≤ v ∧ v ≤ high := by
  rw [between] at h
  split at h
  · exact h
  · exact ⟨h.1.le, h.2.le⟩

/-- With two points all points in between are rounded to a number. -/
theorem ordConnected_interval (x : Binary64) : x.interval.OrdConnected := by
  rw [interval, between]
  split
  · exact Set.ordConnected_Icc
  · exact Set.ordConnected_Ioo

theorem below_le (x : Binary64) : (x.below : ℚ) ≤ 2 := by
  rw [below]
  split <;> norm_num

theorem below_pos (x : Binary64) : (0 : ℚ) < x.below := by
  rw [below]
  split <;> norm_num

theorem magnitude_mem_interval (x : Binary64) : x.magnitude ∈ x.interval := by
  have lower : (x.significand - x.below / 4 : ℚ) < x.significand := by
    have := x.below_pos
    linarith
  have upper : (x.significand : ℚ) < x.significand + 1 / 2 := by linarith
  rw [magnitude_eq, interval]
  exact mul_mem_between (mem_between_of_lt lower upper) x.spacing_pos

/-- What is rounded to a number is no further from it than half a step. -/
theorem abs_sub_le_of_mem_interval {x : Binary64} {v : ℚ} (h : v ∈ x.interval) :
    |v - x.magnitude| ≤ x.spacing / 2 := by
  obtain ⟨above, under⟩ := bounds_of_mem_between h
  have step := x.spacing_pos
  have quarters : (x.below / 4 : ℚ) ≤ 1 / 2 := by
    have := x.below_le
    linarith
  have part : x.below / 4 * x.spacing ≤ 1 / 2 * x.spacing :=
    mul_le_mul_of_nonneg_right quarters step.le
  rw [magnitude_eq, abs_le]
  constructor <;> linarith

/-! ## Rounding -/

/-- A quotient is rounded to a number half of one away at most, and half of one only if that
number is even. -/
theorem div_mem_around (num : Nat) {den : Nat} (pos : 0 < den) :
    (num / den : ℚ) ∈ between (divEven num den) (divEven num den - 1 / 2)
      (divEven num den + 1 / 2) := by
  have pos' : (0 : ℚ) < den := by exact_mod_cast pos
  have parts : (num / den : ℚ) = (num / den : Nat) + (num % den : Nat) / den := by
    have whole : (num : ℚ) = den * (num / den : Nat) + (num % den : Nat) := by
      exact_mod_cast (Nat.div_add_mod num den).symm
    rw [whole]
    field_simp
  have rest : (0 : ℚ) ≤ (num % den : Nat) / den := by positivity
  have rest' : ((num % den : Nat) / den : ℚ) < 1 := by
    rw [div_lt_one pos']
    exact_mod_cast Nat.mod_lt num pos
  rw [parts, divEven]
  split_ifs with under above even
  · have small : ((num % den : Nat) / den : ℚ) < 1 / 2 := by
      rw [div_lt_iff₀ pos']
      have : (2 * (num % den : Nat) : ℚ) < den := by exact_mod_cast under
      linarith
    exact mem_between_of_lt (by linarith) (by linarith)
  · have large : (1 / 2 : ℚ) < (num % den : Nat) / den := by
      rw [lt_div_iff₀ pos']
      have : (den : ℚ) < 2 * (num % den : Nat) := by exact_mod_cast above
      linarith
    push_cast
    exact mem_between_of_lt (by linarith) (by linarith)
  all_goals
    have half : ((num % den : Nat) / den : ℚ) = 1 / 2 := by
      rw [div_eq_iff pos'.ne']
      have : (2 * (num % den : Nat) : ℚ) = den := by
        exact_mod_cast Nat.le_antisymm (not_lt.mp above) (not_lt.mp under)
      linarith
    rw [half]
  · exact mem_between_of_even even (by linarith) le_rfl
  · have odd : (num / den + 1) % 2 = 0 := by omega
    push_cast
    exact mem_between_of_even odd (by linarith) (by linarith)

/-- A whole quotient is not changed. -/
theorem divEven_mul_self (m : Nat) {den : Nat} (pos : 0 < den) : divEven (m * den) den = m := by
  rw [divEven, Nat.mul_div_cancel m pos, Nat.mul_mod_left]
  exact if_pos pos

variable {negative : Bool} {num den : Nat} {x : Binary64}

/-- The scale at which a ratio is rounded: with 53 digits, or fewer at scale zero. -/
def scaleOf (num den : Nat) : Nat := Nat.log2 (num * unitsPerOne / den) + 1 - 53

/-- A ratio in steps of its scale. -/
def steps (num den : Nat) : ℚ := ((num * unitsPerOne : Nat) : ℚ) / (den <<< scaleOf num den : Nat)

/-- A ratio is rounded at its scale, or at the next one if it is rounded up to a power of two. -/
theorem ofRatio?_cases (h : ofRatio? negative num den = some x) :
    ∃ m, m = divEven (num * unitsPerOne) (den <<< scaleOf num den) ∧
      (m ≠ 2 ^ 53 ∧ x = ⟨negative, m, scaleOf num den⟩ ∨
        m = 2 ^ 53 ∧ x = ⟨negative, 2 ^ 52, scaleOf num den + 1⟩) := by
  refine ⟨_, rfl, ?_⟩
  rw [ofRatio?] at h
  simp only [Option.ite_none_right_eq_some, Option.some.injEq] at h
  obtain ⟨-, h⟩ := h
  split at h
  next carry =>
    rw [carry] at h
    exact .inr ⟨carry, h.symm⟩
  next whole => exact .inl ⟨whole, h.symm⟩

theorem shift_pos (pos : 0 < den) (scale : Nat) : 0 < den <<< scale := by
  rw [Nat.shiftLeft_eq]
  exact Nat.mul_pos pos (Nat.two_pow_pos scale)

/-- No ratio has more than 53 digits in steps. -/
theorem steps_lt (num : Nat) (pos : 0 < den) : steps num den < 2 ^ 53 := by
  have quotient : num * unitsPerOne < (num * unitsPerOne / den + 1) * den := by
    rw [Nat.mul_comm (_ + 1)]
    exact Nat.lt_mul_div_succ _ pos
  have digits : num * unitsPerOne / den + 1 ≤ 2 ^ 53 * 2 ^ scaleOf num den := by
    rw [← Nat.pow_add]
    refine Nat.le_trans (Nat.lt_log2_self (n := num * unitsPerOne / den)) ?_
    exact Nat.pow_le_pow_right (by decide) (by rw [scaleOf]; omega)
  have below : num * unitsPerOne < 2 ^ 53 * (den <<< scaleOf num den) := by
    rw [Nat.shiftLeft_eq, Nat.mul_comm den, ← Nat.mul_assoc]
    exact Nat.lt_of_lt_of_le quotient (Nat.mul_le_mul_right den digits)
  rw [steps, div_lt_iff₀ (by exact_mod_cast shift_pos pos _)]
  exact_mod_cast below

/-- A ratio has 53 digits in steps, unless its scale is zero. -/
theorem le_steps (pos : 0 < den)
    (large : 0 < scaleOf num den ∨ 2 ^ 52 ≤ num * unitsPerOne / den) : 2 ^ 52 ≤ steps num den := by
  have digits : 2 ^ 52 * 2 ^ scaleOf num den ≤ num * unitsPerOne / den := by
    by_cases zero : scaleOf num den = 0
    · rw [zero]
      simpa using large.resolve_left (by omega)
    · rw [← Nat.pow_add]
      have log : 52 + scaleOf num den = (num * unitsPerOne / den).log2 := by
        rw [scaleOf] at zero ⊢
        omega
      have nonzero : num * unitsPerOne / den ≠ 0 := by
        intro none
        rw [none] at log
        simp at log
      rw [log]
      exact Nat.log2_self_le nonzero
  have above : 2 ^ 52 * (den <<< scaleOf num den) ≤ num * unitsPerOne := by
    rw [Nat.shiftLeft_eq, Nat.mul_comm den, ← Nat.mul_assoc]
    exact Nat.le_trans (Nat.mul_le_mul_right den digits) (Nat.div_mul_le_self _ den)
  rw [steps, le_div_iff₀ (by exact_mod_cast shift_pos pos _)]
  exact_mod_cast above

/-- The number that a ratio is rounded to has the ratio in its interval. -/
theorem mem_interval_of_ofRatio? (pos : 0 < den) (h : ofRatio? negative num den = some x) :
    (num / den : ℚ) ∈ x.interval := by
  obtain ⟨m, rounded, parts⟩ := ofRatio?_cases h
  have around := div_mem_around (num * unitsPerOne) (shift_pos pos (scaleOf num den))
  rw [← rounded] at around
  change steps num den ∈ _ at around
  have pos' : (0 : ℚ) < den := by exact_mod_cast pos
  have unit : (unitsPerOne : ℚ) ≠ 0 := cast_unitsPerOne_pos.ne'
  have ratio : (num / den : ℚ) = steps num den * (2 ^ scaleOf num den / unitsPerOne) := by
    rw [steps, Nat.shiftLeft_eq]
    push_cast
    field_simp
  have step : (0 : ℚ) < 2 ^ scaleOf num den / unitsPerOne :=
    div_pos (by positivity) cast_unitsPerOne_pos
  rw [ratio]
  rcases parts with ⟨-, rfl⟩ | ⟨carry, rfl⟩
  · refine mul_mem_between ?_ step
    rw [below]
    split
    next power =>
      -- No ratio at this scale lies below the power of two.
      obtain ⟨least, scaled⟩ := power
      have above := le_steps pos (.inl scaled)
      have under := (bounds_of_mem_between around).2
      change m = 2 ^ 52 at least
      subst least
      refine mem_between_of_even (show 2 ^ 52 % 2 = 0 by decide) ?_ under
      push_cast
      linarith
    next =>
      convert around using 2
      norm_num
  · have twice : (2 ^ scaleOf num den / unitsPerOne : ℚ) =
        1 / 2 * (2 ^ (scaleOf num den + 1) / unitsPerOne) := by
      ring
    rw [twice, ← mul_assoc]
    have step' : (0 : ℚ) < 2 ^ (scaleOf num den + 1) / unitsPerOne :=
      div_pos (by positivity) cast_unitsPerOne_pos
    refine mul_mem_between ?_ step'
    subst carry
    have above := (bounds_of_mem_between around).1
    have under := steps_lt num pos
    have quarter : ((below ⟨negative, 2 ^ 52, scaleOf num den + 1⟩ : Nat) : ℚ) = 1 := by
      rw [below, if_pos ⟨show 2 ^ 52 = significandBound / 2 by decide, Nat.succ_pos _⟩]
      norm_num
    rw [quarter]
    push_cast at above ⊢
    exact mem_between_of_even (show 2 ^ 52 % 2 = 0 by decide) (by linarith) (by linarith)

/-- A ratio that is not too small is rounded to a number with all digits. -/
theorem normal_of_ofRatio? (pos : 0 < den) (large : 2 ^ 52 ≤ num * unitsPerOne / den)
    (h : ofRatio? negative num den = some x) : x.Normal := by
  obtain ⟨m, rounded, parts⟩ := ofRatio?_cases h
  have around := div_mem_around (num * unitsPerOne) (shift_pos pos (scaleOf num den))
  rw [← rounded] at around
  obtain ⟨above, under⟩ := bounds_of_mem_between around
  change _ ≤ steps num den at above
  change steps num den ≤ _ at under
  rcases parts with ⟨noCarry, rfl⟩ | ⟨-, rfl⟩
  · have low : ((2 ^ 52 : Nat) : ℚ) < (m + 1 : Nat) := by
      have := le_steps pos (.inr large)
      push_cast
      linarith
    have high : (m : ℚ) < (2 ^ 53 + 1 : Nat) := by
      have := steps_lt num pos
      push_cast
      linarith
    have low' := Nat.cast_lt.mp low
    have high' := Nat.cast_lt.mp high
    exact ⟨by simpa using Nat.le_of_lt_succ low', by
      exact Nat.lt_of_le_of_ne (Nat.le_of_lt_succ high') noCarry⟩
  · exact ⟨Nat.le_refl _, show 2 ^ 52 < 2 ^ 53 by decide⟩

/-- A ratio that is a binary number is not changed. -/
theorem ofRatio?_exact (negative : Bool) {c j : Nat} (pos : 0 < den) (small : c < 2 ^ 53) (fits : j ≤ maxScale)
    (exact : num * unitsPerOne = c * 2 ^ j * den) :
    ∃ x, ofRatio? negative num den = some x ∧ x.negative = negative ∧ x.units = c * 2 ^ j := by
  have quotient : num * unitsPerOne / den = c * 2 ^ j := by
    rw [exact, Nat.mul_div_cancel _ pos]
  have scale_le : scaleOf num den ≤ j := by
    rw [scaleOf, quotient]
    by_cases zero : c * 2 ^ j = 0
    · simp [zero]
    · have log : (c * 2 ^ j).log2 < 53 + j := by
        rw [Nat.log2_lt zero, Nat.pow_add]
        exact Nat.mul_lt_mul_of_pos_right small (Nat.two_pow_pos j)
      omega
  obtain ⟨i, rfl⟩ := Nat.exists_eq_add_of_le scale_le
  have whole : num * unitsPerOne = c * 2 ^ i * (den <<< scaleOf num den) := by
    rw [exact, Nat.shiftLeft_eq, Nat.pow_add]
    ring
  have rounded : divEven (num * unitsPerOne) (den <<< scaleOf num den) = c * 2 ^ i := by
    rw [whole, divEven_mul_self _ (shift_pos pos _)]
  have noCarry : c * 2 ^ i ≠ significandBound := by
    have under := steps_lt num pos
    have pos' : (0 : ℚ) < (den <<< scaleOf num den : Nat) := by exact_mod_cast shift_pos pos _
    rw [steps, whole, Nat.cast_mul, mul_div_assoc, div_self pos'.ne', mul_one] at under
    have under' : c * 2 ^ i < 2 ^ 53 := by exact_mod_cast under
    exact Nat.ne_of_lt under'
  refine ⟨⟨negative, c * 2 ^ i, scaleOf num den⟩, ?_, rfl, ?_⟩
  · have fits' : scaleOf num den ≤ maxScale := Nat.le_trans (Nat.le_add_right _ i) fits
    rw [scaleOf] at rounded fits' ⊢
    simp only [ofRatio?, rounded, if_neg noCarry, if_pos fits']
  · rw [units_eq, Nat.pow_add]
    ring

end ObserverRelay.Binary64
