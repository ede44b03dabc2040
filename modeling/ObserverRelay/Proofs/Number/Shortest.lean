import ObserverRelay.Proofs.Number.Rounding
import Mathlib.Algebra.Order.Field.Power
/-!
# The fewest digits give a short decimal back

Two decimals of at most fifteen digits that are rounded to one number are the same: both lie so
close to the number that the grid of their digits has no room for two. A decimal of up to fifteen
digits is therefore found again among the first fifteen grids.

## Main statements

* `eq_of_mem_interval`: short decimals are told apart by the numbers they are rounded to.
* `value_shortest`: a short decimal is the shortest one of the number it is rounded to.
-/
namespace ObserverRelay

/-- The number that a decimal names. -/
def Decimal.value (d : Decimal) : ℚ := d.digits * 10 ^ d.exponent

/-- A decimal on a finer grid. -/
theorem Decimal.value_eq_on_grid (d : Decimal) {e : Int} (le : e ≤ d.exponent) :
    d.value = (d.digits * 10 ^ (d.exponent - e).toNat : Nat) * 10 ^ e := by
  have power : (10 : ℚ) ^ d.exponent = 10 ^ (d.exponent - e).toNat * 10 ^ e := by
    rw [← zpow_natCast, ← zpow_add₀ (by norm_num)]
    congr 1
    omega
  rw [Decimal.value, power]
  push_cast
  ring

namespace Binary64

variable {x : Binary64} {d : Decimal} {e lead : Int}

/-! ## Grids -/

/-- What multiplies by ten to a power, the numerator of the power. -/
def up (e : Int) : Nat := if 0 ≤ e then tenTo e.toNat else 1

/-- What divides by ten to a negative power, the denominator of the power. -/
def down (e : Int) : Nat := if 0 ≤ e then 1 else tenTo (-e).toNat

theorem tenTo_eq (k : Nat) : tenTo k = 10 ^ k := rfl

theorem down_pos (e : Int) : 0 < down e := by
  rw [down]
  split
  · exact Nat.one_pos
  · exact Nat.pow_pos (by decide)

theorem up_pos (e : Int) : 0 < up e := by
  rw [up]
  split
  · exact Nat.pow_pos (by decide)
  · exact Nat.one_pos

@[simp] theorem up_natCast (k : Nat) : up k = 10 ^ k := by
  simp [up, tenTo_eq]

@[simp] theorem down_natCast (k : Nat) : down k = 1 := by
  simp [down]

@[simp] theorem up_neg (k : Nat) : up (-k) = 1 := by
  cases k with
  | zero => rfl
  | succ k => rw [up, if_neg (by omega)]

@[simp] theorem down_neg (k : Nat) : down (-k) = 10 ^ k := by
  cases k with
  | zero => rfl
  | succ k => rw [down, if_neg (by omega), neg_neg, Int.toNat_natCast, tenTo_eq]

theorem ten_zpow_eq (e : Int) : (10 ^ e : ℚ) = up e / down e := by
  obtain ⟨k, rfl | rfl⟩ := Int.eq_nat_or_neg e
  · simp
  · simp

/-- A decimal rounds to a number when it lies in its interval. -/
theorem roundsTo_iff (nonzero : 0 < x.significand) : x.roundsTo d = true ↔ d.value ∈ x.interval := by
  have down_pos' : (0 : ℚ) < down d.exponent := by exact_mod_cast down_pos d.exponent
  have unit := cast_unitsPerOne_pos
  have quarters : x.below ≤ x.significand * 4 := by
    rw [below]
    split <;> omega
  have low : (x.significand - x.below / 4) * x.spacing =
      ((x.significand * 4 - x.below) <<< x.scale : Nat) / (4 * unitsPerOne) := by
    rw [spacing, Nat.shiftLeft_eq]
    push_cast [Nat.cast_sub quarters]
    field_simp
  have high : (x.significand + 1 / 2) * x.spacing =
      ((x.significand * 4 + 2) <<< x.scale : Nat) / (4 * unitsPerOne) := by
    rw [spacing, Nat.shiftLeft_eq]
    push_cast
    field_simp
    ring
  have point (n : Nat) : (n / (4 * unitsPerOne) ≤ d.value ↔
      n * down d.exponent ≤ d.digits * up d.exponent * (4 * unitsPerOne)) ∧
      (d.value ≤ n / (4 * unitsPerOne) ↔
        d.digits * up d.exponent * (4 * unitsPerOne) ≤ n * down d.exponent) := by
    rw [Decimal.value, ten_zpow_eq, ← mul_div_assoc, div_le_div_iff₀ (by linarith) down_pos',
      div_le_div_iff₀ down_pos' (by linarith)]
    constructor <;> exact_mod_cast Iff.rfl
  rw [interval, low, high, between, roundsTo, quarterBounds]
  simp only [← up.eq_1, ← down.eq_1, ← below.eq_1]
  split
  · rw [Bool.and_eq_true, decide_eq_true_iff, decide_eq_true_iff, Set.mem_Icc, (point _).1,
      (point _).2]
  · rw [Bool.and_eq_true, decide_eq_true_iff, decide_eq_true_iff, Set.mem_Ioo, ← not_le, ← not_le,
      ← not_le, ← not_le, (point _).1, (point _).2]

/-- Between its neighbours on a grid lies the number. -/
theorem exists_neighbours (x : Binary64) (e : Int) :
    ∃ k : Nat, k * 10 ^ e ≤ x.magnitude ∧ x.magnitude < (k + 1) * 10 ^ e ∧
      ∀ d, d ∈ neighbours x e ↔ d = ⟨k, e⟩ ∨ d = ⟨k + 1, e⟩ := by
  have down_pos' : (0 : ℚ) < down e := by exact_mod_cast down_pos e
  have unit := cast_unitsPerOne_pos
  have den_pos : 0 < unitsPerOne * up e := Nat.mul_pos unitsPerOne_pos (up_pos e)
  refine ⟨x.units * down e / (unitsPerOne * up e), ?_, ?_, fun d => ?_⟩
  · rw [ten_zpow_eq, magnitude, ← mul_div_assoc, div_le_div_iff₀ down_pos' unit]
    have floor := Nat.div_mul_le_self (x.units * down e) (unitsPerOne * up e)
    rw [mul_assoc, mul_comm (up e : ℚ)]
    exact_mod_cast floor
  · rw [ten_zpow_eq, magnitude, ← mul_div_assoc, div_lt_div_iff₀ unit down_pos']
    have floor := Nat.lt_mul_div_succ (x.units * down e) den_pos
    rw [mul_assoc, mul_comm (up e : ℚ), mul_comm (_ + 1 : ℚ)]
    exact_mod_cast floor
  · rw [neighbours]
    simp only [← up.eq_1, ← down.eq_1]
    split <;> simp [or_comm]

/-! ## The leading digit -/

theorem digitCount_pos (n : Nat) : 0 < digitCount n := Nat.length_toDigits_pos

theorem lt_ten_pow_iff {n k : Nat} (pos : 0 < k) : n < 10 ^ k ↔ digitCount n ≤ k :=
  (Nat.length_toDigits_le_iff (by decide) pos).symm

theorem lt_ten_pow_digitCount (n : Nat) : n < 10 ^ digitCount n :=
  (lt_ten_pow_iff (digitCount_pos n)).mpr (Nat.le_refl _)

theorem ten_pow_le {n k : Nat} (pos : 0 < n) (few : k < digitCount n) : 10 ^ k ≤ n := by
  cases k with
  | zero => simpa using Nat.succ_le_of_lt pos
  | succ k =>
    have many := (lt_ten_pow_iff (n := n) (Nat.succ_pos k)).not.mpr (Nat.not_le_of_lt few)
    exact Nat.le_of_not_lt many

theorem ten_zpow_le_magnitude_iff (x : Binary64) (e : Int) :
    10 ^ e ≤ x.magnitude ↔ up e * unitsPerOne ≤ x.units * down e := by
  have down_pos' : (0 : ℚ) < down e := by exact_mod_cast down_pos e
  rw [ten_zpow_eq, magnitude, div_le_div_iff₀ down_pos' cast_unitsPerOne_pos]
  exact_mod_cast Iff.rfl

theorem le_magnitude_iff_whole (x : Binary64) (k : Nat) :
    (10 ^ (k : Int) : ℚ) ≤ x.magnitude ↔ 10 ^ k * unitsPerOne ≤ x.units := by
  rw [ten_zpow_le_magnitude_iff, up_natCast, down_natCast, Nat.mul_one]

theorem le_magnitude_iff_part (x : Binary64) (k : Nat) :
    (10 ^ (-k : Int) : ℚ) ≤ x.magnitude ↔ unitsPerOne ≤ x.units * 10 ^ k := by
  rw [ten_zpow_le_magnitude_iff, up_neg, down_neg, Nat.one_mul]

/-- The leading digit of a number stands at its leading exponent. -/
theorem leadingExponent_bounds (nonzero : 0 < x.units) :
    (10 ^ x.leadingExponent : ℚ) ≤ x.magnitude ∧ x.magnitude < 10 ^ (x.leadingExponent + 1) := by
  rw [leadingExponent, ← not_le]
  split
  next whole =>
    have one : 0 < x.units / unitsPerOne := Nat.div_pos whole unitsPerOne_pos
    obtain ⟨k, count⟩ := Nat.exists_eq_add_one.mpr (digitCount_pos (x.units / unitsPerOne))
    have low : 10 ^ k ≤ x.units / unitsPerOne := ten_pow_le one (by omega)
    have high := lt_ten_pow_digitCount (x.units / unitsPerOne)
    rw [count] at high ⊢
    have lead : ((k + 1 : Nat) : Int) - 1 = k := by omega
    have next : (k : Int) + 1 = (k + 1 : Nat) := by omega
    rw [lead, next, le_magnitude_iff_whole, le_magnitude_iff_whole, Nat.not_le]
    exact ⟨(Nat.le_div_iff_mul_le unitsPerOne_pos).mp low,
      (Nat.div_lt_iff_lt_mul unitsPerOne_pos).mp high⟩
  next part =>
    -- The inverse is rounded up, so that it may have a digit more than it should.
    have least : 2 ≤ (unitsPerOne + x.units - 1) / x.units := by
      rw [Nat.le_div_iff_mul_le nonzero]
      omega
    have above : unitsPerOne ≤ x.units * ((unitsPerOne + x.units - 1) / x.units) := by
      have := Nat.lt_mul_div_succ (unitsPerOne + x.units - 1) nonzero
      rw [Nat.mul_add_one] at this
      omega
    have under : x.units * ((unitsPerOne + x.units - 1) / x.units - 1) < unitsPerOne := by
      have := Nat.mul_div_le (unitsPerOne + x.units - 1) x.units
      rw [Nat.mul_sub_one]
      omega
    generalize (unitsPerOne + x.units - 1) / x.units = inverse at least above under
    obtain ⟨k, count⟩ := Nat.exists_eq_add_one.mpr (digitCount_pos inverse)
    have low : 10 ^ k ≤ inverse := ten_pow_le (by omega) (by omega)
    have high := lt_ten_pow_digitCount inverse
    rw [count] at high
    simp only [count, Nat.add_sub_cancel]
    split
    next fits =>
      cases k with
      | zero =>
        rw [tenTo_eq, Nat.pow_zero, Nat.mul_one] at fits
        exact absurd fits part
      | succ k =>
        have lead : -(((k + 1 + 1 : Nat) : Int) - 1) = -((k + 1 : Nat) : Int) := by omega
        have next : -((k + 1 : Nat) : Int) + 1 = -(k : Int) := by omega
        rw [lead, next, le_magnitude_iff_part, le_magnitude_iff_part, Nat.not_le]
        refine ⟨fits, Nat.lt_of_le_of_lt (Nat.mul_le_mul_left _ ?_) under⟩
        have power : 0 < 10 ^ k := Nat.pow_pos (by decide)
        rw [Nat.pow_succ] at low
        omega
    next within =>
      have next : -((k + 1 : Nat) : Int) + 1 = -(k : Int) := by omega
      rw [next, le_magnitude_iff_part, le_magnitude_iff_part]
      exact ⟨Nat.le_trans above (Nat.mul_le_mul_left _ high.le), within⟩

/-! ## The first decimal that rounds -/

/-- A point of a grid that rounds to the number has a neighbour on the grid that does. -/
theorem exists_neighbour_roundsTo (nonzero : 0 < x.significand) {n : Nat}
    (rounds : (n * 10 ^ e : ℚ) ∈ x.interval) : ∃ d ∈ neighbours x e, x.roundsTo d = true := by
  obtain ⟨k, above, under, mem⟩ := exists_neighbours x e
  have grid : (0 : ℚ) < 10 ^ e := by positivity
  by_cases le : n ≤ k
  · refine ⟨⟨k, e⟩, (mem _).mpr (.inl rfl), (roundsTo_iff nonzero).mpr ?_⟩
    refine (ordConnected_interval x).out rounds (magnitude_mem_interval x) ⟨?_, above⟩
    rw [Decimal.value]
    gcongr
  · refine ⟨⟨k + 1, e⟩, (mem _).mpr (.inr rfl), (roundsTo_iff nonzero).mpr ?_⟩
    refine (ordConnected_interval x).out (magnitude_mem_interval x) rounds ⟨?_, ?_⟩
    · rw [Decimal.value]
      push_cast
      exact under.le
    · rw [Decimal.value]
      gcongr
      exact Nat.lt_of_not_le le

/-- The search ends on one of its grids. -/
theorem firstHit_mem (x : Binary64) (lead : Int) (grids digits : Nat) :
    ∃ j : Nat, firstHit x lead grids digits ∈ neighbours x (lead - j) := by
  induction grids generalizing digits with
  | zero =>
    refine ⟨digits, ?_⟩
    obtain ⟨k, -, -, mem⟩ := exists_neighbours x (lead - digits)
    obtain ⟨d, ds, front⟩ := List.exists_cons_of_ne_nil (List.ne_nil_of_mem ((mem _).mpr (.inl rfl)))
    rw [firstHit, front]
    exact List.mem_cons_self
  | succ grids ih =>
    rw [firstHit]
    split
    next d found => exact ⟨digits, List.mem_of_find?_eq_some found⟩
    next => exact ih (digits + 1)

/-- The search ends at the first grid where a neighbour rounds to the number. -/
theorem firstHit_roundsTo {grids digits k : Nat} (start : digits ≤ k) (stop : k < digits + grids)
    (hit : ∃ d ∈ neighbours x (lead - k), x.roundsTo d = true) :
    ∃ j : Nat, j ≤ k ∧ firstHit x lead grids digits ∈ neighbours x (lead - j) ∧
      x.roundsTo (firstHit x lead grids digits) = true := by
  induction grids generalizing digits with
  | zero => omega
  | succ grids ih =>
    rw [firstHit]
    split
    next d found =>
      exact ⟨digits, start, List.mem_of_find?_eq_some found, List.find?_some found⟩
    next none =>
      have later : digits ≠ k := by
        rintro rfl
        obtain ⟨d, neighbour, rounds⟩ := hit
        exact List.find?_eq_none.mp none d neighbour rounds
      exact ih (by omega) (by omega)

/-- A neighbour on a grid of some digits has no more digits, or is the power of ten behind. -/
theorem digits_le_of_mem_neighbours (nonzero : 0 < x.units) {j : Nat}
    (neighbour : d ∈ neighbours x (x.leadingExponent - j)) :
    0 < d.digits ∧ d.digits ≤ 10 ^ (j + 1) := by
  obtain ⟨least, greatest⟩ := leadingExponent_bounds nonzero
  obtain ⟨k, above, under, mem⟩ := exists_neighbours x (x.leadingExponent - j)
  have grid : (0 : ℚ) < 10 ^ (x.leadingExponent - j) := by positivity
  have first : 0 < k := by
    have : (10 : ℚ) ^ (x.leadingExponent - j) ≤ 10 ^ x.leadingExponent :=
      zpow_le_zpow_right₀ (by norm_num) (by omega)
    have : 1 * (10 : ℚ) ^ (x.leadingExponent - j) < (k + 1) * 10 ^ (x.leadingExponent - j) := by
      linarith
    have := lt_of_mul_lt_mul_right this grid.le
    have : (1 : ℚ) < (k + 1 : Nat) := by exact_mod_cast this
    have := Nat.one_lt_cast.mp this
    omega
  have last : k < 10 ^ (j + 1) := by
    have split : (10 : ℚ) ^ (x.leadingExponent + 1) =
        10 ^ (j + 1) * 10 ^ (x.leadingExponent - j) := by
      rw [← zpow_natCast, ← zpow_add₀ (by norm_num)]
      congr 1
      push_cast
      ring
    rw [split] at greatest
    have := lt_of_mul_lt_mul_right (lt_of_le_of_lt above greatest) grid.le
    exact_mod_cast this
  rcases (mem d).mp neighbour with rfl | rfl
  · exact ⟨first, last.le⟩
  · exact ⟨Nat.succ_pos k, last⟩

/-- The shortest decimal of a number other than zero has a digit other than zero. -/
theorem digits_shortest_pos (nonzero : 0 < x.units) : 0 < x.shortest.digits := by
  obtain ⟨j, neighbour⟩ := firstHit_mem x x.leadingExponent 17 0
  exact (digits_le_of_mem_neighbours nonzero neighbour).1

/-- The sign does not count. -/
@[simp] theorem shortest_negate (x : Binary64) : x.negate.shortest = x.shortest := by
  have search (lead : Int) (grids digits : Nat) :
      firstHit x.negate lead grids digits = firstHit x lead grids digits := by
    have same : neighbours x.negate = neighbours x := rfl
    have rounds : roundsTo x.negate = roundsTo x := rfl
    induction grids generalizing digits with
    | zero => rw [firstHit, firstHit, same]
    | succ grids ih => rw [firstHit, firstHit, same, rounds, ih]
  have lead : x.negate.leadingExponent = x.leadingExponent := rfl
  rw [shortest, shortest, lead, search]

/-! ## Short decimals -/

theorem Normal.pos (normal : x.Normal) : 0 < x.significand :=
  Nat.lt_of_lt_of_le (by decide) normal.low

theorem Normal.units_pos (normal : x.Normal) : 0 < x.units := by
  rw [units_eq]
  exact Nat.mul_pos normal.pos (Nat.two_pow_pos x.scale)

/-- With all digits the steps are small beside the number. -/
theorem Normal.spacing_le (normal : x.Normal) : 2 ^ 52 * x.spacing ≤ x.magnitude := by
  rw [magnitude_eq]
  have low : (2 ^ 52 : ℚ) ≤ x.significand := by exact_mod_cast normal.low
  exact mul_le_mul_of_nonneg_right low x.spacing_pos.le

/-- Two short decimals that are rounded to one number are the same, given on a common grid. -/
theorem eq_of_mem_interval_grid (normal : x.Normal) {m n : Nat} (few : m ≤ 10 ^ 15)
    (first : (m * 10 ^ e : ℚ) ∈ x.interval) (second : (n * 10 ^ e : ℚ) ∈ x.interval) : m = n := by
  have grid : (0 : ℚ) < 10 ^ e := by positivity
  have near := abs_le.mp (abs_sub_le_of_mem_interval first)
  have near' := abs_le.mp (abs_sub_le_of_mem_interval second)
  have step := normal.spacing_le
  have positive := x.spacing_pos
  have few' : (m * 10 ^ e : ℚ) ≤ 10 ^ 15 * 10 ^ e := by
    gcongr
    exact_mod_cast few
  -- A step is less than the grid is wide, for the number has more digits than the decimals.
  have fine : x.spacing < 10 ^ e := by
    by_contra coarse
    rw [not_lt] at coarse
    linarith
  have close : |(m - n : ℚ)| < 1 := by
    have distance : |(m - n : ℚ) * 10 ^ e| < 1 * 10 ^ e := by
      rw [abs_lt]
      constructor <;> linarith
    rw [abs_mul, abs_of_pos grid] at distance
    exact lt_of_mul_lt_mul_right distance grid.le
  have close' : |(m - n : Int)| < 1 := by exact_mod_cast close
  rw [Int.abs_lt_one_iff] at close'
  omega

/-- Two decimals of at most fifteen digits that are rounded to one number are the same. -/
theorem eq_of_mem_interval (normal : x.Normal) {c d : Decimal} (few : c.digits ≤ 10 ^ 15)
    (few' : d.digits ≤ 10 ^ 15) (first : c.value ∈ x.interval) (second : d.value ∈ x.interval) :
    c.value = d.value := by
  rcases Int.le_total c.exponent d.exponent with le | le
  · rw [d.value_eq_on_grid le] at second ⊢
    rw [Decimal.value, ← eq_of_mem_interval_grid normal few first second]
  · rw [c.value_eq_on_grid le] at first ⊢
    rw [Decimal.value, ← eq_of_mem_interval_grid normal few' second first]

/-- A decimal of at most fifteen digits stands on the grid of the first fifteen digits of the number
it is rounded to: else it lies below the power of ten that the number reaches, and that power is
one more short decimal of the number. -/
theorem le_exponent_of_mem_interval (normal : x.Normal) (few : d.digits < 10 ^ 15)
    (rounds : d.value ∈ x.interval) : x.leadingExponent - (14 : Nat) ≤ d.exponent := by
  obtain ⟨least, -⟩ := leadingExponent_bounds normal.units_pos
  by_contra small
  have power : (10 : ℚ) ^ d.exponent ≤ 10 ^ (x.leadingExponent - 15) :=
    zpow_le_zpow_right₀ (by norm_num) (by omega)
  have few' : (d.digits : ℚ) < 10 ^ 15 := by exact_mod_cast few
  have under : d.value < 10 ^ x.leadingExponent :=
    calc d.value
      _ ≤ d.digits * 10 ^ (x.leadingExponent - 15) := by
        rw [Decimal.value]
        gcongr
      _ < 10 ^ 15 * 10 ^ (x.leadingExponent - 15) := by gcongr
      _ = 10 ^ x.leadingExponent := by
        rw [← zpow_natCast, ← zpow_add₀ (by norm_num)]
        congr 1
        omega
  have reached : (⟨1, x.leadingExponent⟩ : Decimal).value ∈ x.interval := by
    rw [Decimal.value, Nat.cast_one, one_mul]
    exact (ordConnected_interval x).out rounds (magnitude_mem_interval x) ⟨under.le, least⟩
  have same := eq_of_mem_interval normal few.le (by norm_num) rounds reached
  rw [same, Decimal.value, Nat.cast_one, one_mul] at under
  exact lt_irrefl _ under

/-- A decimal of at most fifteen digits is the shortest one of the number it is rounded to. -/
theorem value_shortest (normal : x.Normal) (few : d.digits < 10 ^ 15)
    (rounds : d.value ∈ x.interval) : x.shortest.value = d.value := by
  have fits := le_exponent_of_mem_interval normal few rounds
  have hit : ∃ c ∈ neighbours x (x.leadingExponent - (14 : Nat)), x.roundsTo c = true := by
    have onGrid := rounds
    rw [d.value_eq_on_grid fits] at onGrid
    exact exists_neighbour_roundsTo normal.pos onGrid
  obtain ⟨j, le, neighbour, found⟩ := firstHit_roundsTo (Nat.zero_le 14)
    (show 14 < 0 + 17 by decide) hit
  have short : x.shortest.digits ≤ 10 ^ 15 := by
    refine Nat.le_trans (digits_le_of_mem_neighbours normal.units_pos neighbour).2 ?_
    exact Nat.pow_le_pow_right (by decide) (by omega)
  exact eq_of_mem_interval normal short few.le ((roundsTo_iff normal.pos).mp found) rounds

end Binary64

/-! ## Trailing zeros -/

namespace Decimal

variable {d : Decimal}

theorem value_trimZeros (fuel : Nat) (d : Decimal) : (d.trimZeros fuel).value = d.value := by
  induction fuel generalizing d with
  | zero => rfl
  | succ fuel ih =>
    rw [trimZeros]
    split
    next round =>
      have tenfold : (d.digits : ℚ) = (d.digits / 10 : Nat) * 10 := by
        have := Nat.div_add_mod d.digits 10
        exact_mod_cast (by omega : d.digits = d.digits / 10 * 10)
      rw [ih, value, value, tenfold, zpow_add_one₀ (by norm_num)]
      ring
    next => rfl

theorem digits_trimZeros_pos (fuel : Nat) {d : Decimal} (nonzero : 0 < d.digits) :
    0 < (d.trimZeros fuel).digits := by
  induction fuel generalizing d with
  | zero => exact nonzero
  | succ fuel ih =>
    rw [trimZeros]
    split
    next round =>
      refine ih ?_
      have := Nat.div_add_mod d.digits 10
      change 0 < d.digits / 10
      omega
    next => exact nonzero

end Decimal

end ObserverRelay
