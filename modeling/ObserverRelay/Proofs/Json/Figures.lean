import ObserverRelay.Proofs.Json.Compact
import ObserverRelay.Proofs.Json.Numbers
import ObserverRelay.Proofs.Number.Shortest
/-!
# How numbers are written

An integer is written by its digits, and a binary number by those of its shortest decimal, around
whose point zeros are filled in or which an exponent follows. All of these are numbers of the
grammar, and they have the value of the integer or of the decimal.

## Main statements

* `shown_write`: every layout of a decimal has the value of the decimal.
* `exists_written`: every number is written as a number of the grammar.
-/
namespace ObserverRelay.Json

open Bytes

variable {s t : Bytes} {cs : List Char}

/-! ## Digits -/

/-- Characters that are digits. -/
def Figures (cs : List Char) : Prop := ∀ c ∈ cs, Numeral.digit? c ≠ none

theorem figures_toDigits (n : Nat) : Figures (Nat.toDigits 10 n) := fun _ mem none =>
  Numeral.not_mem_toDigits none n mem

theorem figures_zeros (k : Nat) : Figures (List.replicate k '0') := by
  intro c mem
  rw [List.eq_of_mem_replicate mem]
  decide

namespace Figures

theorem append {ds : List Char} (h : Figures cs) (h' : Figures ds) : Figures (cs ++ ds) := by
  intro c mem
  rcases List.mem_append.mp mem with mem | mem
  · exact h c mem
  · exact h' c mem

theorem ofChars_eq (h : Figures cs) : ofChars cs = cs.map Char.toUInt8 := by
  induction cs with
  | nil => rfl
  | cons c cs ih =>
    have digit := isDigit_of_digit? (h c List.mem_cons_self)
    rw [ofChars_cons_of_lt digit.1, List.map_cons, ih fun d mem => h d (List.mem_cons_of_mem c mem)]

theorem length_ofChars (h : Figures cs) : (ofChars cs).length = cs.length := by
  rw [h.ofChars_eq, List.length_map]

/-- Digits are digits of the grammar, unless more follow. -/
theorem digitsAt (h : Figures cs) (nonempty : cs ≠ []) (stops : ∀ b ∈ t.head?, isDigit b = false) :
    DigitsAt (ofChars cs ++ t) (ofChars cs) t where
  text := rfl
  nonempty := by
    rw [h.ofChars_eq]
    simpa using nonempty
  digits := by
    rw [h.ofChars_eq]
    intro b octet
    obtain ⟨c, mem, rfl⟩ := List.mem_map.mp octet
    exact (isDigit_of_digit? (h c mem)).2
  stops := stops

end Figures

theorem ofChars_zeros (k : Nat) : ofChars (List.replicate k '0') = List.replicate k 0x30 := by
  rw [(figures_zeros k).ofChars_eq, List.map_replicate]
  rfl

theorem naturalFrom_zeros (n k : Nat) : naturalFrom n (List.replicate k 0x30) = n * 10 ^ k := by
  induction k generalizing n with
  | zero => simp
  | succ k ih =>
    have zero : digitValue 0x30 = 0 := rfl
    rw [List.replicate_succ, naturalFrom_cons, ih, zero, Nat.add_zero, Nat.pow_succ]
    ring

/-- Zeros in front of digits do not count. -/
theorem natural_zeros_append (k : Nat) (ds : Bytes) :
    natural (List.replicate k 0x30 ++ ds) = natural ds := by
  have zeros : natural (List.replicate k 0x30) = 0 := by
    have := naturalFrom_zeros 0 k
    rwa [Nat.zero_mul] at this
  rw [natural_append, zeros]
  rfl

/-- The digits of a natural number name it. -/
theorem natural_toDigits (n : Nat) : natural (ofChars (Nat.toDigits 10 n)) = n := by
  have digit {d : Nat} (small : d < 10) : ofChars [Nat.digitChar d] = [(Nat.digitChar d).toUInt8] ∧
      digitValue (Nat.digitChar d).toUInt8 = d := by
    revert d
    decide
  induction n using Nat.strongRecOn with
  | ind n ih =>
    rw [Nat.toDigits_eq_if (by decide)]
    split
    next small =>
      rw [(digit small).1]
      simpa [natural] using (digit small).2
    next large =>
      have last := digit (Nat.mod_lt n (show 0 < 10 by decide))
      rw [ofChars_append, natural_append, ih (n / 10) (by omega), last.1, naturalFrom_cons, last.2,
        naturalFrom_nil]
      omega

/-- The digits of a natural number other than zero do not begin with a zero. -/
theorem head?_toDigits {n : Nat} (nonzero : 0 < n) : (Nat.toDigits 10 n).head? ≠ some '0' := by
  induction n using Nat.strongRecOn with
  | ind n ih =>
    rw [Nat.toDigits_eq_if (by decide)]
    split
    next small =>
      have digit : ∀ d < 10, 0 < d → Nat.digitChar d ≠ '0' := by decide
      simpa using digit n small nonzero
    next large =>
      rw [List.head?_append_of_ne_nil _ (Numeral.toDigits_ne_nil _)]
      exact ih (n / 10) (by omega) (by omega)

/-! ## Layouts -/

/-- The sign of a number as a factor. -/
def signFactor (negative : Bool) : ℚ := if negative then -1 else 1

theorem Literal.value_eq (l : Literal) :
    l.value = signFactor l.negative * l.significand * 10 ^ l.scale := rfl

/-- Characters that are a number of the grammar but for its sign, with a value. -/
def Shown (cs : List Char) (v : ℚ) : Prop :=
  ∀ negative, ∃ l, l.value = signFactor negative * v ∧
    ∀ t, Stops t → MagnitudeAt negative (ofChars cs ++ t) l t

theorem Stops.isDigit (stops : Stops t) : ∀ b ∈ t.head?, isDigit b = false :=
  fun b front => (stops b front).1

theorem Stops.noPoint (stops : Stops t) : FractionAt t [] t :=
  .none fun front => (stops _ front).2.1 rfl

theorem Stops.noExponent (stops : Stops t) : ExponentAt t none t :=
  .none ⟨fun front => (stops _ front).2.2.1 rfl, fun front => (stops _ front).2.2.2 rfl⟩

/-- The octets of digits begin with a zero only if the digits do. -/
theorem ofChars_noZero (figures : Figures cs) (noZero : cs.head? = some '0' → cs = ['0']) :
    (ofChars cs).head? = some 0x30 → ofChars cs = [0x30] := by
  intro front
  rw [figures.ofChars_eq, List.head?_map, Option.map_eq_some_iff] at front
  obtain ⟨c, head, octet⟩ := front
  have mem : c ∈ cs := List.mem_of_mem_head? head
  have ascii := (isDigit_of_digit? (figures c mem)).1
  obtain rfl : c = '0' := by
    apply Char.ext
    apply UInt32.toNat_inj.mp
    have := toNat_toUInt8 ascii
    rw [octet] at this
    exact this.symm
  rw [noZero head]
  rfl

/-- A natural number behind a sign, as it is written. -/
def Literal.ofNat (negative : Bool) (n : Nat) : Literal :=
  ⟨negative, ofChars (Nat.toDigits 10 n), [], none⟩

theorem Literal.value_ofNat (negative : Bool) (n : Nat) :
    (Literal.ofNat negative n).value = signFactor negative * n := by
  simp [value_eq, ofNat, significand, scale, natural_toDigits]

theorem magnitudeAt_toDigits (negative : Bool) (n : Nat) (stops : Stops t) :
    MagnitudeAt negative (ofChars (Nat.toDigits 10 n) ++ t) (.ofNat negative n) t := by
  have digits := figures_toDigits n
  have noZero : (Nat.toDigits 10 n).head? = some '0' → Nat.toDigits 10 n = ['0'] := by
    intro zero
    obtain rfl : n = 0 := by
      by_contra nonzero
      exact head?_toDigits (Nat.pos_of_ne_zero nonzero) zero
    rfl
  exact .of (digits.digitsAt (Numeral.toDigits_ne_nil n) stops.isDigit) (ofChars_noZero digits noZero)
    stops.noPoint stops.noExponent

/-- A natural number is shown by its digits. -/
theorem shown_toDigits (n : Nat) : Shown (Nat.toDigits 10 n) n := fun negative =>
  ⟨.ofNat negative n, Literal.value_ofNat negative n, fun _ stops =>
    magnitudeAt_toDigits negative n stops⟩

/-- Digits around a point. -/
theorem shown_positional {whole fraction : List Char} (figures : Figures whole)
    (figures' : Figures fraction) (nonempty : whole ≠ []) (nonempty' : fraction ≠ [])
    (noZero : whole.head? = some '0' → whole = ['0']) {n : Nat}
    (named : natural (ofChars (whole ++ fraction)) = n) :
    Shown (whole ++ '.' :: fraction) (n * 10 ^ (-fraction.length : Int)) := by
  intro negative
  refine ⟨⟨negative, ofChars whole, ofChars fraction, none⟩, ?_, fun t stops => ?_⟩
  · rw [ofChars_append] at named
    simp only [Literal.value_eq, Literal.significand, Literal.scale, figures'.length_ofChars, named,
      Option.getD_none, zero_sub, mul_assoc]
  · rw [ofChars_append, ofChars_cons_of_lt (by decide), List.append_assoc, List.cons_append]
    have point : ∀ b ∈ ('.'.toUInt8 :: (ofChars fraction ++ t)).head?, isDigit b = false := by
      rintro b ⟨⟩
      decide
    exact .of (figures.digitsAt nonempty point) (ofChars_noZero figures noZero)
      (.digits (figures'.digitsAt nonempty' stops.isDigit)) stops.noExponent

/-- Zeros between digits and a point behind them. -/
theorem shown_zerosBehind (figures : Figures cs) (nonempty : cs ≠ []) (head : cs.head? ≠ some '0')
    {n : Nat} (named : natural (ofChars cs) = n) (k : Nat) :
    Shown (cs ++ List.replicate k '0' ++ ['.', '0']) (n * 10 ^ (k : Int)) := by
  have front : (cs ++ List.replicate k '0').head? ≠ some '0' := by
    rwa [List.head?_append_of_ne_nil _ nonempty]
  have shown := shown_positional (figures.append (figures_zeros k)) (figures_zeros 1)
    (List.append_ne_nil_of_left_ne_nil nonempty _) (by simp) (fun zero => absurd zero front)
    (n := n * 10 ^ k * 10 ^ 1) (by
      rw [ofChars_append, ofChars_append, natural_append, natural_append, named, ofChars_zeros,
        ofChars_zeros, naturalFrom_zeros, naturalFrom_zeros])
  have value : (n * 10 ^ (k : Int) : ℚ) =
      (n * 10 ^ k * 10 ^ 1 : Nat) * 10 ^ (-(List.replicate 1 '0').length : Int) := by
    push_cast
    simp
  rw [value]
  exact shown

/-- A point among digits. -/
theorem shown_pointWithin (figures : Figures cs) (head : cs.head? ≠ some '0') {n : Nat}
    (named : natural (ofChars cs) = n) {p : Nat} (pos : 0 < p) (behind : p < cs.length) :
    Shown (cs.take p ++ ['.'] ++ cs.drop p) (n * 10 ^ (p - cs.length : Int)) := by
  have front : (cs.take p).head? ≠ some '0' := by rwa [List.head?_take, if_neg pos.ne']
  have shown := shown_positional (fun c mem => figures c (List.mem_of_mem_take mem))
    (fun c mem => figures c (List.mem_of_mem_drop mem))
    (by simpa using ⟨pos.ne', List.ne_nil_of_length_pos (by omega)⟩) (by simpa using behind)
    (fun zero => absurd zero front) (by rw [List.take_append_drop, named])
  have exponent : (p - cs.length : Int) = -((cs.drop p).length : Int) := by
    rw [List.length_drop]
    omega
  rw [exponent, List.append_assoc]
  exact shown

/-- Zeros between a point and digits. -/
theorem shown_zerosBefore (figures : Figures cs) (nonempty : cs ≠ []) {n : Nat}
    (named : natural (ofChars cs) = n) (k : Nat) :
    Shown (['0', '.'] ++ List.replicate k '0' ++ cs) (n * 10 ^ (-(k + cs.length) : Int)) := by
  have shown := shown_positional (show Figures ['0'] from figures_zeros 1)
    ((figures_zeros k).append figures) (by simp) (by simp [nonempty]) (fun _ => rfl) (n := n) (by
      rw [ofChars_append, ofChars_append, ofChars_zeros, ← named]
      exact natural_zeros_append (k + 1) (ofChars cs))
  have exponent : (-(k + cs.length) : Int) = -((List.replicate k '0' ++ cs).length : Int) := by
    rw [List.length_append, List.length_replicate]
    omega
  rw [exponent]
  exact shown

/-- The mark of an exponent and its digits. -/
theorem exponentAt_write (e : Int) (stops : Stops t) :
    ExponentAt (ofChars ((if e < 0 then ['e', '-'] else ['e', '+']) ++ Nat.toDigits 10 e.natAbs) ++ t)
      (some e) t := by
  have digits := (figures_toDigits e.natAbs).digitsAt (Numeral.toDigits_ne_nil _) stops.isDigit
  rw [ofChars_append, List.append_assoc]
  split
  next minus =>
    have value : e = -(natural (ofChars (Nat.toDigits 10 e.natAbs)) : Int) := by
      rw [natural_toDigits]
      omega
    have exponent := ExponentAt.minus (m := 0x65) (.inl rfl) digits
    rwa [← value] at exponent
  next plus =>
    have value : e = natural (ofChars (Nat.toDigits 10 e.natAbs)) := by
      rw [natural_toDigits]
      omega
    have exponent := ExponentAt.plus (m := 0x65) (.inl rfl) digits
    rwa [← value] at exponent

/-- A digit, more of them behind a point, and an exponent. -/
theorem shown_scientific {c : Char} (figures : Figures (c :: cs)) (e : Int) {n : Nat}
    (named : natural (ofChars (c :: cs)) = n) :
    Shown ((match c :: cs with
      | [] => []
      | [c] => [c]
      | c :: cs => c :: '.' :: cs) ++ (if e < 0 then ['e', '-'] else ['e', '+']) ++
        Nat.toDigits 10 e.natAbs) (n * 10 ^ (e - cs.length)) := by
  have first : Figures [c] := fun d mem => figures d (List.mem_cons.mpr (.inl (List.mem_singleton.mp mem)))
  have others : Figures cs := fun d mem => figures d (List.mem_cons_of_mem c mem)
  have noZero : [c].head? = some '0' → [c] = ['0'] := by simp
  intro negative
  refine ⟨⟨negative, ofChars [c], ofChars cs, some e⟩, ?_, fun t stops => ?_⟩
  · have joined : ofChars [c] ++ ofChars cs = ofChars (c :: cs) := (ofChars_append [c] cs).symm
    simp only [Literal.value_eq, Literal.significand, Literal.scale, joined, named,
      others.length_ofChars, Option.getD_some, mul_assoc]
  · have power := exponentAt_write e stops
    have mark : ∃ r, ofChars ((if e < 0 then ['e', '-'] else ['e', '+']) ++
        Nat.toDigits 10 e.natAbs) ++ t = 0x65 :: r := by
      split <;> exact ⟨_, rfl⟩
    obtain ⟨r, front⟩ := mark
    rw [List.append_assoc, ofChars_append, List.append_assoc]
    rw [front] at power ⊢
    have noDigit : ∀ b ∈ (0x65 :: r : Bytes).head?, isDigit b = false := by
      rintro b ⟨⟩
      decide
    cases cs with
    | nil =>
      exact .of (first.digitsAt (List.cons_ne_nil c []) noDigit) (ofChars_noZero first noZero)
        (.none (by simp)) power
    | cons d ds =>
      have point : ∀ b ∈ ('.'.toUInt8 :: (ofChars (d :: ds) ++ 0x65 :: r)).head?, isDigit b = false := by
        rintro b ⟨⟩
        decide
      have split : ofChars (c :: '.' :: d :: ds) = ofChars [c] ++ '.'.toUInt8 :: ofChars (d :: ds) := by
        rw [← ofChars_cons_of_lt (by decide), ← ofChars_append, List.singleton_append]
      rw [split, List.append_assoc, List.cons_append]
      exact .of (first.digitsAt (List.cons_ne_nil c []) point) (ofChars_noZero first noZero)
        (.digits (others.digitsAt (List.cons_ne_nil d ds) noDigit)) power

/-- Every layout of a decimal has the value of the decimal. -/
theorem shown_write (layout : DecimalLayout) {d : Decimal} (nonzero : 0 < d.digits) :
    Shown (layout.write d) d.value := by
  have digits := figures_toDigits d.digits
  have nonempty := Numeral.toDigits_ne_nil d.digits
  have head := head?_toDigits nonzero
  have named := natural_toDigits d.digits
  rw [DecimalLayout.write, Decimal.value]
  generalize Nat.toDigits 10 d.digits = cs at *
  simp only []
  split
  next whole =>
    obtain ⟨k, exponent⟩ := Int.eq_ofNat_of_zero_le whole.1
    rw [exponent]
    exact shown_zerosBehind digits nonempty head named k
  split
  next inside =>
    obtain ⟨p, point⟩ := Int.eq_ofNat_of_zero_le inside.1.le
    have exponent : d.exponent = p - cs.length := by omega
    rw [point, Int.toNat_natCast, exponent]
    exact shown_pointWithin digits head named (by omega) (by omega)
  split
  next before =>
    obtain ⟨k, point⟩ := Int.eq_ofNat_of_zero_le (a := -(cs.length + d.exponent)) (by omega)
    have exponent : d.exponent = -(k + cs.length) := by omega
    rw [point, Int.toNat_natCast, exponent]
    exact shown_zerosBefore digits nonempty named k
  next outside =>
    cases cs with
    | nil => exact absurd rfl nonempty
    | cons c cs =>
      have shown := shown_scientific digits ((c :: cs).length + d.exponent - 1) named
      have exponent : ((c :: cs).length + d.exponent - 1 : Int) - cs.length = d.exponent := by
        rw [List.length_cons]
        omega
      rw [exponent] at shown
      exact shown

/-! ## Numbers -/

/-- What a number is written as: an integer as it is, a binary number as its shortest decimal. -/
def Number.written : Number → ℚ
  | .integer n => n
  | .binary x => signFactor x.negative * if x.isZero then 0 else x.shortest.value

/-- What is shown is a number behind its sign. -/
theorem Shown.numberAt {v : ℚ} (shown : Shown cs v) (negative : Bool) :
    ∃ l, l.value = signFactor negative * v ∧ ∀ t, Stops t →
      NumberAt (ofChars ((if negative then ['-'] else []) ++ cs) ++ t) l t := by
  obtain ⟨l, value, magnitude⟩ := shown negative
  refine ⟨l, value, fun t stops => ?_⟩
  cases negative with
  | false => exact .plain (magnitude t stops)
  | true => exact .minus (magnitude t stops)

/-- A binary number is shown as its shortest decimal. -/
theorem shown_shortest {x : Binary64} (nonzero : x.isZero = false) :
    Shown (DecimalLayout.document.write (x.shortest.trimZeros 20)) x.shortest.value := by
  have units : 0 < x.units := by
    rw [Binary64.units_eq]
    exact Nat.mul_pos (Nat.pos_of_ne_zero (by simpa [Binary64.isZero] using nonzero))
      (Nat.two_pow_pos x.scale)
  have digits := Decimal.digits_trimZeros_pos 20 (Binary64.digits_shortest_pos units)
  rw [← Decimal.value_trimZeros 20]
  exact shown_write _ digits

/-- Every number is written as a number of the grammar. -/
theorem exists_written (n : Number) : ∃ l, Written l n ∧ l.value = n.written := by
  cases n with
  | integer n =>
    obtain ⟨l, value, number⟩ := (shown_toDigits n.natAbs).numberAt (decide (n < 0))
    refine ⟨l, fun t stops => ?_, ?_⟩
    · have at_ := number t stops
      rw [Number.chars, integerChars]
      by_cases minus : n < 0
      · simpa [minus] using at_
      · simpa [minus] using at_
    · rw [value, Number.written, signFactor]
      by_cases minus : n < 0
      · have magnitude : (n.natAbs : Int) = -n := by omega
        simp only [minus, decide_true, if_true]
        rw [← Int.cast_natCast, magnitude]
        push_cast
        ring
      · have magnitude : (n.natAbs : Int) = n := by omega
        simp only [minus, decide_false, Bool.false_eq_true, if_false, one_mul]
        rw [← Int.cast_natCast, magnitude]
  | binary x =>
    have shown : Shown (if x.isZero then ['0', '.', '0']
        else DecimalLayout.document.write (x.shortest.trimZeros 20))
        (if x.isZero then 0 else x.shortest.value) := by
      cases zero : x.isZero with
      | true =>
        have shown := shown_positional (figures_zeros 1) (figures_zeros 1) (by simp) (by simp)
          (fun _ => rfl) (n := 0) rfl
        rw [Nat.cast_zero, zero_mul] at shown
        exact shown
      | false => exact shown_shortest zero
    obtain ⟨l, value, number⟩ := shown.numberAt x.negative
    refine ⟨l, fun t stops => ?_, value⟩
    have at_ := number t stops
    rw [Number.chars, Binary64.write]
    cases zero : x.isZero with
    | true => simpa [zero] using at_
    | false => simpa [zero] using at_

end ObserverRelay.Json
