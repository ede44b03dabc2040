import ObserverRelay.Json.Digits
import ObserverRelay.Proofs.Json.Unambiguous
/-!
# Tokens and the grammar

Words, numbers and strings that are passed over, and the digits of numbers and escapes that are
read, are those of the grammar: each reader takes a token exactly if the text begins with one,
and leaves what follows it.

## Main statements

* `view_passNumber_iff`, `view_passString_iff`: numbers and strings pass by their form.
-/
namespace ObserverRelay.Json

variable {α β : Type} {s t u : Bytes}

/-! ## Outcomes -/

theorem Outcome.view_map_eq_ok_iff {o : Outcome s α} {f : α → β} {b : β} :
    (Outcome.map f o).view = .ok (b, t) ↔ ∃ a, Outcome.view o = .ok (a, t) ∧ f a = b := by
  cases o with
  | error e => simp [Outcome.map, Outcome.view]
  | ok r => simp [Outcome.map, Outcome.view, and_comm, eq_comm]

@[simp] theorem Outcome.view_behind (o : Outcome s α) (b : UInt8) :
    (Outcome.behind o b).view = Outcome.view o :=
  Outcome.view_within o _

@[simp] theorem Outcome.view_error (e : Fault) :
    Outcome.view (.error e : Outcome s α) = .error e := rfl

/-! ## Words -/

theorem map_expectWord_eq_ok_iff {word : Bytes} :
    (expectWord word s).map Subtype.val = .ok t ↔ s = word ++ t := by
  induction word generalizing s with
  | nil => simp [expectWord, Except.map]
  | cons w word ih =>
    cases s with
    | nil => simp [expectWord, Except.map]
    | cons b s =>
      rw [expectWord]
      by_cases same : w = b
      · subst same
        have rest : w :: s = w :: word ++ t ↔ s = word ++ t := by simp
        rw [if_pos rfl, rest, ← ih]
        cases expectWord word s <;> rfl
      · simp [same, Ne.symm same, Except.map]

theorem view_readWord_iff {word : Bytes} {a x : α} {b : UInt8} :
    (readWord word a b s).view = .ok (x, t) ↔ x = a ∧ s = word ++ t := by
  rw [← map_expectWord_eq_ok_iff, readWord]
  cases expectWord word s with
  | error e => simp [Except.map]
  | ok r => simp [Except.map, eq_comm]

/-! ## Numbers -/

theorem skipDigits_cons {b : UInt8} (digit : isDigit b = true) (s : Bytes) :
    skipDigits (b :: s) = skipDigits s := by
  simp [skipDigits, digit]

/-- Digits are taken as long as there are any. -/
theorem digitsAt_iff {ds : Bytes} :
    DigitsAt s ds t ↔ (∃ b r, s = b :: r ∧ isDigit b = true) ∧ ds = s.takeWhile isDigit ∧
      t = skipDigits s := by
  constructor
  · intro h
    obtain ⟨b, es, -, front, digit⟩ := h.exists_cons
    exact ⟨⟨b, _, front, digit⟩, h.takeWhile_eq.symm, h.skipDigits_eq.symm⟩
  · rintro ⟨⟨b, r, rfl, digit⟩, rfl, rfl⟩
    refine ⟨List.takeWhile_append_dropWhile.symm, by simp [digit],
      fun _ => List.mem_takeWhile_imp, fun c hc => ?_⟩
    have stop := List.head?_dropWhile_not isDigit (b :: r)
    rw [skipDigits] at hc
    rw [Option.mem_def.mp hc] at stop
    exact stop

theorem digitsAt_cons {b : UInt8} (digit : isDigit b = true) (s : Bytes) :
    DigitsAt (b :: s) ((b :: s).takeWhile isDigit) (skipDigits s) := by
  rw [digitsAt_iff, skipDigits_cons digit]
  exact ⟨⟨b, s, rfl, digit⟩, rfl, rfl⟩

/-- An exponent from its mark on: digits, perhaps behind a sign. -/
theorem exponentAt_mark_iff {m : UInt8} (mark : m = 0x65 ∨ m = 0x45) {e : Option Int} :
    ExponentAt (m :: s) e t ↔ ∃ ds, DigitsAt (skipSign s) ds t ∧
      e = some (if s.head? = some 0x2D then -(natural ds : Int) else natural ds) := by
  constructor
  · intro h
    cases h with
    | none noMark =>
      rcases mark with rfl | rfl
      · exact absurd rfl noMark.1
      · exact absurd rfl noMark.2
    | @plain _ _ ds _ _ digits =>
      obtain ⟨b, es, -, front, digit⟩ := digits.exists_cons
      have other {c : UInt8} (noDigit : isDigit c = false) : b ≠ c := by
        rintro rfl
        rw [noDigit] at digit
        cases digit
      have noPlus : b ≠ 0x2B := other (by decide)
      have noMinus : b ≠ 0x2D := other (by decide)
      refine ⟨ds, ?_, ?_⟩
      · rw [front] at digits ⊢
        simpa [skipSign, noPlus, noMinus] using digits
      · simp [front, noMinus]
    | @plus _ s ds _ _ digits => exact ⟨ds, digits, rfl⟩
    | @minus _ s ds _ _ digits => exact ⟨ds, digits, rfl⟩
  · rintro ⟨ds, digits, rfl⟩
    cases s with
    | nil =>
      obtain ⟨b, es, -, front, -⟩ := digits.exists_cons
      cases front
    | cons b s =>
      by_cases plus : b = 0x2B
      · subst plus
        exact .plus mark digits
      · by_cases minus : b = 0x2D
        · subst minus
          exact .minus mark digits
        · have unsigned : skipSign (b :: s) = b :: s := by simp [skipSign, plus, minus]
          rw [unsigned] at digits
          simpa [minus] using ExponentAt.plain mark digits

theorem view_passExponent_iff :
    (passExponent s).view = .ok ((), t) ↔ ∃ ds, DigitsAt (skipSign s) ds t := by
  simp only [passExponent, digitsAt_iff]
  split
  next empty _ => simp [empty]
  next b r _ front _ =>
    rw [front]
    by_cases digit : isDigit b = true
    · rw [if_pos digit, skipDigits_cons digit]
      constructor
      · intro passed
        obtain rfl : skipDigits r = t := by simpa using passed
        exact ⟨_, ⟨b, r, rfl, digit⟩, rfl, rfl⟩
      · rintro ⟨_, _, _, rfl⟩
        rfl
    · simp [digit]

theorem view_passScale_iff {h : t.length < s.length} :
    (passScale s t h).view = .ok ((), u) ↔ ∃ e, ExponentAt t e u := by
  cases t with
  | nil =>
    have noMark : ([] : Bytes).head? ≠ some 0x65 ∧ ([] : Bytes).head? ≠ some 0x45 := by decide
    rw [passScale]
    constructor
    · intro passed
      obtain rfl : [] = u := by simpa using passed
      exact ⟨none, .none noMark⟩
    · rintro ⟨e, power⟩
      obtain ⟨-, rfl⟩ := power.unique (.none noMark)
      rfl
  | cons b t =>
    rw [passScale]
    by_cases mark : b = 0x65 ∨ b = 0x45
    · simp only [if_pos mark, Outcome.view_within, view_passExponent_iff, exponentAt_mark_iff mark]
      simp
    · have noMark : (b :: t).head? ≠ some 0x65 ∧ (b :: t).head? ≠ some 0x45 := by
        simpa [not_or] using mark
      rw [if_neg mark]
      constructor
      · intro passed
        obtain rfl : b :: t = u := by simpa using passed
        exact ⟨none, .none noMark⟩
      · rintro ⟨e, power⟩
        obtain ⟨-, rfl⟩ := power.unique (.none noMark)
        rfl

theorem view_passFraction_iff :
    (passFraction s).view = .ok ((), t) ↔ ∃ ds u e, DigitsAt s ds u ∧ ExponentAt u e t := by
  cases s with
  | nil => simp [passFraction, digitsAt_iff]
  | cons b s =>
    rw [passFraction]
    by_cases digit : isDigit b = true
    · simp only [if_pos digit, view_passScale_iff, digitsAt_iff, skipDigits_cons digit]
      constructor
      · rintro ⟨e, power⟩
        exact ⟨_, _, e, ⟨⟨b, s, rfl, digit⟩, rfl, rfl⟩, power⟩
      · rintro ⟨_, _, e, ⟨_, _, rfl⟩, power⟩
        exact ⟨e, power⟩
    · simp [digit, digitsAt_iff]

theorem view_passTail_iff {h : t.length < s.length} :
    (passTail s t h).view = .ok ((), u) ↔ ∃ ds v e, FractionAt t ds v ∧ ExponentAt v e u := by
  rw [passTail.eq_def]
  split
  next r _ =>
    simp only [Outcome.view_within, view_passFraction_iff]
    constructor
    · rintro ⟨ds, v, e, digits, power⟩
      exact ⟨ds, v, e, .digits digits, power⟩
    · rintro ⟨ds, v, e, point, power⟩
      cases point with
      | none noPoint => exact absurd rfl noPoint
      | digits digits => exact ⟨ds, v, e, digits, power⟩
  next noPoint =>
    have none : t.head? ≠ some 0x2E := by
      intro point
      obtain ⟨r, rfl⟩ := List.head?_eq_some_iff.mp point
      exact noPoint r h rfl HEq.rfl
    rw [view_passScale_iff]
    constructor
    · rintro ⟨e, power⟩
      exact ⟨[], t, e, .none none, power⟩
    · rintro ⟨ds, v, e, point, power⟩
      obtain ⟨-, rfl⟩ := point.unique (.none none)
      exact ⟨e, power⟩

/-- A zero in front of other digits shows in the two first octets. -/
theorem noZero_iff {b : UInt8} (digit : isDigit b = true) (s : Bytes) :
    (((b :: s).takeWhile isDigit).head? = some 0x30 → (b :: s).takeWhile isDigit = [0x30]) ↔
      ¬(b = 0x30 ∧ s.head?.any isDigit = true) := by
  rw [List.takeWhile_cons_of_pos digit]
  cases s with
  | nil => simp
  | cons c s =>
    by_cases more : isDigit c = true
    · simp [more]
    · simp [more]

theorem view_passMagnitude_iff (negative : Bool) :
    (passMagnitude s).view = .ok ((), t) ↔ ∃ l, MagnitudeAt negative s l t := by
  have parts : (∃ l, MagnitudeAt negative s l t) ↔ ∃ whole u, (DigitsAt s whole u ∧
      (whole.head? = some 0x30 → whole = [0x30])) ∧
      ∃ ds v e, FractionAt u ds v ∧ ExponentAt v e t := by
    constructor
    · rintro ⟨_, ⟨digits, noZero, point, power⟩⟩
      exact ⟨_, _, ⟨digits, noZero⟩, _, _, _, point, power⟩
    · rintro ⟨_, _, ⟨digits, noZero⟩, _, _, _, point, power⟩
      exact ⟨_, .of digits noZero point power⟩
  rw [parts]
  cases s with
  | nil => simp [passMagnitude, digitsAt_iff]
  | cons b s =>
    rw [passMagnitude]
    by_cases digit : isDigit b = true
    · rw [if_neg (not_not.mpr digit)]
      by_cases zeros : b = 0x30 ∧ s.head?.any isDigit = true
      · have none : ¬∃ whole u, (DigitsAt (b :: s) whole u ∧
            (whole.head? = some 0x30 → whole = [0x30])) ∧
            ∃ ds v e, FractionAt u ds v ∧ ExponentAt v e t := by
          rintro ⟨_, _, ⟨digits, noZero⟩, _⟩
          rw [← digits.takeWhile_eq] at noZero
          exact (noZero_iff digit s).mp noZero zeros
        rw [if_pos zeros]
        exact iff_of_false (by simp) none
      · have behind : b = 0x30 → skipDigits s = s := by
          rintro rfl
          cases s with
          | nil => rfl
          | cons c s =>
            have noDigit : isDigit c ≠ true := by simpa using zeros
            simp [skipDigits, noDigit]
        have passed : ∀ h, (if b = 0x30 then passTail (b :: s) s (shorter_tail b s)
            else passTail (b :: s) (skipDigits s) h) = passTail (b :: s) (skipDigits s) h := by
          intro h
          split
          next zero =>
            congr 1
            exact (behind zero).symm
          next => rfl
        rw [if_neg zeros, passed, view_passTail_iff]
        constructor
        · rintro ⟨ds, v, e, point, power⟩
          exact ⟨_, _, ⟨digitsAt_cons digit s, (noZero_iff digit s).mpr zeros⟩, ds, v, e, point, power⟩
        · rintro ⟨_, _, ⟨digits, -⟩, ds, v, e, point, power⟩
          rw [← digits.skipDigits_eq, skipDigits_cons digit] at point
          exact ⟨ds, v, e, point, power⟩
    · simp [digit, digitsAt_iff]

/-- A number passes by its form. -/
theorem view_passNumber_iff :
    (passNumber s).view = .ok ((), t) ↔ ∃ l, NumberAt s l t := by
  rw [passNumber.eq_def]
  split
  next r =>
    rw [Outcome.view_behind, view_passMagnitude_iff true]
    constructor
    · rintro ⟨l, magnitude⟩
      exact ⟨l, .minus magnitude⟩
    · rintro ⟨l, number⟩
      cases number with
      | minus magnitude => exact ⟨l, magnitude⟩
      | plain magnitude => exact (magnitude.not_minus).elim
  next noSign =>
    rw [view_passMagnitude_iff false]
    constructor
    · rintro ⟨l, magnitude⟩
      exact ⟨l, .plain magnitude⟩
    · rintro ⟨l, number⟩
      cases number with
      | minus magnitude => exact (noSign _ rfl).elim
      | plain magnitude => exact ⟨l, magnitude⟩

/-! ## Strings -/

/-- Every letter stands for one octet, its character's. -/
theorem shortEscape?_of_mem : ∀ p ∈ escapeLetters,
    shortEscape? p.1 = some p.2.toUInt8 ∧ String.utf8EncodeChar p.2 = [p.2.toUInt8] := by
  decide

theorem mem_escapeLetters {b k : UInt8} (h : shortEscape? b = some k) :
    (b, Char.ofUInt8 k) ∈ escapeLetters := by
  unfold shortEscape? at h
  iterate 8
    split at h
    next letter =>
      cases letter
      cases h
      decide
  cases h

theorem shortEscape?_eq_none_iff {b : UInt8} :
    shortEscape? b = none ↔ ∀ c, (b, c) ∉ escapeLetters := by
  constructor
  · intro unknown c letter
    rw [(shortEscape?_of_mem _ letter).1] at unknown
    cases unknown
  · intro unknown
    cases known : shortEscape? b with
    | none => rfl
    | some k => exact absurd (mem_escapeLetters known) (unknown _)

theorem view_readHex4_iff {n : Nat} : (readHex4 s).view = .ok (n, t) ↔ HexAt s n t := by
  constructor
  · intro h
    rw [readHex4.eq_def] at h
    split at h
    next a b c d r =>
      split at h
      next i j k l hi hj hk hl =>
        cases h
        exact .of hi hj hk hl r
      next => cases h
    next => cases h
  · intro h
    cases h with
    | of hi hj hk hl =>
      simp only [readHex4, hi, hj, hk, hl]
      rfl

/-- An escape passes by its form: a letter, or four digits behind a `u`. -/
theorem view_passEscape_iff :
    (passEscape s).view = .ok ((), t) ↔
      (∃ b c, (b, c) ∈ escapeLetters ∧ s = b :: t) ∨ ∃ n r, s = 0x75 :: r ∧ HexAt r n t := by
  cases s with
  | nil => simp [passEscape]
  | cons b s =>
    rw [passEscape]
    cases letter : shortEscape? b with
    | some k =>
      have known := mem_escapeLetters letter
      have noNumber : b ≠ 0x75 := (escapeLetters_unique _ known).1
      constructor
      · intro passed
        obtain rfl : s = t := by simpa [Taken.first] using passed
        exact .inl ⟨b, _, known, rfl⟩
      · rintro (⟨_, _, _, front⟩ | ⟨_, _, front, _⟩)
        · cases front
          rfl
        · exact absurd (List.cons.inj front).1 noNumber
    | none =>
      have unknown := shortEscape?_eq_none_iff.mp letter
      have noLetter : ¬∃ b' c, (b', c) ∈ escapeLetters ∧ b :: s = b' :: t := by
        rintro ⟨b', c, known, front⟩
        cases front
        exact unknown c known
      rw [or_iff_right noLetter]
      by_cases number : b = 0x75
      · subst number
        simp only [ne_eq, not_true_eq_false, if_false]
        constructor
        · intro passed
          cases read : readHex4 s with
          | error e =>
            rw [read] at passed
            cases passed
          | ok r =>
            rw [read] at passed
            cases passed
            exact ⟨r.value, s, rfl, view_readHex4_iff.mp (by rw [read]; rfl)⟩
        · rintro ⟨n, r, front, digits⟩
          cases front
          obtain ⟨shorter, read⟩ := Outcome.eq_of_view (view_readHex4_iff.mpr digits)
          rw [read]
          rfl
      · simp [number]

theorem view_scanPastString_iff {le : t.length ≤ s.length} :
    (scanPastString s t le).view = .ok ((), u) ↔ FormAt t () u := by
  constructor
  · intro passed
    fun_induction scanPastString s t le with
    | case1 => cases passed
    | case2 rest le =>
      obtain rfl : rest = u := by simpa using passed
      exact .close rest
    | case3 => cases passed
    | case4 rest _ v hv escape _ _ _ ih =>
      have more := ih passed
      have taken : (passEscape rest).view = .ok ((), v) := by rw [escape]; rfl
      obtain ⟨b, c, letter, rfl⟩ | ⟨n, r, rfl, digits⟩ := view_passEscape_iff.mp taken
      · exact .letter letter more
      · exact .number digits more
    | case5 => cases passed
    | case6 b rest _ noQuote noEscape noControl _ ih =>
      exact .plain noQuote noEscape (UInt8.not_lt.mp noControl) (ih passed)
  · intro form
    have step {r v : Bytes} {le : (0x5C :: r).length ≤ s.length}
        (escape : (passEscape r).view = .ok ((), v)) :
        ∃ le', scanPastString s (0x5C :: r) le = scanPastString s v le' := by
      obtain ⟨shorter, passed⟩ := Outcome.eq_of_view escape
      refine ⟨le_of_shorter_of_shorter shorter le, ?_⟩
      rw [scanPastString]
      simp [passed]
    generalize () = x at form
    induction form with
    | close t =>
      rw [scanPastString]
      simp
    | plain noQuote noEscape noControl more ih =>
      rw [scanPastString]
      simp only [if_neg noQuote, if_neg noEscape, if_neg (UInt8.not_lt.mpr noControl)]
      exact ih
    | letter letter more ih =>
      obtain ⟨le', same⟩ := step (view_passEscape_iff.mpr (.inl ⟨_, _, letter, rfl⟩))
      rw [same]
      exact ih
    | number digits more ih =>
      obtain ⟨le', same⟩ := step (view_passEscape_iff.mpr (.inr ⟨_, _, rfl, digits⟩))
      rw [same]
      exact ih

/-- A string passes by its form. -/
theorem view_passString_iff : (passString s).view = .ok ((), t) ↔ FormAt s () t :=
  view_scanPastString_iff

end ObserverRelay.Json
