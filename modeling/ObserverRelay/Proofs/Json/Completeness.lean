import ObserverRelay.Proofs.Json.Reading
/-!
# What is a document is read

The other direction: a reader of values takes every document off the front of a text, if it is not
nested too deep and each of its numbers becomes something. The value that it gives is the one that
the document means.

## Main statements

* `view_readNumber_iff`: numbers are read exactly as they become.
* `view_readValue`: documents are read as what they mean.
* `parseFront_eq_ok_iff`, `parse_eq_ok_iff`: which texts are read from the front, and which as a
  whole.
-/
namespace ObserverRelay.Json

variable {α β : Type} {s t u v : Bytes}

/-! ## Numbers -/

section Numbers
variable {negative : Bool} {significand : Nat} {exponent : Int} {e : Option Int} {n : Number}

theorem exponentValue_eq_inr {ds : Bytes} (large : ¬natural ds ≤ 2147483647) :
    ∃ later, exponentValue 0 ds = .inr later := by
  cases value : exponentValue 0 ds with
  | inl m =>
    obtain ⟨rfl, small⟩ := eq_of_exponentValue (Nat.zero_le _) value
    exact absurd small large
  | inr later => exact ⟨later, rfl⟩

theorem view_binaryAt {x : Binary64} {h : t.length < s.length}
    (scaled : scaled? significand exponent = some x) :
    (binaryAt negative significand exponent t h).view =
      .ok (.binary (if negative then x.negate else x), t) := by
  rw [binaryAt]
  simp only [scaled]
  rfl

/-- A number without an exponent is scaled as its digits have it. -/
theorem view_binaryAt_of_scaled {h : t.length < s.length}
    (scaled : Scaled negative significand exponent none n) :
    (binaryAt negative significand exponent t h).view = .ok (n, t) := by
  cases scaled with
  | scaled _ scaled => exact view_binaryAt (by simpa using scaled)
  | vanished given => cases given

theorem view_readExponent {m : UInt8} (mark : m = 0x65 ∨ m = 0x45)
    (power : ExponentAt (m :: s) e t) (scaled : Scaled negative significand exponent e n) :
    (readExponent negative significand exponent s).view = .ok (n, t) := by
  obtain ⟨ds, digits, rfl⟩ := (exponentAt_mark_iff mark).mp power
  rw [readExponent]
  split
  next empty _ =>
    obtain ⟨b, es, -, front, -⟩ := digits.exists_cons
    rw [empty] at front
    cases front
  next b r _ front _ =>
    rw [front] at digits
    obtain ⟨_, _, -, first, digit⟩ := digits.exists_cons
    obtain rfl := (List.cons.inj first).1
    obtain rfl : skipDigits r = t := by rw [← skipDigits_cons digit, digits.skipDigits_eq]
    rw [if_pos digit, digits.takeWhile_eq]
    -- A sign in front of the digits tells which way they are scaled.
    by_cases fits : natural ds ≤ 2147483647
    · have value : exponentValue 0 ds = .inl (natural ds) := exponentValue_eq fits
      simp only [value]
      cases scaled with
      | scaled small scaled =>
        apply view_binaryAt
        rw [← scaled]
        by_cases minus : s.head? = some 0x2D
        · simp [minus, sub_eq_add_neg]
        · simp [minus]
      | vanished given large =>
        obtain rfl := Option.some.inj given
        split at large <;> omega
    · obtain ⟨later, value⟩ := exponentValue_eq_inr fits
      simp only [value]
      cases scaled with
      | scaled small =>
        have small' := small _ rfl
        split at small' <;> omega
      | vanished given large zero =>
        obtain rfl := Option.some.inj given
        have vanishes : ¬(significand ≠ 0 ∧ ¬(s.head? == some 0x2D) = true) := by
          rintro ⟨nonzero, plus⟩
          have below := zero.resolve_left nonzero
          rw [if_neg (by simpa using plus)] at below
          omega
        rw [if_neg vanishes]
        rfl

theorem view_readScale {h : t.length < s.length} (power : ExponentAt t e u)
    (scaled : Scaled negative significand exponent e n) :
    (readScale negative significand exponent s t h).view = .ok (n, u) := by
  cases t with
  | nil =>
    obtain ⟨rfl, rfl⟩ := power.unique (.none (by decide))
    rw [readScale]
    exact view_binaryAt_of_scaled scaled
  | cons b r =>
    rw [readScale]
    by_cases mark : b = 0x65 ∨ b = 0x45
    · rw [if_pos mark, Outcome.view_within]
      exact view_readExponent mark power scaled
    · obtain ⟨rfl, rfl⟩ := power.unique (.none (by simpa [not_or] using mark))
      rw [if_neg mark]
      exact view_binaryAt_of_scaled scaled

theorem view_readFraction {ds : Bytes} (digits : DigitsAt s ds t) (power : ExponentAt t e u)
    (scaled : Scaled negative (absorb significand (ds.map digitValue)).1
      (exponent - (ds.length - (absorb significand (ds.map digitValue)).2.length : Nat)) e n) :
    (readFraction negative significand exponent s).view = .ok (n, u) := by
  obtain ⟨b, es, -, rfl, digit⟩ := digits.exists_cons
  have rest : skipDigits (es ++ t) = t := by rw [← skipDigits_cons digit, digits.skipDigits_eq]
  rw [readFraction, if_pos digit]
  simp only [digits.takeWhile_eq]
  refine view_readScale ?_ scaled
  rw [rest]
  exact power

theorem view_readTail {whole ds : Bytes} {h : t.length < s.length} (point : FractionAt t ds v)
    (power : ExponentAt v e u) (becomes : Becomes ⟨negative, whole, ds, e⟩ n) :
    (readTail negative (absorb 0 (whole.map digitValue)).1 (absorb 0 (whole.map digitValue)).2
      s t h).view = .ok (n, u) := by
  cases point with
  | digits digits =>
    rw [readTail, Outcome.view_within]
    cases becomes with
    | plain plain => exact absurd plain.1 digits.nonempty
    | scaled _ scaled => exact view_readFraction digits power scaled
  | none noPoint =>
    have read : readTail negative (absorb 0 (whole.map digitValue)).1
        (absorb 0 (whole.map digitValue)).2 s t h =
        if (absorb 0 (whole.map digitValue)).2 = [] ∧ ¬exponentFollows t then
          .ok ⟨integerNumber negative (absorb 0 (whole.map digitValue)).1, t, h⟩
        else readScale negative (absorb 0 (whole.map digitValue)).1
          (absorb 0 (whole.map digitValue)).2.length s t h := by
      rw [readTail.eq_def]
      split
      next => exact absurd rfl noPoint
      next => rfl
    rw [read]
    cases becomes with
    | plain plain =>
      obtain rfl : e = none := plain.2.1
      cases power with
      | none noMark =>
        have ends := exponentAt_none_iff.mp (.none noMark)
        rw [if_pos ⟨plain.2.2, ends⟩]
        rfl
    | scaled noPlain scaled =>
      have goesOn : ¬((absorb 0 (whole.map digitValue)).2 = [] ∧ ¬exponentFollows t = true) := by
        rintro ⟨all, ends⟩
        obtain ⟨rfl, -⟩ := power.unique (exponentAt_none_iff.mpr ends)
        exact noPlain ⟨rfl, rfl, all⟩
      rw [if_neg goesOn]
      refine view_readScale power ?_
      simpa [Literal.shift, Literal.absorbed, Literal.absorbedAll, absorb] using scaled

theorem view_readMagnitude {l : Literal} (magnitude : MagnitudeAt negative s l t)
    (becomes : Becomes l n) : (readMagnitude negative s).view = .ok (n, t) := by
  cases magnitude with
  | of digits noZero point power =>
    obtain ⟨b, es, -, rfl, digit⟩ := digits.exists_cons
    rw [← digits.takeWhile_eq] at noZero
    have noZeros := (noZero_iff digit _).mp noZero
    have rest : skipDigits (es ++ _) = _ := (skipDigits_cons digit _).symm.trans digits.skipDigits_eq
    rw [readMagnitude, if_neg (not_not.mpr digit), if_neg noZeros]
    simp only [digits.takeWhile_eq]
    refine view_readTail ?_ power becomes
    rw [rest]
    exact point

/-- A number is read exactly as it becomes. -/
theorem view_readNumber_iff :
    (readNumber s).view = .ok (n, t) ↔ ∃ l, NumberAt s l t ∧ Becomes l n := by
  constructor
  · exact becomes_of_readNumber
  · rintro ⟨l, number, becomes⟩
    rw [readNumber.eq_def]
    split
    next r =>
      rw [Outcome.view_behind]
      cases number with
      | minus magnitude => exact view_readMagnitude magnitude becomes
      | plain magnitude => exact magnitude.not_minus.elim
    next noSign =>
      cases number with
      | minus magnitude => exact (noSign _ rfl).elim
      | plain magnitude => exact view_readMagnitude magnitude becomes

end Numbers

/-! ## Values -/

theorem nameAt_eq_textAt : NameAt = TextAt := by
  funext s x t
  exact propext nameAt_iff_textAt

/-- The steps of an object assign its members one after the other. -/
theorem memberRun_assign {R : Bytes → β → Bytes → Prop} {reader : Reader Value}
    {ms : List (String × β)} {vs : Members} (names : ms.map Prod.fst = vs.map Prod.fst)
    (values : List.Forall₂ (fun x v => ∀ s t, R s x t → (reader s).view = .ok (v, t))
      (ms.map Prod.snd) (vs.map Prod.snd)) (start : Members) :
    MemberRun R (fun _ _ => none) (fun name done u =>
      (reader u).map fun v => Members.assign name v done) start ms (Members.assignAll start vs) := by
  induction vs generalizing ms start with
  | nil =>
    obtain rfl : ms = [] := by simpa using names
    exact .done start
  | cons w vs ih =>
    cases ms with
    | nil => cases names
    | cons m ms =>
      obtain ⟨k, v⟩ := w
      obtain ⟨k', x⟩ := m
      obtain ⟨rfl, others⟩ : k' = k ∧ ms.map Prod.fst = vs.map Prod.fst := by simpa using names
      obtain ⟨here, rest⟩ := List.forall₂_cons.mp values
      exact .more rfl (fun s t h => Outcome.view_map _ (here s t h)) (ih others rest _)

section Front
variable {depth : Nat}

theorem view_readValue_null (word : skipSpace s = 0x6E :: (wordNull ++ t)) :
    (readValue depth s).view = .ok (.null, t) := by
  obtain ⟨shorter, looked⟩ := front_eq_octet word
  rw [readValue]
  simp only [looked, if_true, Outcome.view_weaken]
  exact view_readWord_iff.mpr ⟨rfl, rfl⟩

theorem view_readValue_true (word : skipSpace s = 0x74 :: (wordTrue ++ t)) :
    (readValue depth s).view = .ok (.bool true, t) := by
  obtain ⟨shorter, looked⟩ := front_eq_octet word
  rw [readValue]
  simp (disch := decide) only [looked, if_pos, if_neg, Outcome.view_weaken]
  exact view_readWord_iff.mpr ⟨rfl, rfl⟩

theorem view_readValue_false (word : skipSpace s = 0x66 :: (wordFalse ++ t)) :
    (readValue depth s).view = .ok (.bool false, t) := by
  obtain ⟨shorter, looked⟩ := front_eq_octet word
  rw [readValue]
  simp (disch := decide) only [looked, if_pos, if_neg, Outcome.view_weaken]
  exact view_readWord_iff.mpr ⟨rfl, rfl⟩

theorem view_readValue_number {l : Literal} {n : Number} (number : NumberAt (skipSpace s) l t)
    (becomes : Becomes l n) : (readValue depth s).view = .ok (.number n, t) := by
  obtain ⟨b, r, front, first⟩ := number.exists_cons
  obtain ⟨shorter, looked⟩ := front_eq_octet front
  have other {c : UInt8} (noSign : c ≠ 0x2D) (noDigit : isDigit c = false) : ¬b = c :=
    ne_of_number first noSign noDigit
  rw [front] at number
  rw [readValue]
  simp only [looked, other (c := 0x6E) (by decide) (by decide),
    other (c := 0x74) (by decide) (by decide), other (c := 0x66) (by decide) (by decide), first,
    if_true, if_false, Outcome.view_weaken]
  exact Outcome.view_map _ (view_readNumber_iff.mpr ⟨l, number, becomes⟩)

theorem view_readValue_string (quote : skipSpace s = 0x22 :: u) :
    (readValue depth s).view = ((readString u).map Value.string).view := by
  obtain ⟨shorter, looked⟩ := front_eq_octet quote
  rw [readValue]
  simp (disch := decide) only [looked, if_pos, if_neg, Outcome.view_within]

theorem view_readValue_array (bracket : skipSpace s = 0x5B :: u) :
    (readValue (depth + 1) s).view =
      ((readValueItems (readValue depth) u).map Value.array).view := by
  obtain ⟨shorter, looked⟩ := front_eq_octet bracket
  rw [readValue]
  simp (disch := decide) only [looked, if_pos, if_neg, Outcome.view_within]

theorem view_readValue_object (brace : skipSpace s = 0x7B :: u) :
    (readValue (depth + 1) s).view =
      ((readValueMembers (readValue depth) u).map Value.object).view := by
  obtain ⟨shorter, looked⟩ := front_eq_octet brace
  rw [readValue]
  simp (disch := decide) only [looked, if_pos, if_neg, Outcome.view_within]

end Front

/-- Items are read as what they mean, if each of them is. -/
theorem view_readValueItems {R : Bytes → β → Bytes → Prop} {reader : Reader Value} {xs : List β}
    {vs : List Value}
    (each : List.Forall₂ (fun x v => ∀ s t, R s x t → (reader s).view = .ok (v, t)) xs vs)
    (opens : Opens R) (content : ItemsAt R true s xs t) :
    (readValueItems reader s).view = .ok (vs, t) := by
  have read := Outcome.view_map List.reverse
    (view_readItems opens (itemRun_collect each 0 []) content)
  rwa [List.append_nil, List.reverse_reverse] at read

/-- A document is read as what it means, if it is not nested too deep. -/
theorem view_readValue {depth : Nat} {d : Document String} {w : Value}
    (document : DocumentAt TextAt s d t) (means : Means Becomes d w) (within : d.Within depth) :
    (readValue depth s).view = .ok (w, t) := by
  induction d generalizing depth s t w with
  | null =>
    cases means
    cases document with
    | null word => exact view_readValue_null word
  | bool b =>
    cases means
    cases document with
    | yes word => exact view_readValue_true word
    | no word => exact view_readValue_false word
  | number l =>
    cases means with
    | number becomes =>
      cases document with
      | number number => exact view_readValue_number number becomes
  | string x =>
    cases means
    cases document with
    | string quote content =>
      rw [view_readValue_string quote]
      exact Outcome.view_map _ (view_readString_iff.mpr content)
  | array ds ih =>
    cases within with
    | @array depth _ inner =>
      cases means with
      | @array _ vs items =>
        cases document with
        | array bracket content =>
          have each : List.Forall₂ (fun d v => ∀ s t, DocumentAt TextAt s d t →
              (readValue depth s).view = .ok (v, t)) ds vs :=
            forall₂_imp_mem items fun d hd v here s t h => ih d hd h here (inner d hd)
          rw [view_readValue_array bracket]
          exact Outcome.view_map _ (view_readValueItems each (opens_documentAt TextAt) content)
  | object ms ih =>
    cases within with
    | @object depth _ inner =>
      cases means with
      | @object _ vs names values =>
        cases document with
        | @object _ u _ _ brace content =>
          have each : List.Forall₂ (fun d v => ∀ s t, DocumentAt TextAt s d t →
              (readValue depth s).view = .ok (v, t)) (ms.map Prod.snd) (vs.map Prod.snd) := by
            refine forall₂_imp_mem values fun d hd v here s t h => ?_
            obtain ⟨m, hm, rfl⟩ := List.mem_map.mp hd
            exact ih m hm h here (inner m hm)
          have members : MembersAt NameAt (DocumentAt TextAt) true u ms t := by
            rw [nameAt_eq_textAt]
            exact content
          rw [view_readValue_object brace]
          exact Outcome.view_map _ (view_readMembers (memberRun_assign names each []) members)

/-- The document at the front of a text is read as what it means. -/
theorem parseFront_of_document {d : Document String} {w : Value} (document : DocumentAt TextAt s d t)
    (means : Means Becomes d w) (within : d.Within maxDepth) : Value.parseFront s = .ok w := by
  obtain ⟨shorter, read⟩ := Outcome.eq_of_view (view_readValue document means within)
  rw [Value.parseFront, read]

/-- A value is read off the front of a text exactly if a document stands there that means it and is
not nested too deep. -/
theorem parseFront_eq_ok_iff {v : Value} :
    Value.parseFront s = .ok v ↔
      ∃ d t, DocumentAt TextAt s d t ∧ Means Becomes d v ∧ d.Within maxDepth := by
  constructor
  · intro read
    unfold Value.parseFront at read
    split at read
    next => cases read
    next r taken =>
      obtain rfl : r.value = v := Except.ok.inj read
      obtain ⟨d, front⟩ := document_of_readValue (t := r.rest) (by rw [taken]; rfl)
      exact ⟨d, r.rest, front⟩
  · rintro ⟨d, t, document, means, within⟩
    exact parseFront_of_document document means within

/-- A text is read as a whole exactly if it is one of a document that means something and is not
nested too deep. -/
theorem parse_eq_ok_iff {v : Value} :
    Value.parse s = .ok v ↔ ∃ d, Spells TextAt s d ∧ Means Becomes d v ∧ d.Within maxDepth := by
  rw [Value.parse, readWhole_eq_ok_iff]
  constructor
  · rintro ⟨t, read, blank⟩
    obtain ⟨d, document, means, within⟩ := document_of_readValue read
    exact ⟨d, ⟨t, document, blank⟩, means, within⟩
  · rintro ⟨d, ⟨t, document, blank⟩, means, within⟩
    exact ⟨t, view_readValue document means within, blank⟩

end ObserverRelay.Json
