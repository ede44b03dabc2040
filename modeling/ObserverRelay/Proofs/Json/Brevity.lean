import ObserverRelay.Proofs.Json.ReadBack
/-!
# The compact layout is no longer than what was read

A string is written with as few escapes as it can be, an integer without zeros in front, and of
members with one name only one is written. So the layout of a value is no longer than any text of a
document with integers that means it. With other numbers it may be, since those are written anew.

## Main statements

* `length_stringChars_le`: strings are as short as they can be.
* `length_chars_le`: so is the layout of a value.
-/
namespace ObserverRelay.Json

open Bytes

variable {α β : Type} {s t u : Bytes}

/-- The number of octets of a value's compact layout. -/
def Value.size (v : Value) : Nat := (ofChars v.chars).length

/-! ## Strings -/

theorem length_escapeChar_le (c : Char) : (ofChars (escapeChar c)).length ≤ 6 := by
  simp only [escapeChar]
  split
  iterate 7 decide
  · split_ifs
    · have small (k : Nat) : k % 16 < 16 := Nat.mod_lt k (by decide)
      rw [unicodeEscape_eq, ofChars_cons_of_lt (by decide), ofChars_cons_of_lt (by decide),
        ofChars_digitChar (small _), ofChars_digitChar (small _), ofChars_digitChar (small _),
        ofChars_digitChar (small _)]
      rfl
    · rw [ofChars_cons, ofChars_nil, List.append_nil, String.length_utf8EncodeChar]
      exact (Char.utf8Size_le_four c).trans (by decide)

theorem escapeChar_of_plain {c : Char} (noQuote : c ≠ '"') (noEscape : c ≠ '\\')
    (noControl : 0x20 ≤ c.toNat) : escapeChar c = [c] := by
  simp only [escapeChar]
  split
  case h_8 => exact if_neg (Nat.not_lt.mpr noControl)
  case h_1 => exact absurd rfl noQuote
  case h_2 => exact absurd rfl noEscape
  all_goals exact absurd noControl (by decide)

theorem HexAt.length_eq {n : Nat} (h : HexAt s n t) : s.length = t.length + 4 := by
  cases h
  rfl

/-- An escape is as long as that which is written for its character. -/
theorem EscapeAt.length_le {c : Char} (escape : EscapeAt s c t) :
    (ofChars (escapeChar c)).length + t.length ≤ s.length + 1 := by
  cases escape with
  | @letter b _ letter =>
    have short : ∀ p ∈ escapeLetters, (ofChars (escapeChar p.2)).length ≤ 2 := by decide
    have two : (ofChars (escapeChar c)).length ≤ 2 := short (b, c) letter
    simp only [List.length_cons]
    omega
  | number digits =>
    have most := length_escapeChar_le c
    have four := digits.length_eq
    simp only [List.length_cons]
    omega
  | halves first second =>
    have most := length_escapeChar_le c
    have four := first.length_eq
    have four' := second.length_eq
    simp only [List.length_cons] at *
    omega

theorem CharactersAt.length_le {cs : List Char} (characters : CharactersAt s cs t) :
    (ofChars (cs.flatMap escapeChar)).length + t.length + 1 ≤ s.length := by
  induction characters with
  | close t => simp
  | @plain c cs s t noQuote noEscape noControl _ ih =>
    rw [List.flatMap_cons, escapeChar_of_plain noQuote noEscape noControl, List.singleton_append,
      ofChars_cons, List.length_append, List.length_append]
    omega
  | escaped escape _ ih =>
    have short := escape.length_le
    rw [List.flatMap_cons, ofChars_append, List.length_append, List.length_cons]
    omega

/-- A string is no longer than any that stands for the same text, here without its opening quote. -/
theorem length_stringChars_le {x : String} (content : TextAt s x t) :
    (ofChars (stringChars x)).length + t.length ≤ s.length + 1 := by
  have inner := CharactersAt.length_le content
  rw [stringChars, ofChars_cons_of_lt (by decide), ofChars_append, List.length_cons,
    List.length_append]
  have quote : (ofChars ['"']).length = 1 := rfl
  omega

/-! ## Integers -/

theorem naturalFrom_lt (n : Nat) {ds : Bytes} (digits : ∀ b ∈ ds, isDigit b = true) :
    naturalFrom n ds < (n + 1) * 10 ^ ds.length := by
  induction ds generalizing n with
  | nil => simp
  | cons b ds ih =>
    obtain ⟨digit, others⟩ := List.forall_mem_cons.mp digits
    have small : digitValue b ≤ 9 := by
      simp only [isDigit, Bool.and_eq_true, decide_eq_true_eq, UInt8.le_iff_toNat_le] at digit
      have top : b.toNat ≤ 57 := digit.2
      rw [digitValue]
      omega
    calc naturalFrom n (b :: ds) = naturalFrom (n * 10 + digitValue b) ds := naturalFrom_cons n b ds
      _ < (n * 10 + digitValue b + 1) * 10 ^ ds.length := ih _ others
      _ ≤ ((n + 1) * 10) * 10 ^ ds.length := Nat.mul_le_mul_right _ (by omega)
      _ = (n + 1) * 10 ^ (b :: ds).length := by rw [List.length_cons, pow_succ]; ring

theorem DigitsAt.length_toDigits_le {ds : Bytes} (digits : DigitsAt s ds t) :
    (Nat.toDigits 10 (natural ds)).length ≤ ds.length := by
  have nonempty : 0 < ds.length := List.length_pos_of_ne_nil digits.nonempty
  refine (Nat.length_toDigits_le_iff (by decide) nonempty).mpr ?_
  have bound := naturalFrom_lt 0 digits.digits
  rwa [zero_add, one_mul] at bound

theorem FractionAt.length_le {ds : Bytes} (point : FractionAt s ds t) : t.length ≤ s.length := by
  cases point with
  | none => exact le_rfl
  | digits digits =>
    rw [digits.text, List.length_cons, List.length_append]
    omega

theorem ExponentAt.length_le {e : Option Int} (power : ExponentAt s e t) : t.length ≤ s.length := by
  cases power with
  | none => exact le_rfl
  | plain mark digits | plus mark digits | minus mark digits =>
    rw [digits.text]
    simp only [List.length_cons, List.length_append]
    omega

theorem MagnitudeAt.length_toDigits_le {negative : Bool} {l : Literal}
    (magnitude : MagnitudeAt negative s l t) :
    (Nat.toDigits 10 (natural l.whole)).length + t.length ≤ s.length := by
  cases magnitude with
  | of digits noZero point power =>
    have short := digits.length_toDigits_le
    have behind := point.length_le
    have behind' := power.length_le
    rw [digits.text, List.length_append]
    dsimp only
    omega

theorem length_integerChars (n : Int) : (ofChars (integerChars n)).length =
    (if n < 0 then 1 else 0) + (Nat.toDigits 10 n.natAbs).length := by
  rw [integerChars]
  split_ifs
  · rw [ofChars_cons_of_lt (by decide), List.length_cons, (figures_toDigits _).length_ofChars,
      Nat.add_comm]
  · rw [(figures_toDigits _).length_ofChars, Nat.zero_add]

theorem NumberAt.length_integerChars_le {l : Literal} (number : NumberAt s l t) :
    (ofChars (integerChars l.integer)).length + t.length ≤ s.length := by
  rw [length_integerChars, Literal.integer]
  cases number with
  | plain magnitude =>
    have noSign : l.negative = false := by
      cases magnitude
      rfl
    have digits := magnitude.length_toDigits_le
    simp only [noSign, Bool.false_eq_true, if_false, Int.natAbs_natCast]
    split_ifs <;> omega
  | minus magnitude =>
    have sign : l.negative = true := by
      cases magnitude
      rfl
    have digits := magnitude.length_toDigits_le
    simp only [sign, if_true, Int.natAbs_neg, Int.natAbs_natCast, List.length_cons]
    split_ifs <;> omega

/-! ## Items and members -/

/-- The number of octets of items, each with what separates it from the next. -/
def itemsSize (vs : List Value) : Nat := (vs.map fun v => v.size + 1).sum

/-- The number of octets of a member with its colon and what separates it from the next. -/
def memberSize (m : String × Value) : Nat := (ofChars (stringChars m.1)).length + m.2.size + 2

/-- The number of octets of members, each with what separates it from the next. -/
def membersSize (ms : Members) : Nat := (ms.map memberSize).sum

theorem length_itemsChars (v : Value) (vs : List Value) :
    (ofChars (itemsChars (v :: vs))).length + 1 = itemsSize (v :: vs) := by
  induction vs generalizing v with
  | nil => rfl
  | cons w vs ih =>
    rw [itemsChars, ofChars_append, ofChars_cons_of_lt (by decide), List.length_append,
      List.length_cons]
    · have others := ih w
      simp only [itemsSize, Value.size, List.map_cons, List.sum_cons] at *
      omega
    · exact List.cons_ne_nil w vs

theorem length_membersChars (m : String × Value) (ms : Members) :
    (ofChars (membersChars (m :: ms))).length + 1 = membersSize (m :: ms) := by
  induction ms generalizing m with
  | nil =>
    obtain ⟨k, v⟩ := m
    rw [membersChars, ofChars_append, ofChars_cons_of_lt (by decide), List.length_append,
      List.length_cons]
    simp only [membersSize, memberSize, Value.size, List.map_cons, List.map_nil, List.sum_cons,
      List.sum_nil]
    omega
  | cons n ms ih =>
    obtain ⟨k, v⟩ := m
    rw [membersChars, ofChars_append, ofChars_cons_of_lt (by decide), ofChars_append,
      ofChars_cons_of_lt (by decide), List.length_append, List.length_cons, List.length_append,
      List.length_cons]
    · have others := ih n
      simp only [membersSize, memberSize, Value.size, List.map_cons, List.sum_cons] at *
      omega
    · exact List.cons_ne_nil n ms

theorem size_array (vs : List Value) :
    (Value.array vs).size = itemsSize vs + if vs = [] then 2 else 1 := by
  rw [Value.size, Value.chars, ofChars_cons_of_lt (by decide), ofChars_append, List.length_cons,
    List.length_append]
  cases vs with
  | nil => rfl
  | cons v vs =>
    have inner := length_itemsChars v vs
    have close : (ofChars [']']).length = 1 := rfl
    rw [if_neg (List.cons_ne_nil v vs)]
    omega

theorem size_object (ms : Members) :
    (Value.object ms).size = membersSize ms + if ms = [] then 2 else 1 := by
  rw [Value.size, Value.chars, ofChars_cons_of_lt (by decide), ofChars_append, List.length_cons,
    List.length_append]
  cases ms with
  | nil => rfl
  | cons m ms =>
    have inner := length_membersChars m ms
    have close : (ofChars ['\x7d']).length = 1 := rfl
    rw [if_neg (List.cons_ne_nil m ms)]
    omega

theorem membersSize_assign (name : String) (v : Value) (ms : Members) :
    membersSize (Members.assign name v ms) ≤ membersSize ms + memberSize (name, v) := by
  induction ms with
  | nil => simp [Members.assign, membersSize]
  | cons m ms ih =>
    obtain ⟨k, w⟩ := m
    rw [Members.assign]
    split_ifs with same
    · subst same
      simp only [membersSize, memberSize, List.map_cons, List.sum_cons]
      omega
    · simp only [membersSize, List.map_cons, List.sum_cons] at *
      omega

/-- A member that is assigned again makes nothing longer. -/
theorem membersSize_assignAll (ms more : Members) :
    membersSize (Members.assignAll ms more) ≤ membersSize ms + membersSize more := by
  induction more generalizing ms with
  | nil => exact Nat.le_add_right _ _
  | cons m more ih =>
    have step : membersSize (Members.assignAll ms (m :: more)) ≤
        membersSize (Members.assign m.1 m.2 ms) + membersSize more := ih _
    have first : membersSize (Members.assign m.1 m.2 ms) ≤ membersSize ms + memberSize m :=
      membersSize_assign m.1 m.2 ms
    have sum : membersSize (m :: more) = memberSize m + membersSize more := rfl
    omega

theorem Separated.length_le {first : Bool} (separated : Separated first s u) :
    u.length + (if first then 0 else 1) ≤ s.length := by
  cases separated with
  | first start =>
    rw [← start]
    exact length_skipSpace_le s
  | @comma _ v _ comma start =>
    have lead := length_skipSpace_le s
    have lead' := length_skipSpace_le v
    rw [comma, List.length_cons] at *
    rw [← start, if_neg (by decide)]
    omega

/-- What stands for items is no shorter than they are written, the closing bracket included. -/
theorem ItemsAt.length_le {R : Bytes → β → Bytes → Prop} {xs : List β} {vs : List Value} {first : Bool}
    (items : ItemsAt R first s xs t)
    (each : List.Forall₂ (fun x v => ∀ s t, R s x t → v.size + t.length ≤ s.length) xs vs) :
    itemsSize vs + t.length + (if first ∧ vs ≠ [] then 0 else 1) ≤ s.length := by
  induction items generalizing vs with
  | @done first s t close =>
    cases each
    have lead := length_skipSpace_le s
    rw [close, List.length_cons] at lead
    simpa [itemsSize] using lead
  | @more first s u v t x xs separated item _ ih =>
    cases each with
    | @cons _ w _ vs here others =>
      have lead := separated.length_le
      have head := here u v item
      have rest := ih others
      have sum : itemsSize (w :: vs) = w.size + 1 + itemsSize vs := rfl
      simp only [Bool.false_eq_true, false_and, if_false] at rest
      cases first with
      | false =>
        simp only [Bool.false_eq_true, false_and, if_false] at lead ⊢
        omega
      | true =>
        rw [if_pos ⟨rfl, List.cons_ne_nil w vs⟩]
        rw [if_pos rfl] at lead
        omega

/-- What stands for members is no shorter than they are written, the closing brace included. -/
theorem MembersAt.length_le {R : Bytes → β → Bytes → Prop} {xs : List (String × β)} {vs : Members}
    {first : Bool} (members : MembersAt TextAt R first s xs t)
    (names : xs.map Prod.fst = vs.map Prod.fst)
    (each : List.Forall₂ (fun x v => ∀ s t, R s x t → v.size + t.length ≤ s.length)
      (xs.map Prod.snd) (vs.map Prod.snd)) :
    membersSize vs + t.length + (if first ∧ vs ≠ [] then 0 else 1) ≤ s.length := by
  induction members generalizing vs with
  | @done first s t close =>
    obtain rfl : vs = [] := by simpa using names.symm
    have lead := length_skipSpace_le s
    rw [close, List.length_cons] at lead
    simpa [membersSize] using lead
  | @more first s u v w y t name x xs separated key colon value _ ih =>
    cases vs with
    | nil => cases names
    | cons m vs =>
      obtain ⟨rfl, names'⟩ := List.cons.inj names
      obtain ⟨here, others⟩ := List.forall₂_cons.mp each
      have lead := separated.length_le
      have quoted := length_stringChars_le key
      have behind := length_skipSpace_le v
      have head := here w y value
      have rest := ih names' others
      have sum : membersSize (m :: vs) = memberSize m + membersSize vs := rfl
      rw [colon, List.length_cons] at behind
      rw [List.length_cons] at lead
      simp only [Bool.false_eq_true, false_and, if_false] at rest
      rw [sum, memberSize]
      cases first with
      | false =>
        simp only [Bool.false_eq_true, false_and, if_false] at lead ⊢
        omega
      | true =>
        rw [if_pos ⟨rfl, List.cons_ne_nil m vs⟩]
        rw [if_pos rfl] at lead
        omega

/-! ## Values -/

theorem size_add_of_word {v : Value} {b : UInt8} {word : Bytes} (size : v.size = word.length + 1)
    (front : skipSpace s = b :: (word ++ t)) : v.size + t.length ≤ s.length := by
  have blank := length_skipSpace_le s
  rw [front, List.length_cons, List.length_append] at blank
  omega

/-- The layout of a value is no longer than what stands for it in a text with integers only. -/
theorem length_chars_le {d : Document String} {v : Value} (document : DocumentAt TextAt s d t)
    (means : Means Becomes d v) (integral : d.Integral) : v.size + t.length ≤ s.length := by
  have blank := length_skipSpace_le s
  induction d generalizing s t v with
  | null =>
    cases means
    cases document with
    | null word => exact size_add_of_word rfl word
  | bool b =>
    cases means
    cases document with
    | yes word => exact size_add_of_word rfl word
    | no word => exact size_add_of_word rfl word
  | number l =>
    cases means with
    | number becomes =>
      cases integral with
      | number integral =>
        cases document with
        | number number =>
          rw [integral.eq_of_becomes becomes]
          exact number.length_integerChars_le.trans blank
  | string x =>
    cases means
    cases document with
    | string quote content =>
      have inner := length_stringChars_le content
      rw [quote, List.length_cons] at blank
      exact inner.trans blank
  | array ds ih =>
    cases means with
    | @array _ vs items =>
      cases integral with
      | array inner =>
        cases document with
        | array bracket content =>
          have each : List.Forall₂ (fun d v => ∀ s t, DocumentAt TextAt s d t →
              v.size + t.length ≤ s.length) ds vs :=
            forall₂_imp_mem items fun d mem v here s t document =>
              ih d mem document here (inner d mem) (length_skipSpace_le s)
          have whole := content.length_le each
          rw [bracket, List.length_cons] at blank
          rw [size_array]
          by_cases empty : vs = []
          · rw [if_neg (fun h => h.2 empty)] at whole
            rw [if_pos empty]
            omega
          · rw [if_pos ⟨rfl, empty⟩] at whole
            rw [if_neg empty]
            omega
  | object ms ih =>
    cases means with
    | @object _ vs names values =>
      cases integral with
      | object inner =>
        cases document with
        | object brace content =>
          have each : List.Forall₂ (fun d v => ∀ s t, DocumentAt TextAt s d t →
              v.size + t.length ≤ s.length) (ms.map Prod.snd) (vs.map Prod.snd) := by
            refine forall₂_imp_mem values fun d mem v here s t document => ?_
            obtain ⟨m, mem', rfl⟩ := List.mem_map.mp mem
            exact ih m mem' document here (inner m mem') (length_skipSpace_le s)
          have whole := content.length_le names each
          have fewer : membersSize (Members.assignAll [] vs) ≤ 0 + membersSize vs :=
            membersSize_assignAll [] vs
          rw [brace, List.length_cons] at blank
          rw [size_object]
          cases vs with
          | nil =>
            have none : Members.assignAll [] [] = [] := rfl
            rw [if_neg (fun h => h.2 rfl)] at whole
            rw [none, if_pos rfl]
            omega
          | cons m vs =>
            rw [if_pos ⟨rfl, List.cons_ne_nil m vs⟩] at whole
            -- A member is at least as long as the braces of an empty object.
            have long : membersSize (m :: vs) =
                (ofChars (stringChars m.1)).length + m.2.size + 2 + membersSize vs := rfl
            split_ifs with none
            · rw [none] at fewer ⊢
              have nothing : membersSize [] = 0 := rfl
              omega
            · omega

end ObserverRelay.Json
