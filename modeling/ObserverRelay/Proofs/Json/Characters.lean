import ObserverRelay.Proofs.Json.Tokens
/-!
# Strings, character by character

A reader of strings resolves octets and escapes into octets and asks at the end whether these are
text. The grammar speaks of characters. Both agree: no escape stands inside the octets of a
character, since what an escape stands for begins with the first octet of one.

## Main statements

* `view_readEscape_iff`: an escape is read as the octets of its character.
* `nameAt_iff_textAt`, `view_readString_iff`: a string is read as the text it stands for.
-/
namespace ObserverRelay.Json

open Bytes

variable {s t u : Bytes}

/-! ## Escapes -/

theorem codePoint_toNat (c : Char) : codePoint c.toNat = String.utf8EncodeChar c := by
  rw [codePoint, Char.ofNat_toNat]

/-- A number outside the surrogates that four digits can name is that of a character. -/
theorem toNat_ofNat_of_lt {n : Nat} (low : n < 0x110000) (noSurrogate : n < 0xD800 ∨ 0xDFFF < n) :
    (Char.ofNat n).toNat = n := by
  have valid : n.isValidChar := by
    rcases noSurrogate with below | above
    · exact .inl below
    · exact .inr ⟨above, low⟩
  rw [Char.ofNat, dif_pos valid]
  rfl

theorem hexDigit_lt {b : UInt8} {n : Nat} (h : Hex.digit? b = some n) : n < 16 := by
  unfold Hex.digit? at h
  split_ifs at h with range range range
  all_goals
    have top := UInt8.le_iff_toNat_le.mp range.2
    simp only [UInt8.reduceToNat] at top
    cases h
    omega

theorem HexAt.lt {n : Nat} (h : HexAt s n t) : n < 0x10000 := by
  cases h with
  | of first second third fourth =>
    have := hexDigit_lt first
    have := hexDigit_lt second
    have := hexDigit_lt third
    have := hexDigit_lt fourth
    omega

/-- The second half of a character is behind another backslash and `u`. -/
theorem view_readLowSurrogate_iff (high : Nat) {cs : Bytes} :
    (readLowSurrogate high s).view = .ok (cs, t) ↔ ∃ r low, s = 0x5C :: 0x75 :: r ∧
      HexAt r low t ∧ (0xDC00 ≤ low ∧ low ≤ 0xDFFF) ∧
      cs = codePoint ((high - 0xD800) * 0x400 + (low - 0xDC00) + 0x10000) := by
  constructor
  · intro h
    rw [readLowSurrogate.eq_def] at h
    split at h
    next => cases h
    next a rest =>
      split_ifs at h with backslash
      · cases h
      split at h
      next => cases h
      next b rest =>
        split_ifs at h with letter
        · cases h
        split at h
        next => cases h
        next r read =>
          split_ifs at h with range
          · cases h
          have digits : HexAt rest r.value r.rest := view_readHex4_iff.mp (by rw [read]; rfl)
          obtain rfl : a = 0x5C := not_not.mp backslash
          obtain rfl : b = 0x75 := not_not.mp letter
          obtain ⟨rfl, rfl⟩ : codePoint ((high - 0xD800) * 0x400 + (r.value - 0xDC00) + 0x10000) = cs ∧
              r.rest = t := by
            simpa using h
          exact ⟨rest, r.value, rfl, digits, by omega, rfl⟩
  · rintro ⟨r, low, rfl, digits, range, octets⟩
    obtain ⟨shorter, read⟩ := Outcome.eq_of_view (view_readHex4_iff.mpr digits)
    have inside : ¬(low < 0xDC00 ∨ 0xDFFF < low) := by omega
    simp only [readLowSurrogate, read, inside, ne_eq, not_true_eq_false, if_false, Outcome.view_ok,
      Taken.value_behind, Taken.rest_behind, Taken.value_map, Taken.rest_map, octets]

/-- What is read of an escape are the octets of a character that it stands for. -/
theorem escapeAt_of_readEscape {cs : Bytes} (h : (readEscape s).view = .ok (cs, t)) :
    ∃ c, EscapeAt s c t ∧ cs = String.utf8EncodeChar c := by
  rw [readEscape.eq_def] at h
  split at h
  next => cases h
  next b rest =>
    split at h
    next k letter =>
      have known := mem_escapeLetters letter
      obtain ⟨same, octets⟩ := shortEscape?_of_mem _ known
      have stands : k = (Char.ofUInt8 k).toUInt8 := Option.some.inj (letter.symm.trans same)
      cases h
      exact ⟨_, .letter known rest, (congrArg (fun d => [d]) stands).trans octets.symm⟩
    next =>
      split_ifs at h with other
      · cases h
      obtain rfl : b = 0x75 := not_not.mp other
      split at h
      next => cases h
      next r read =>
        have digits : HexAt rest r.value r.rest := view_readHex4_iff.mp (by rw [read]; rfl)
        split_ifs at h with isLow isHigh
        · cases h
        · split at h
          next => cases h
          next q half =>
            have second : (readLowSurrogate r.value r.rest).view = .ok (q.value, q.rest) := by
              rw [half]
              rfl
            obtain ⟨v, low, front, digits', range, octets⟩ := (view_readLowSurrogate_iff _).mp second
            obtain ⟨rfl, rfl⟩ : q.value = cs ∧ q.rest = t := by simpa using h
            rw [front] at digits
            have code := toNat_ofNat_of_lt
              (n := (r.value - 0xD800) * 0x400 + (low - 0xDC00) + 0x10000) (by omega) (by omega)
            refine ⟨_, .halves digits digits' isHigh range (code.trans ?_), octets⟩
            omega
        · have small := digits.lt
          have code := toNat_ofNat_of_lt (n := r.value) (by omega) (by omega)
          cases h
          exact ⟨_, .number (code.symm ▸ digits), rfl⟩

theorem view_readEscape_of_escapeAt {c : Char} (escape : EscapeAt s c t) :
    (readEscape s).view = .ok (String.utf8EncodeChar c, t) := by
  have noLetter : shortEscape? 0x75 = none := by decide
  cases escape with
  | letter letter =>
    obtain ⟨known, octets⟩ := shortEscape?_of_mem _ letter
    simp only [readEscape, known, octets]
    rfl
  | number digits =>
    have noSurrogate := toNat_not_surrogate c
    have noLow : ¬(0xDC00 ≤ c.toNat ∧ c.toNat ≤ 0xDFFF) := by omega
    have noHigh : ¬(0xD800 ≤ c.toNat ∧ c.toNat ≤ 0xDBFF) := by omega
    obtain ⟨shorter, read⟩ := Outcome.eq_of_view (view_readHex4_iff.mpr digits)
    simp only [readEscape, noLetter, read, noLow, noHigh, ne_eq, not_true_eq_false, if_false,
      Outcome.view_ok, Taken.map, Taken.value_behind, Taken.rest_behind, codePoint_toNat]
  | @halves _ _ _ _ high low first second isHigh isLow code =>
    have noLow : ¬(0xDC00 ≤ high ∧ high ≤ 0xDFFF) := by omega
    obtain ⟨shorter, read⟩ := Outcome.eq_of_view (view_readHex4_iff.mpr first)
    obtain ⟨shorter', half⟩ := Outcome.eq_of_view
      ((view_readLowSurrogate_iff high).mpr ⟨_, low, rfl, second, isLow, rfl⟩)
    have octets : codePoint ((high - 0xD800) * 0x400 + (low - 0xDC00) + 0x10000) =
        String.utf8EncodeChar c := by
      rw [← codePoint_toNat]
      exact congrArg codePoint (by omega)
    simp only [readEscape, noLetter, read, noLow, isHigh, half, ne_eq, not_true_eq_false, if_false,
      and_self, if_true, Outcome.view_ok, Taken.value_behind, Taken.rest_behind, Taken.value_within,
      Taken.rest_within, octets]

/-- An escape is read as the octets of its character. -/
theorem view_readEscape_iff {cs : Bytes} :
    (readEscape s).view = .ok (cs, t) ↔ ∃ c, EscapeAt s c t ∧ cs = String.utf8EncodeChar c := by
  constructor
  · exact escapeAt_of_readEscape
  · rintro ⟨c, escape, rfl⟩
    exact view_readEscape_of_escapeAt escape

/-! ## Characters -/

/-- Octets that begin no character stand for themselves. -/
theorem StringAt.drop {bs w : Bytes} (h : StringAt s (w ++ bs) t)
    (inside : ∀ b ∈ w, ¬b.IsUTF8FirstByte) : ∃ u, s = w ++ u ∧ StringAt u bs t := by
  induction w generalizing s with
  | nil => exact ⟨s, rfl, h⟩
  | cons b w ih =>
    generalize octets : b :: w ++ bs = all at h
    cases h with
    | close => cases octets
    | plain noQuote noEscape noControl more =>
      obtain ⟨rfl, rfl⟩ := List.cons.inj octets
      obtain ⟨u, rfl, rest⟩ := ih more fun d hd => inside d (List.mem_cons_of_mem b hd)
      exact ⟨u, rfl, rest⟩
    | escaped escape more =>
      obtain ⟨c, -, rfl⟩ := view_readEscape_iff.mp escape
      obtain ⟨d, v, first, begins, -⟩ := utf8EncodeChar_eq_cons c
      rw [first] at octets
      obtain ⟨rfl, -⟩ := List.cons.inj octets
      exact absurd begins (inside b List.mem_cons_self)

/-- A string stands for characters exactly if it spells their octets. -/
theorem stringAt_ofChars_iff {cs : List Char} : StringAt s (ofChars cs) t ↔ CharactersAt s cs t := by
  constructor
  · intro h
    induction cs generalizing s with
    | nil =>
      generalize octets : ofChars [] = all at h
      cases h with
      | close => exact .close t
      | plain => cases octets
      | escaped escape =>
        obtain ⟨c, -, rfl⟩ := view_readEscape_iff.mp escape
        exact absurd (List.append_eq_nil_iff.mp octets.symm).1 String.utf8EncodeChar_ne_nil
    | cons c cs ih =>
      generalize octets : ofChars (c :: cs) = all at h
      rw [ofChars_cons] at octets
      cases h with
      | close => exact absurd (List.append_eq_nil_iff.mp octets).1 String.utf8EncodeChar_ne_nil
      | @plain b s bs _ noQuote noEscape noControl more =>
        obtain ⟨d, w, first, -, inside⟩ := utf8EncodeChar_eq_cons c
        rw [first] at octets
        obtain ⟨rfl, rfl⟩ := List.cons.inj octets
        obtain ⟨u, rfl, rest⟩ := more.drop inside
        have ascii {e : Char} (he : e.toNat < 0x80) (same : c = e) : d = e.toUInt8 := by
          subst same
          rw [utf8EncodeChar_of_lt he] at first
          exact (List.cons.inj first).1.symm
        have here : CharactersAt (String.utf8EncodeChar c ++ u) (c :: cs) t := by
          refine .plain (fun same => ?_) (fun same => ?_) (Nat.not_lt.mp fun control => ?_) (ih rest)
          · exact noQuote (ascii (by decide) same)
          · exact noEscape (ascii (by decide) same)
          · refine noControl ?_
            rw [ascii (Nat.lt_trans control (by decide)) rfl, UInt8.lt_iff_toNat_lt,
              toNat_toUInt8 (Nat.lt_trans control (by decide))]
            exact control
        rwa [first] at here
      | escaped escape more =>
        obtain ⟨d, here, rfl⟩ := view_readEscape_iff.mp escape
        obtain ⟨rfl, rfl⟩ := utf8EncodeChar_append_inj octets
        exact .escaped here (ih more)
  · intro h
    induction h with
    | close t => exact .close t
    | plain noQuote noEscape noControl more ih =>
      rw [ofChars_cons]
      exact ih.append (plain_utf8EncodeChar noQuote noEscape (Nat.not_lt.mpr noControl))
    | escaped escape more ih =>
      rw [ofChars_cons]
      exact .escaped (view_readEscape_iff.mpr ⟨_, escape, rfl⟩) ih

/-- A string spells the octets of a text exactly if it stands for the text. -/
theorem nameAt_iff_textAt {x : String} : NameAt s x t ↔ TextAt s x t := by
  rw [NameAt, ofText_eq, stringAt_ofChars_iff, TextAt]

/-! ## Reading -/

theorem stringAt_of_scanString {done v : Bytes} {le : u.length ≤ s.length}
    (read : (scanString s done u le).view = .ok (v, t)) :
    ∃ bs, v = done.reverse ++ bs ∧ StringAt u bs t := by
  fun_induction scanString s done u le with
  | case1 => cases read
  | case2 done rest =>
    obtain ⟨rfl, rfl⟩ : done.reverse = v ∧ rest = t := by simpa using read
    exact ⟨[], by simp, .close rest⟩
  | case3 => cases read
  | case4 done rest bs u hu escape _ _ _ ih =>
    obtain ⟨cs, rfl, string⟩ := ih read
    exact ⟨bs ++ cs, by simp, .escaped (by rw [escape]; rfl) string⟩
  | case5 => cases read
  | case6 done b rest _ noQuote noEscape noControl _ ih =>
    obtain ⟨cs, rfl, string⟩ := ih read
    exact ⟨b :: cs, by simp, .plain noQuote noEscape noControl string⟩

/-- A string is read as the text that it stands for. -/
theorem view_readString_iff {x : String} : (readString s).view = .ok (x, t) ↔ TextAt s x t := by
  rw [← nameAt_iff_textAt]
  constructor
  · intro read
    rw [readString] at read
    split at read
    next => cases read
    next r scanned =>
      split at read
      next text spelled =>
        obtain ⟨rfl, rfl⟩ : text = x ∧ r.rest = t := by simpa using read
        obtain ⟨bs, octets, string⟩ := stringAt_of_scanString (by rw [scanned]; rfl)
        rw [NameAt, ofText_of_text? spelled, octets]
        exact string
      next => cases read
  · exact view_readString

end ObserverRelay.Json
