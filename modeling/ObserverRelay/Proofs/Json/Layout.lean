import ObserverRelay.Proofs.Json.Grammar
import ObserverRelay.Proofs.Text.Ascii
/-!
# What the printer writes spells the value

Strings are written so that they are read back, whatever characters they hold: the quote, the
backslash and control characters as escapes, all others as their octets. Around them the layout
puts brackets, commas and line breaks only.

## Main statements

* `stringAt_stringChars`: a printed string spells its text.
* `spelled_indented`: the indented layout of a value spells the value.
-/
namespace ObserverRelay.Json

open Bytes

variable {s t u : Bytes}

/-! ## Strings -/

theorem StringAt.append {bs cs : Bytes} (h : StringAt s bs t)
    (plain : ∀ b ∈ cs, b ≠ 0x22 ∧ b ≠ 0x5C ∧ ¬b < 0x20) : StringAt (cs ++ s) (cs ++ bs) t := by
  induction cs with
  | nil => exact h
  | cons b cs ih =>
    obtain ⟨noQuote, noEscape, noControl⟩ := plain b List.mem_cons_self
    exact .plain noQuote noEscape noControl (ih fun c hc => plain c (List.mem_cons_of_mem _ hc))

/-- The four digits of an escape by number. -/
theorem unicodeEscape_eq (n : Nat) :
    unicodeEscape n = ['\\', 'u', Hex.digitChar (n / 4096 % 16), Hex.digitChar (n / 256 % 16),
      Hex.digitChar (n / 16 % 16), Hex.digitChar (n % 16)] := by
  have digit (k : Nat) :
      (if k < 10 then Char.ofNat (48 + k) else Char.ofNat (87 + k)) = Hex.digitChar k := by
    rw [Hex.digitChar]
    split
    · rfl
    · congr 1
      simp only [show 'a'.toNat = 97 from rfl]
      omega
  simp only [unicodeEscape, digit]

theorem ofChars_digitChar {k : Nat} (h : k < 16) (cs : List Char) :
    ofChars (Hex.digitChar k :: cs) = (Hex.digitChar k).toUInt8 :: ofChars cs := by
  rw [ofChars_cons, (Hex.digit?_digitChar h).1]
  rfl

/-- Four digits are read as the number they are the digits of. -/
theorem view_readHex4 {n : Nat} (h : n < 65536) (s : Bytes) :
    (readHex4 ((Hex.digitChar (n / 4096 % 16)).toUInt8 :: (Hex.digitChar (n / 256 % 16)).toUInt8 ::
      (Hex.digitChar (n / 16 % 16)).toUInt8 :: (Hex.digitChar (n % 16)).toUInt8 :: s)).view =
      .ok (n, s) := by
  have digit (k : Nat) : Hex.digit? (Hex.digitChar (k % 16)).toUInt8 = some (k % 16) :=
    (Hex.digit?_digitChar (Nat.mod_lt k (by decide))).2
  have value : ((n / 4096 % 16 * 16 + n / 256 % 16) * 16 + n / 16 % 16) * 16 + n % 16 = n := by
    omega
  simp only [readHex4, digit, Outcome.view_ok, Taken.value_behind, Taken.rest_behind]
  simp only [Taken.first, value]

/-- The escape of a control character stands for that character. -/
theorem readEscape_unicode {c : Char} (h : c.toNat < 0x20) (s : Bytes) :
    ∃ e, ofChars (unicodeEscape c.toNat) = 0x5C :: e ∧
      (readEscape (e ++ s)).view = .ok (String.utf8EncodeChar c, s) := by
  have small (k : Nat) : k % 16 < 16 := Nat.mod_lt k (by decide)
  refine ⟨0x75 :: [(Hex.digitChar (c.toNat / 4096 % 16)).toUInt8,
    (Hex.digitChar (c.toNat / 256 % 16)).toUInt8, (Hex.digitChar (c.toNat / 16 % 16)).toUInt8,
    (Hex.digitChar (c.toNat % 16)).toUInt8], ?_, ?_⟩
  · rw [unicodeEscape_eq, ofChars_cons_of_lt (by decide), ofChars_cons_of_lt (by decide),
      ofChars_digitChar (small _), ofChars_digitChar (small _), ofChars_digitChar (small _),
      ofChars_digitChar (small _)]
    rfl
  · obtain ⟨shorter, read⟩ := Outcome.eq_of_view (view_readHex4 (show c.toNat < 65536 by omega) s)
    have low : ¬(0xDC00 ≤ c.toNat ∧ c.toNat ≤ 0xDFFF) := by omega
    have high : ¬(0xD800 ≤ c.toNat ∧ c.toNat ≤ 0xDBFF) := by omega
    have noLetter : shortEscape? 0x75 = none := by decide
    simp only [List.cons_append, List.nil_append, readEscape, noLetter, ne_eq, not_true_eq_false,
      if_false, read, low, high, codePoint, Outcome.view_ok, Taken.value_behind, Taken.rest_behind,
      Taken.value_map, Taken.rest_map, Char.ofNat_toNat]

/-! ## Characters -/

/-- The escape of a character by one letter. -/
theorem readEscape_short {b c : UInt8} (h : shortEscape? b = some c) (s : Bytes) :
    (readEscape (b :: s)).view = .ok ([c], s) := by
  simp only [readEscape, h]
  rfl

/-- The octets of a character that needs no escape need none. -/
theorem plain_utf8EncodeChar {c : Char} (noQuote : c ≠ '"') (noEscape : c ≠ '\\')
    (noControl : ¬c.toNat < 0x20) :
    ∀ b ∈ String.utf8EncodeChar c, b ≠ 0x22 ∧ b ≠ 0x5C ∧ ¬b < 0x20 := by
  intro b hb
  have whole : b ∈ ofChars [c] := by
    rw [ofChars_cons, ofChars_nil, List.append_nil]
    exact hb
  refine ⟨?_, ?_, ?_⟩
  · rintro rfl
    have quote := (mem_ofChars_iff (c := '"') (by decide)).mp whole
    exact noQuote (List.mem_singleton.mp quote).symm
  · rintro rfl
    have escape := (mem_ofChars_iff (c := '\\') (by decide)).mp whole
    exact noEscape (List.mem_singleton.mp escape).symm
  · rw [UInt8.lt_iff_toNat_lt]
    by_cases ascii : c.toNat < 0x80
    · rw [utf8EncodeChar_of_lt ascii, List.mem_singleton] at hb
      rw [hb, toNat_toUInt8 ascii]
      exact noControl
    · have big := le_of_mem_utf8EncodeChar (Nat.le_of_not_lt ascii) hb
      rw [UInt8.le_iff_toNat_le] at big
      exact fun small => absurd (Nat.lt_of_le_of_lt big small) (by decide)

/-- A character is written so that it is read back. -/
theorem StringAt.escapeChar {bs : Bytes} (c : Char) (h : StringAt s bs t) :
    StringAt (ofChars (escapeChar c) ++ s) (String.utf8EncodeChar c ++ bs) t := by
  simp only [Json.escapeChar]
  split
  iterate 7 exact .escaped (readEscape_short (by decide) s) h
  · split
    next control =>
      obtain ⟨e, chars, read⟩ := readEscape_unicode control s
      rw [chars]
      exact .escaped read h
    next noQuote noEscape _ _ _ _ _ noControl =>
      rw [ofChars_cons, ofChars_nil, List.append_nil]
      exact h.append (plain_utf8EncodeChar noQuote noEscape noControl)

/-- A printed string is read as its text, from behind its opening quote. -/
theorem stringAt_stringChars (x : String) (t : Bytes) :
    ∃ s, ofChars (stringChars x) ++ t = 0x22 :: s ∧ StringAt s (ofText x) t := by
  refine ⟨ofChars (x.toList.flatMap escapeChar ++ ['"']) ++ t, ?_, ?_⟩
  · rw [stringChars, ofChars_cons_of_lt (by decide)]
    rfl
  · rw [ofText_eq, ofChars_append, List.append_assoc,
      show ofChars ['"'] ++ t = 0x22 :: t from rfl]
    induction x.toList with
    | nil => exact .close t
    | cons c cs ih =>
      rw [List.flatMap_cons, ofChars_append, List.append_assoc, ofChars_cons]
      exact .escapeChar c ih

/-! ## Values -/

/-- A value all of whose numbers are integers that fit into 64 bits. -/
inductive Value.Whole : Value → Prop
  | null : Whole .null
  | bool (b : Bool) : Whole (.bool b)
  | integer {n : Int} (low : -(Numeral.signedBound64 : Int) ≤ n) (high : n < Numeral.bound64) :
      Whole (.ofInt n)
  | string (x : String) : Whole (.string x)
  | array {xs : List Value} (items : ∀ x ∈ xs, Whole x) : Whole (.array xs)
  | object {ms : Members} (members : ∀ m ∈ ms, Whole m.2) : Whole (.object ms)

theorem Spelled.of_skipSpace_eq {v : Value} (h : skipSpace u = skipSpace s) (spelled : Spelled s v t) :
    Spelled u v t := by
  cases spelled with
  | null word => exact .null (h.trans word)
  | yes word => exact .yes (h.trans word)
  | no word => exact .no (h.trans word)
  | integer low high stops digits => exact .integer low high stops (h.trans digits)
  | string quote content => exact .string (h.trans quote) content
  | array bracket items => exact .array (h.trans bracket) items
  | object brace members => exact .object (h.trans brace) members

theorem isSpace_lineBreak (depth : Nat) : ∀ b ∈ ofChars (lineBreak depth), isSpace b = true := by
  have blank : ∀ n, ofChars (List.replicate n ' ') = List.replicate n 0x20 := by
    intro n
    induction n with
    | zero => rfl
    | succ n ih =>
      rw [List.replicate_succ, ofChars_cons_of_lt (by decide), ih]
      rfl
  intro b hb
  rw [lineBreak, ofChars_cons_of_lt (by decide), blank, List.mem_cons, List.mem_replicate] at hb
  rcases hb with rfl | ⟨-, rfl⟩
  · decide
  · decide

theorem stops_cons {b : UInt8} (h : isDigit b = false ∧ b ≠ 0x2E ∧ b ≠ 0x65 ∧ b ≠ 0x45) (s : Bytes) :
    Stops (b :: s) := by
  intro c hc
  obtain rfl : b = c := by simpa using hc
  exact h

theorem stops_lineBreak (depth : Nat) (s : Bytes) : Stops (ofChars (lineBreak depth) ++ s) := by
  rw [lineBreak, ofChars_cons_of_lt (by decide), List.cons_append]
  exact stops_cons (by decide) _

/-- The octets before an item that is the first or not. -/
def lead : Bool → Bytes
  | true => []
  | false => [0x2C]

theorem separated_lead (first : Bool) {w : Bytes} (blank : ∀ b ∈ w, isSpace b = true) (s : Bytes) :
    Separated first (lead first ++ (w ++ s)) (skipSpace s) := by
  cases first with
  | true => exact .first (skipSpace_append blank s)
  | false => exact .comma (skipSpace_of_not_isSpace (by decide) (w ++ s)) (skipSpace_append blank s)

/-- One item on a line of its own. -/
theorem itemsAt_line (first : Bool) {depth : Nat} {v : Value} {vs : List Value}
    (item : Spelled (ofChars (v.indentedChars depth) ++ u) v u)
    (more : ItemsAt Spelled false u vs t) :
    ItemsAt Spelled first (lead first ++ (ofChars (lineBreak depth ++ v.indentedChars depth) ++ u))
      (v :: vs) t := by
  rw [ofChars_append, List.append_assoc]
  exact .more (separated_lead first (isSpace_lineBreak depth) _)
    (item.of_skipSpace_eq (skipSpace_skipSpace _)) more

/-- One member on a line of its own. -/
theorem membersAt_line (first : Bool) {depth : Nat} {k : String} {v : Value} {ms : Members}
    (value : Spelled (ofChars (v.indentedChars depth) ++ u) v u)
    (more : MembersAt NameAt Spelled false u ms t) :
    MembersAt NameAt Spelled first (lead first ++ (ofChars (lineBreak depth ++ stringChars k ++
      ':' :: ' ' :: v.indentedChars depth) ++ u)) ((k, v) :: ms) t := by
  have separated := separated_lead first (isSpace_lineBreak depth)
  obtain ⟨w, quote, name⟩ := stringAt_stringChars k
    (0x3A :: 0x20 :: (ofChars (v.indentedChars depth) ++ u))
  have front : skipSpace (ofChars (stringChars k) ++
      0x3A :: 0x20 :: (ofChars (v.indentedChars depth) ++ u)) = 0x22 :: w := by
    rw [quote, skipSpace_of_not_isSpace (by decide)]
  have blank : skipSpace (0x20 :: (ofChars (v.indentedChars depth) ++ u)) =
      skipSpace (ofChars (v.indentedChars depth) ++ u) := rfl
  rw [ofChars_append, ofChars_append, ofChars_cons_of_lt (by decide), ofChars_cons_of_lt (by decide),
    List.append_assoc, List.append_assoc]
  exact .more (front ▸ separated _) name (skipSpace_of_not_isSpace (by decide) _)
    (value.of_skipSpace_eq blank) more

theorem itemsAt_indented {depth : Nat} {vs : List Value} {tail : Bytes} (first : Bool)
    (nonempty : vs ≠ []) (close : skipSpace tail = 0x5D :: t) (stops : Stops tail)
    (spelled : ∀ v ∈ vs, ∀ u, Stops u → Spelled (ofChars (v.indentedChars depth) ++ u) v u) :
    ItemsAt Spelled first (lead first ++ (ofChars (indentedItems depth vs) ++ tail)) vs t := by
  induction vs generalizing first with
  | nil => exact absurd rfl nonempty
  | cons v vs ih =>
    have here := spelled v List.mem_cons_self
    cases vs with
    | nil => exact itemsAt_line first (here tail stops) (.done close)
    | cons w vs =>
      have rest := ih false (List.cons_ne_nil w vs) fun x hx => spelled x (List.mem_cons_of_mem v hx)
      rw [indentedItems, ofChars_append, ofChars_cons_of_lt (by decide), List.append_assoc]
      · exact itemsAt_line first (here _ (stops_cons (by decide) _)) rest
      · exact List.cons_ne_nil w vs

theorem membersAt_indented {depth : Nat} {ms : Members} {tail : Bytes} (first : Bool)
    (nonempty : ms ≠ []) (close : skipSpace tail = 0x7D :: t) (stops : Stops tail)
    (spelled : ∀ m ∈ ms, ∀ u, Stops u → Spelled (ofChars (m.2.indentedChars depth) ++ u) m.2 u) :
    MembersAt NameAt Spelled first (lead first ++ (ofChars (indentedMembers depth ms) ++ tail)) ms t := by
  induction ms generalizing first with
  | nil => exact absurd rfl nonempty
  | cons m ms ih =>
    obtain ⟨k, v⟩ := m
    have here := spelled (k, v) List.mem_cons_self
    cases ms with
    | nil => exact membersAt_line first (here tail stops) (.done close)
    | cons n ms =>
      have rest := ih false (List.cons_ne_nil n ms) fun x hx => spelled x (List.mem_cons_of_mem _ hx)
      rw [indentedMembers, ofChars_append, ofChars_cons_of_lt (by decide), List.append_assoc]
      · exact membersAt_line first (here _ (stops_cons (by decide) _)) rest
      · exact List.cons_ne_nil n ms

/-- The indented layout of a value spells the value. -/
theorem spelled_indented {v : Value} (whole : v.Whole) (depth : Nat) {t : Bytes} (stops : Stops t) :
    Spelled (ofChars (v.indentedChars depth) ++ t) v t := by
  -- A value is whole when its parts are, so induction on this reaches the parts at any depth.
  induction whole generalizing depth t with
  | null => exact .null (skipSpace_of_not_isSpace (by decide) _)
  | bool b =>
    cases b with
    | true => exact .yes (skipSpace_of_not_isSpace (by decide) _)
    | false => exact .no (skipSpace_of_not_isSpace (by decide) _)
  | @integer n low high =>
    exact .integer low high stops (skipSpace_integerChars n t)
  | string x =>
    obtain ⟨s, quote, content⟩ := stringAt_stringChars x t
    refine .string ?_ content
    rw [Value.indentedChars, quote, skipSpace_of_not_isSpace (by decide)]
  | @array vs items ih =>
    cases vs with
    | nil => exact .array (skipSpace_of_not_isSpace (by decide) _) (.done rfl)
    | cons v vs =>
      have close : skipSpace (ofChars (lineBreak depth) ++ 0x5D :: t) = 0x5D :: t := by
        rw [skipSpace_append (isSpace_lineBreak depth), skipSpace_of_not_isSpace (by decide)]
      have inside := itemsAt_indented true (List.cons_ne_nil v vs) close (stops_lineBreak depth _)
        fun x hx u => ih x hx (depth + 1)
      refine .array ?_ inside
      rw [Value.indentedChars, ofChars_cons_of_lt (by decide), List.cons_append,
        skipSpace_of_not_isSpace (by decide), ofChars_append, ofChars_append]
      simp only [List.append_assoc]
      rfl
  | @object ms members ih =>
    cases ms with
    | nil => exact .object (skipSpace_of_not_isSpace (by decide) _) (.done rfl)
    | cons m ms =>
      have close : skipSpace (ofChars (lineBreak depth) ++ 0x7D :: t) = 0x7D :: t := by
        rw [skipSpace_append (isSpace_lineBreak depth), skipSpace_of_not_isSpace (by decide)]
      have inside := membersAt_indented true (List.cons_ne_nil m ms) close (stops_lineBreak depth _)
        fun x hx u => ih x hx (depth + 1)
      refine .object ?_ inside
      rw [Value.indentedChars, ofChars_cons_of_lt (by decide), List.cons_append,
        skipSpace_of_not_isSpace (by decide), ofChars_append, ofChars_append]
      simp only [List.append_assoc]
      rfl

end ObserverRelay.Json
