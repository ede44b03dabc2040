import ObserverRelay.Text.Bytes
import Mathlib.Data.List.Basic
/-!
# ASCII among the octets of a text

An octet below 0x80 occurs in a text only as the character of its number; all octets of other
characters are 0x80 or more. So a text can be cut at an ASCII character before or after it is
written in octets.
-/
namespace ObserverRelay.Bytes

/-- The octets of characters. -/
def ofChars (cs : List Char) : Bytes := cs.flatMap String.utf8EncodeChar

theorem ofText_eq (s : String) : ofText s = ofChars s.toList := by
  rw [← String.ofList_toList (s := s), ofText_ofList, String.toList_ofList, ofChars]

@[simp] theorem ofText_ofList_eq (cs : List Char) : ofText (String.ofList cs) = ofChars cs :=
  ofText_ofList cs

@[simp] theorem ofChars_nil : ofChars [] = [] := rfl

theorem ofChars_cons (c : Char) (cs : List Char) :
    ofChars (c :: cs) = String.utf8EncodeChar c ++ ofChars cs := rfl

@[simp] theorem ofChars_append (cs ds : List Char) :
    ofChars (cs ++ ds) = ofChars cs ++ ofChars ds := by
  simp [ofChars]

theorem toNat_toUInt8 {c : Char} (h : c.toNat < 0x80) : c.toUInt8.toNat = c.toNat := by
  change c.toNat % 256 = c.toNat
  omega

/-- An ASCII character is one octet, its number. -/
theorem utf8EncodeChar_of_lt {c : Char} (h : c.toNat < 0x80) :
    String.utf8EncodeChar c = [c.toUInt8] := by
  have size : c.utf8Size = 1 := by
    rw [Char.utf8Size_eq_one_iff, UInt32.le_iff_toNat_le]
    exact Nat.le_of_lt_succ h
  exact String.utf8EncodeChar_eq_singleton size

theorem ofChars_cons_of_lt {c : Char} (h : c.toNat < 0x80) (cs : List Char) :
    ofChars (c :: cs) = c.toUInt8 :: ofChars cs := by
  rw [ofChars_cons, utf8EncodeChar_of_lt h]
  rfl

theorem le_or {a m : UInt8} (h : 0x80 ≤ m) : 0x80 ≤ a ||| m := by
  rw [UInt8.le_iff_toNat_le] at h ⊢
  rw [UInt8.toNat_or]
  exact Nat.le_trans h Nat.right_le_or

/-- No octet of a character beyond ASCII is that of an ASCII character. -/
theorem le_of_mem_utf8EncodeChar {c : Char} (h : 0x80 ≤ c.toNat) {b : UInt8}
    (hb : b ∈ String.utf8EncodeChar c) : 0x80 ≤ b := by
  have long : c.utf8Size ≠ 1 := by
    rw [ne_eq, Char.utf8Size_eq_one_iff, UInt32.le_iff_toNat_le]
    exact Nat.not_le_of_lt h
  obtain size | size | size | size := c.utf8Size_eq
  · exact absurd size long
  · rw [String.utf8EncodeChar_eq_cons_cons size] at hb
    simp only [List.mem_cons, List.not_mem_nil, or_false] at hb
    rcases hb with rfl | rfl <;> exact le_or (by decide)
  · rw [String.utf8EncodeChar_eq_cons_cons_cons size] at hb
    simp only [List.mem_cons, List.not_mem_nil, or_false] at hb
    rcases hb with rfl | rfl | rfl <;> exact le_or (by decide)
  · rw [String.utf8EncodeChar_eq_cons_cons_cons_cons size] at hb
    simp only [List.mem_cons, List.not_mem_nil, or_false] at hb
    rcases hb with rfl | rfl | rfl | rfl <;> exact le_or (by decide)

/-- An ASCII character occurs among characters when its octet occurs among theirs. -/
theorem mem_ofChars_iff {c : Char} (h : c.toNat < 0x80) {cs : List Char} :
    c.toUInt8 ∈ ofChars cs ↔ c ∈ cs := by
  rw [ofChars]
  rw [List.mem_flatMap]
  constructor
  · rintro ⟨d, hd, hb⟩
    by_cases hs : d.toNat < 0x80
    · rw [utf8EncodeChar_of_lt hs, List.mem_singleton] at hb
      have same : c.toNat = d.toNat := by
        rw [← toNat_toUInt8 h, ← toNat_toUInt8 hs, hb]
      obtain rfl : c = d := Char.ext (UInt32.toNat_inj.mp same)
      exact hd
    · have big := le_of_mem_utf8EncodeChar (Nat.le_of_not_lt hs) hb
      rw [UInt8.le_iff_toNat_le, toNat_toUInt8 h] at big
      exact absurd h (Nat.not_lt_of_le big)
  · intro hc
    exact ⟨c, hc, by rw [utf8EncodeChar_of_lt h]; simp⟩

/-! ## Octets of one character -/

/-- Behind its first octet a character has only octets that begin none. -/
theorem utf8EncodeChar_eq_cons (c : Char) : ∃ b w, String.utf8EncodeChar c = b :: w ∧
    b.IsUTF8FirstByte ∧ ∀ d ∈ w, ¬d.IsUTF8FirstByte := by
  obtain ⟨b, w, octets⟩ := List.exists_cons_of_ne_nil (String.utf8EncodeChar_ne_nil (c := c))
  have at_ (i : Nat) (h : i < (String.utf8EncodeChar c).length) :
      ((String.utf8EncodeChar c)[i]).IsUTF8FirstByte ↔ i = 0 :=
    UInt8.isUTF8FirstByte_getElem_utf8EncodeChar
  simp only [octets] at at_
  refine ⟨b, w, octets, (at_ 0 (by simp)).mpr rfl, fun d hd first => ?_⟩
  obtain ⟨i, hi, rfl⟩ := List.mem_iff_getElem.mp hd
  have zero := (at_ (i + 1) (by simpa using hi)).mp (by simpa using first)
  exact Nat.succ_ne_zero i zero

theorem utf8EncodeChar_injective {c d : Char}
    (same : String.utf8EncodeChar c = String.utf8EncodeChar d) : c = d := by
  have texts : String.ofList [c] = String.ofList [d] := by
    apply ofText_injective
    rw [ofText_ofList_eq, ofText_ofList_eq, ofChars_cons, ofChars_cons, same]
  exact (List.cons.inj (String.ofList_injective texts)).1

/-- The octets of a character do not end in those of another one. -/
theorem eq_of_utf8EncodeChar_suffix {c d : Char}
    (ends : String.utf8EncodeChar c <:+ String.utf8EncodeChar d) : c = d := by
  obtain ⟨a, v, octets, begins, -⟩ := utf8EncodeChar_eq_cons c
  obtain ⟨b, w, octets', -, inside⟩ := utf8EncodeChar_eq_cons d
  rw [octets'] at ends
  rcases List.suffix_cons_iff.mp ends with same | within
  · exact utf8EncodeChar_injective (same.trans octets'.symm)
  · have here : a ∈ w := within.mem (by rw [octets]; exact List.mem_cons_self)
    exact absurd begins (inside a here)

/-- A text whose octets end in those of a character ends in this character. -/
theorem mem_of_ofChars_eq_append {c : Char} {cs : List Char} {bs : Bytes}
    (octets : ofChars cs = bs ++ String.utf8EncodeChar c) : c ∈ cs := by
  obtain rfl | ⟨ds, d, rfl⟩ := cs.eq_nil_or_concat
  · have empty := (List.append_eq_nil_iff.mp octets.symm).2
    exact absurd empty String.utf8EncodeChar_ne_nil
  · rw [List.concat_eq_append, ofChars_append, ofChars_cons, ofChars_nil, List.append_nil] at octets
    have ends : String.utf8EncodeChar d <:+ bs ++ String.utf8EncodeChar c :=
      octets ▸ List.suffix_append _ _
    have last : d = c := by
      rcases List.suffix_or_suffix_of_suffix ends (List.suffix_append _ _) with short | long
      · exact eq_of_utf8EncodeChar_suffix short
      · exact (eq_of_utf8EncodeChar_suffix long).symm
    simp [last]

/-! ## Octets as characters -/

theorem toNat_ofNat_octet (b : UInt8) : (Char.ofNat b.toNat).toNat = b.toNat := by
  have bound := b.toNat_lt
  have valid : b.toNat.isValidChar := .inl (by omega)
  rw [Char.ofNat, dif_pos valid]
  rfl

theorem toUInt8_ofNat_octet (b : UInt8) : (Char.ofNat b.toNat).toUInt8 = b := by
  have bound := b.toNat_lt
  apply UInt8.toNat_inj.mp
  change (Char.ofNat b.toNat).toNat % 256 = b.toNat
  rw [toNat_ofNat_octet]
  omega

/-- ASCII characters are one octet each. -/
theorem ofChars_eq_map {cs : List Char} (ascii : ∀ c ∈ cs, c.toNat < 0x80) :
    ofChars cs = cs.map Char.toUInt8 := by
  induction cs with
  | nil => rfl
  | cons c cs ih =>
    obtain ⟨here, others⟩ := List.forall_mem_cons.mp ascii
    rw [ofChars_cons_of_lt here, ih others, List.map_cons]

theorem ofChars_octet {b : UInt8} (small : b.toNat < 0x80) : ofChars [Char.ofNat b.toNat] = [b] := by
  have code : (Char.ofNat b.toNat).toNat < 0x80 := by
    rwa [toNat_ofNat_octet]
  rw [ofChars_cons_of_lt code, toUInt8_ofNat_octet, ofChars_nil]

/-- Octets of ASCII are a text. -/
theorem ofText_lossyText {bs : Bytes} (ascii : ∀ b ∈ bs, b.toNat < 0x80) :
    ofText (lossyText bs) = bs := by
  obtain ⟨s, rfl⟩ : ∃ s, ofText s = bs := by
    refine ⟨String.ofList (bs.map fun b => Char.ofNat b.toNat), ?_⟩
    rw [ofText_ofList_eq]
    induction bs with
    | nil => rfl
    | cons b bs ih =>
      obtain ⟨here, others⟩ := List.forall_mem_cons.mp ascii
      rw [List.map_cons, ← List.singleton_append, ofChars_append, ofChars_octet here, ih others]
      rfl
  rw [lossyText_ofText]

end ObserverRelay.Bytes
