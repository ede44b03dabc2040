import ObserverRelay.Proofs.Text.Pieces
import ObserverRelay.Proofs.Url.Escapes
import ObserverRelay.Url.Form
/-!
# Pairs are read back from a query

In an encoded name or value every sign that has a meaning in a query is escaped, so the list of
pairs is read back as it was: in order, with what is repeated and what is empty. Queries that are
joined are read as the pairs of one and then those of the other.

## Main statements

* `decode_encode`: pairs are read back.
* `decode_append`: queries that are joined have the pairs of both.
-/
namespace ObserverRelay.Url.Form

open Bytes

variable {b : UInt8} {c : Char}

/-! ## Names and values -/

/-- A space for a plus sign, which stands for one. -/
def unplus (b : UInt8) : UInt8 := if b = 0x2B then 0x20 else b

/-- No sign with a meaning in a query stands for itself. -/
theorem toNat_of_isPlain (plain : isPlain b = true) :
    b.toNat < 0x80 ∧ b.toNat ≠ 0x25 ∧ b.toNat ≠ 0x26 ∧ b.toNat ≠ 0x2B ∧ b.toNat ≠ 0x3D := by
  have each : ∀ n < 256, isPlain (UInt8.ofNat n) = true →
      n < 0x80 ∧ n ≠ 0x25 ∧ n ≠ 0x26 ∧ n ≠ 0x2B ∧ n ≠ 0x3D := by
    decide +kernel
  exact each b.toNat b.toNat_lt (by rwa [UInt8.ofNat_toNat])

theorem mem_encodeOctet (mem : c ∈ encodeOctet b) : c ≠ '&' ∧ c ≠ '=' := by
  rw [encodeOctet] at mem
  split at mem
  next =>
    rw [List.mem_singleton] at mem
    subst mem
    decide
  next =>
    split at mem
    next plain =>
      obtain ⟨-, -, noAmp, -, noEquals⟩ := toNat_of_isPlain plain
      rw [List.mem_singleton] at mem
      have code : c.toNat = b.toNat := by rw [mem, toNat_ofNat_octet]
      rw [← code] at noAmp noEquals
      exact ⟨fun same => noAmp (by rw [same]; rfl), fun same => noEquals (by rw [same]; rfl)⟩
    next =>
      have signs : ∀ c ∈ escapeSigns, c ≠ '&' ∧ c ≠ '=' := by simp [escapeSigns]
      exact signs c (mem_escapeSigns mem)

/-- An encoded octet is read back. -/
theorem percentDecode_encodeOctet (b : UInt8) (rest : Bytes) :
    percentDecode ((ofChars (encodeOctet b)).map unplus ++ rest) = b :: percentDecode rest := by
  rw [encodeOctet]
  by_cases space : b = 0x20
  · subst space
    rw [if_pos rfl]
    exact percentDecode_cons_of_ne (by decide) rest
  · rw [if_neg space]
    by_cases plain : isPlain b = true
    · obtain ⟨ascii, noSign, -, noPlus, -⟩ := toNat_of_isPlain plain
      have kept : unplus b = b := if_neg fun plus => noPlus (by rw [plus]; rfl)
      rw [if_pos plain, ofChars_octet ascii, List.map_singleton, kept]
      exact percentDecode_cons_of_ne (fun sign => noSign (by rw [sign]; rfl)) rest
    · have noPlus : ∀ c ∈ escapeSigns, unplus c.toUInt8 = c.toUInt8 := by
        simpa [escapeSigns] using by decide
      have kept : ((escapeOctet b).map Char.toUInt8).map unplus = (escapeOctet b).map Char.toUInt8 := by
        rw [List.map_map]
        exact List.map_congr_left fun c mem => noPlus c (mem_escapeSigns mem)
      rw [if_neg plain, ofChars_escapeOctet, kept, percentDecode_escapeOctet]

/-- A name or a value is read back. -/
theorem decodePart_encodePart (s : String) : decodePart (ofChars (encodePart s)) = s := by
  have octets (bs : Bytes) :
      percentDecode ((ofChars (bs.flatMap encodeOctet)).map unplus) = bs := by
    induction bs with
    | nil => rfl
    | cons b bs ih =>
      rw [List.flatMap_cons, ofChars_append, List.map_append, percentDecode_encodeOctet, ih]
  rw [decodePart]
  exact (congrArg lossyText (octets (ofText s))).trans (lossyText_ofText s)

/-- Neither the sign between pairs nor that inside of them occurs in a name or a value. -/
theorem separators_not_mem (s : String) :
    0x26 ∉ ofChars (encodePart s) ∧ 0x3D ∉ ofChars (encodePart s) := by
  have amp : '&'.toUInt8 = 0x26 := by decide
  have equals : '='.toUInt8 = 0x3D := by decide
  rw [← amp, ← equals, mem_ofChars_iff (by decide), mem_ofChars_iff (by decide), encodePart]
  simp only [List.mem_flatMap, not_exists, not_and]
  exact ⟨fun b _ mem => (mem_encodeOctet mem).1 rfl, fun b _ mem => (mem_encodeOctet mem).2 rfl⟩

/-! ## Pairs -/

theorem ofChars_encodePair (p : String × String) :
    ofChars (encodePair p) = ofChars (encodePart p.1) ++ 0x3D :: ofChars (encodePart p.2) := by
  rw [encodePair, ofChars_append, ofChars_cons_of_lt (by decide)]
  rfl

/-- A pair is read back. -/
theorem decodePair_encodePair (p : String × String) : decodePair (ofChars (encodePair p)) = p := by
  have name : ∀ b ∈ ofChars (encodePart p.1), decide (b ≠ 0x3D) = true := by
    intro b mem
    rw [decide_eq_true_eq]
    rintro rfl
    exact (separators_not_mem p.1).2 mem
  rw [decodePair, ofChars_encodePair, List.takeWhile_append_of_pos name,
    List.dropWhile_append_of_pos name]
  simp [decodePart_encodePart]

theorem amp_not_mem_encodePair (p : String × String) : 0x26 ∉ ofChars (encodePair p) := by
  rw [ofChars_encodePair]
  simp [separators_not_mem]

theorem encodePair_ne_nil (p : String × String) : ofChars (encodePair p) ≠ [] := by
  rw [ofChars_encodePair]
  simp

/-- Queries that are joined have the pairs of the one and then those of the other. -/
theorem decode_append (xs ys : Bytes) : decode (xs ++ 0x26 :: ys) = decode xs ++ decode ys := by
  rw [decode, Text.splitOnMember_append_cons, List.filter_append, List.map_append]
  rfl

theorem decode_encodePair (p : String × String) : decode (ofChars (encodePair p)) = [p] := by
  rw [decode, Text.splitOnMember_of_not_mem (amp_not_mem_encodePair p)]
  simp [encodePair_ne_nil, decodePair_encodePair]

/-- Pairs are read back in order, whatever texts they hold. -/
theorem decode_encode (pairs : List (String × String)) : decode (ofText (encode pairs)) = pairs := by
  rw [encode, ofText_ofList_eq]
  fun_induction encodeChars pairs with
  | case1 => rfl
  | case2 p => exact decode_encodePair p
  | case3 p rest _ ih =>
    have amp : ofChars ('&' :: encodeChars rest) = 0x26 :: ofChars (encodeChars rest) :=
      ofChars_cons_of_lt (by decide) _
    rw [ofChars_append, amp, decode_append, decode_encodePair, ih]
    rfl

/-- Only a list without pairs is written as nothing. -/
theorem encode_eq_empty_iff {pairs : List (String × String)} : encode pairs = "" ↔ pairs = [] := by
  constructor
  · intro empty
    have decoded := decode_encode pairs
    rw [empty] at decoded
    exact decoded.symm
  · rintro rfl
    rfl

end ObserverRelay.Url.Form
