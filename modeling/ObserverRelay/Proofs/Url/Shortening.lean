import ObserverRelay.Proofs.Text.Trimming
import ObserverRelay.Proofs.Url.Parsed
/-!
# Shorter URLs

A text that is the URL of something on the web is still one when slashes, blanks and control
characters are taken off its end. For no host ends in such a character, so that they all belong to
the path or to what follows it.

## Main statements

* `Host.read_concat_ne_ok`: no host ends in a loose character.
* `exists_parse_of_append`: a URL of the web without loose characters at its end.
-/
namespace ObserverRelay.Url

open Bytes Net

variable {scheme : String} {c : Char} {cs tail : List Char}

/-- A control character of ASCII or white space. -/
def Loose (c : Char) : Prop := c.toNat ≤ 0x20 ∨ Text.isBlank c = true

/-- What may be taken off the end of a URL. -/
def Spare (c : Char) : Prop := c = '/' ∨ Loose c

/-- White space stands below the visible characters of ASCII or beyond all of them. -/
theorem Loose.range (loose : Loose c) : c.toNat ≤ 0x20 ∨ 0x80 ≤ c.toNat := by
  rcases loose with low | blank
  · exact .inl low
  · simp only [Text.isBlank, Bool.or_eq_true, Bool.and_eq_true, decide_eq_true_eq,
      beq_iff_eq] at blank
    omega

theorem Loose.isForbiddenInDomain (loose : Loose c) : isForbiddenInDomain c = true := by
  rcases loose with low | blank
  · simp [Url.isForbiddenInDomain, low]
  · simp [Url.isForbiddenInDomain, blank]

theorem Loose.ne {d : Char} (loose : Loose c) (above : 0x20 < d.toNat) (below : d.toNat < 0x80) :
    c ≠ d := by
  rintro rfl
  have range := loose.range
  omega

/-- Letters, digits and the signs of a scheme can be seen. -/
theorem visible_of_isSchemeChar (inside : isSchemeChar c = true) :
    0x20 < c.toNat ∧ c.toNat < 0x80 := by
  delta isSchemeChar Char.isAlphanum Char.isAlpha Char.isUpper Char.isLower Char.isDigit at inside
  simp only [Bool.or_eq_true, Bool.and_eq_true, decide_eq_true_eq, beq_iff_eq, ge_iff_le,
    UInt32.le_iff_toNat_le, Char.reduceVal, UInt32.reduceToNat] at inside
  have code : c.toNat = c.val.toNat := rfl
  rcases inside with ((((upper | lower) | digit) | rfl) | rfl) | rfl
  · omega
  · omega
  · omega
  all_goals decide

theorem Loose.isSchemeChar_eq_false (loose : Loose c) : isSchemeChar c = false := by
  rw [Bool.eq_false_iff]
  intro inside
  have visible := visible_of_isSchemeChar inside
  have range := loose.range
  omega

theorem Loose.isDigit_eq_false (loose : Loose c) : c.isDigit = false := by
  rw [Bool.eq_false_iff]
  intro digit
  have inside : isSchemeChar c = true := by simp [isSchemeChar, Char.isAlphanum, digit]
  rw [loose.isSchemeChar_eq_false] at inside
  cases inside

/-! ## Hosts -/

/-- No octet of such a character belongs to an escape. -/
theorem Loose.octets (loose : Loose c) {b : UInt8} (mem : b ∈ String.utf8EncodeChar c) :
    b.toNat ≤ 0x20 ∨ 0x80 ≤ b.toNat := by
  rcases loose.range with low | high
  · have ascii : c.toNat < 0x80 := by omega
    rw [utf8EncodeChar_of_lt ascii, List.mem_singleton] at mem
    rw [mem, toNat_toUInt8 ascii]
    exact .inl low
  · exact .inr (UInt8.le_iff_toNat_le.mp (le_of_mem_utf8EncodeChar high mem))

theorem digit?_of_loose {b : UInt8} (loose : b.toNat ≤ 0x20 ∨ 0x80 ≤ b.toNat) :
    Hex.digit? b = none := by
  have outside : ∀ m n : UInt8, 0x20 < m.toNat → n.toNat < 0x80 → ¬(m ≤ b ∧ b ≤ n) := by
    intro m n above below
    rw [UInt8.le_iff_toNat_le, UInt8.le_iff_toNat_le]
    omega
  rw [Hex.digit?, if_neg (outside _ _ (by decide) (by decide)),
    if_neg (outside _ _ (by decide) (by decide)), if_neg (outside _ _ (by decide) (by decide))]

/-- A loose character at the end of a text is still there when escapes have been resolved. -/
theorem Loose.percentDecode_concat (loose : Loose c) (cs : List Char) :
    percentDecode (ofChars (cs ++ [c])) =
      percentDecode (ofChars cs) ++ String.utf8EncodeChar c := by
  have noSign {b : UInt8} (mem : b ∈ String.utf8EncodeChar c) : b ≠ 0x25 := by
    rintro rfl
    exact absurd (loose.octets mem) (by decide)
  have one : ofChars [c] = String.utf8EncodeChar c := by rw [ofChars_cons, ofChars_nil, List.append_nil]
  rw [ofChars_append, one]
  obtain ⟨b, rest, octets⟩ := List.exists_cons_of_ne_nil (String.utf8EncodeChar_ne_nil (c := c))
  rw [octets] at noSign ⊢
  have digit := digit?_of_loose (loose.octets (b := b) (by simp [octets]))
  have plain : percentDecode rest = rest :=
    percentDecode_of_not_mem fun sign => noSign (List.mem_cons_of_mem b sign) rfl
  rw [percentDecode_append_cons (noSign List.mem_cons_self) digit, plain]

theorem bracketed?_concat (loose : Loose c) (cs : List Char) (host : Host) :
    bracketed? (cs ++ [c]) ≠ some (.ok host) := by
  unfold bracketed?
  split
  next rest bracket =>
    split
    next inner last =>
      cases cs with
      | nil => exact absurd (List.cons.inj bracket).1 (loose.ne (by decide) (by decide))
      | cons d cs =>
        obtain ⟨-, rfl⟩ := List.cons.inj bracket
        rw [List.append_eq, List.reverse_append] at last
        exact absurd (List.cons.inj last).1 (loose.ne (by decide) (by decide))
    next => simp
  next => simp

/-- No host ends in a loose character. -/
theorem Host.read_concat_ne_ok [DomainNames] (loose : Loose c) (cs : List Char) (host : Host) :
    Host.read (cs ++ [c]) ≠ .ok host := by
  intro read
  unfold Host.read at read
  split at read
  next r bracketed =>
    subst read
    exact bracketed?_concat loose cs host bracketed
  next =>
    split at read
    next => cases read
    next text decoded =>
      have octets := ofText_of_text? decoded
      rw [ofText_ofList_eq, loose.percentDecode_concat, ofText_eq] at octets
      have held : text.toList.any Url.isForbiddenInDomain = true :=
        List.any_eq_true.mpr ⟨c, mem_of_ofChars_eq_append octets, loose.isForbiddenInDomain⟩
      rw [if_pos held] at read
      cases read

/-! ## Authorities -/

/-- What stands behind the user of an authority. -/
def hostPart (authority : List Char) : List Char :=
  match splitUser? authority with
  | none => authority
  | some (_, rest) => rest

theorem hostPart_concat (other : c ≠ '@') (cs : List Char) :
    hostPart (cs ++ [c]) = hostPart cs ++ [c] := by
  have cut : splitUser? (cs ++ [c]) = (splitUser? cs).map fun p => (p.1, p.2 ++ [c]) := by
    have last : (cs ++ [c]).reverse = c :: cs.reverse := by simp
    have passes : decide (c ≠ '@') = true := decide_eq_true other
    rw [splitUser?, last, List.dropWhile_cons_of_pos (p := fun c => decide (c ≠ '@')) passes,
      List.takeWhile_cons_of_pos (p := fun c => decide (c ≠ '@')) passes, List.reverse_cons,
      splitUser?]
    cases cs.reverse.dropWhile (· ≠ '@') <;> rfl
  rw [hostPart, hostPart, cut]
  cases splitUser? cs <;> rfl

/-- A last character belongs to the host, unless a colon has ended it before. -/
theorem splitHost_concat (other : c ≠ ':') (bracket : Bool) (cs : List Char) :
    splitHost bracket (cs ++ [c]) =
      if (splitHost bracket cs).2 = [] then ((splitHost bracket cs).1 ++ [c], [])
      else ((splitHost bracket cs).1, (splitHost bracket cs).2 ++ [c]) := by
  induction cs generalizing bracket with
  | nil => simp [splitHost, other]
  | cons d cs ih =>
    rw [List.cons_append, splitHost, splitHost]
    split
    next => simp
    next =>
      generalize (if d = '[' then true else if d = ']' then false else bracket) = inside
      simp only [ih]
      by_cases whole : (splitHost inside cs).2 = [] <;> simp [whole]

/-- What an authority on the web was read from: a host, and a port if a colon follows it. -/
theorem exists_of_readAuthority [DomainNames] {authority left : List Char} {ended : Bool}
    {a : Authority} (web : SchemeKind.of scheme = .web)
    (read : readAuthority scheme authority ended = .ok (a, left)) :
    (∃ host, Host.read (splitHost false (hostPart authority)).1 = .ok host) ∧
      ∀ digits, (splitHost false (hostPart authority)).2 = ':' :: digits →
        ∃ port, readPort scheme digits = .ok port := by
  unfold readAuthority at read
  split at read
  next user hostPort cut =>
    have part : hostPart authority = hostPort := by
      rw [hostPart]
      cases split : splitUser? authority <;> rw [split] at cut <;> exact (Prod.mk.inj cut).2
    rw [part]
    simp only [web, SchemeKind.isSpecial, if_true] at read
    split at read
    next => cases read
    split at read
    next => cases read
    split at read
    next => cases read
    next host named =>
      refine ⟨⟨host, named⟩, fun digits colon => ?_⟩
      rw [colon] at read
      split at read
      next => cases read
      simp only at read
      split at read
      next => cases read
      next port _ opened => exact ⟨_, opened⟩

theorem mem_of_mem_hostPart {d : Char} (mem : d ∈ hostPart cs) : d ∈ cs := by
  rw [hostPart, splitUser?] at mem
  split at mem
  next => exact mem
  next cut =>
    split at cut
    next => cases cut
    next =>
      cases cut
      exact List.mem_reverse.mp ((List.takeWhile_sublist _).mem (List.mem_reverse.mp mem))

theorem mem_of_mem_splitHost {d : Char} {bracket : Bool} (mem : d ∈ (splitHost bracket cs).2) :
    d ∈ cs := by
  induction cs generalizing bracket with
  | nil => exact mem
  | cons e cs ih =>
    rw [splitHost] at mem
    split at mem
    next => exact mem
    next => exact List.mem_cons_of_mem e (ih mem)

theorem splitHost_colon (bracket : Bool) (cs : List Char) :
    (splitHost bracket cs).2 = [] ∨ ∃ digits, (splitHost bracket cs).2 = ':' :: digits := by
  induction cs generalizing bracket with
  | nil => exact .inl rfl
  | cons d cs ih =>
    rw [splitHost]
    split
    next colon => exact .inr ⟨cs, by rw [colon.1]⟩
    next => exact ih _

/-- No port ends in a loose character. -/
theorem readPort_concat_ne_ok {digits : List Char} (loose : Loose c) (plain : '\\' ∉ digits)
    (port : Option Nat × List Char) : readPort scheme (digits ++ [c]) ≠ .ok port := by
  intro read
  rw [readPort] at read
  split at read
  next => cases read
  split at read
  next rest =>
    have all := List.dropWhile_eq_nil_iff.mp rest c (List.mem_append_right _ List.mem_cons_self)
    rw [loose.isDigit_eq_false] at all
    cases all
  next back _ rest =>
    have inside : '\\' ∈ digits ++ [c] := (List.dropWhile_sublist _).mem (by rw [rest]; simp)
    obtain old | here := List.mem_append.mp inside
    · exact plain old
    · exact loose.ne (by decide) (by decide) (List.mem_singleton.mp here).symm
  next => cases read

/-- No authority on the web ends in a loose character. -/
theorem readAuthority_concat_ne_ok [DomainNames] {ended : Bool} (web : SchemeKind.of scheme = .web)
    (loose : Loose c) (plain : '\\' ∉ cs) (r : Authority × List Char) :
    readAuthority scheme (cs ++ [c]) ended ≠ .ok r := by
  intro read
  obtain ⟨⟨host, named⟩, ported⟩ := exists_of_readAuthority web read
  rw [hostPart_concat (loose.ne (by decide) (by decide)),
    splitHost_concat (loose.ne (by decide) (by decide))] at named ported
  split at named
  next => exact Host.read_concat_ne_ok loose _ host named
  next colon =>
    obtain none | ⟨digits, port⟩ := splitHost_colon false (hostPart cs)
    · exact colon none
    · rw [if_neg colon, port] at ported
      obtain ⟨r, opened⟩ := ported (digits ++ [c]) rfl
      refine readPort_concat_ne_ok loose (fun back => plain ?_) r opened
      exact mem_of_mem_hostPart (mem_of_mem_splitHost (port ▸ List.mem_cons_of_mem ':' back))

/-- Nothing has to follow an authority. -/
theorem readAuthority_of_ended [DomainNames] {r : Authority × List Char}
    (read : readAuthority scheme cs true = .ok r) : readAuthority scheme cs false = .ok r := by
  unfold readAuthority at read ⊢
  simp only [and_true, and_false, if_false, Bool.false_eq_true] at read ⊢
  cases cut : splitUser? cs with
  | none => simpa [cut] using read
  | some p =>
    simp only [cut] at read ⊢
    split at read
    next => cases read
    next => exact read

/-! ## URLs -/

/-- Whether a URL of the web can be read is told by its authority. -/
theorem exists_readHierarchical_iff [DomainNames] (web : SchemeKind.of scheme = .web) :
    (∃ u, readHierarchical scheme cs = .ok u) ↔
      ∃ r, readAuthority scheme (cs.takeWhile fun c => !endsAuthority true c)
        (!(cs.dropWhile fun c => !endsAuthority true c).isEmpty) = .ok r := by
  simp only [readHierarchical, web, SchemeKind.isSpecial]
  cases readAuthority scheme (cs.takeWhile fun c => !endsAuthority true c)
    (!(cs.dropWhile fun c => !endsAuthority true c).isEmpty) with
  | error e => simp
  | ok r => simp

theorem Spare.loose (spare : Spare c) (other : c ≠ '/') : Loose c := spare.resolve_left other

theorem Spare.isSchemeChar_eq_false (spare : Spare c) : isSchemeChar c = false := by
  rcases spare with rfl | loose
  · decide
  · exact loose.isSchemeChar_eq_false

/-- Behind its authority a URL may be shortened, and the authority does not reach into spare
characters. -/
theorem exists_readHierarchical_of_append [DomainNames] (web : SchemeKind.of scheme = .web)
    (spare : ∀ c ∈ tail, Spare c) {u : Url} (read : readHierarchical scheme (cs ++ tail) = .ok u) :
    ∃ v, readHierarchical scheme cs = .ok v := by
  rw [exists_readHierarchical_iff web]
  obtain ⟨r, authority⟩ := (exists_readHierarchical_iff web).mp ⟨u, read⟩
  by_cases whole : cs.dropWhile (fun c => !endsAuthority true c) = []
  · have inside := List.dropWhile_eq_nil_iff.mp whole
    rw [List.takeWhile_append_of_pos inside] at authority
    rw [List.takeWhile_eq_self_iff.mpr inside, whole]
    obtain none | ⟨front, c, more⟩ :=
      (tail.takeWhile fun c => !endsAuthority true c).eq_nil_or_concat
    · rw [none, List.append_nil] at authority
      refine ⟨r, ?_⟩
      cases ended : (!((cs ++ tail).dropWhile fun c => !endsAuthority true c).isEmpty) <;>
        rw [ended] at authority
      · exact authority
      · exact readAuthority_of_ended authority
    · have last : c ∈ tail.takeWhile fun c => !endsAuthority true c := by simp [more]
      have loose : Loose c := by
        refine (spare c ((List.takeWhile_sublist _).mem last)).loose ?_
        rintro rfl
        exact absurd (List.mem_takeWhile_imp last) (by decide)
      rw [more, List.concat_eq_append, ← List.append_assoc] at authority
      refine absurd authority (readAuthority_concat_ne_ok web loose (fun back => ?_) r)
      obtain old | new := List.mem_append.mp back
      · exact absurd (inside _ old) (by decide)
      · have inside' : '\\' ∈ tail.takeWhile fun c => !endsAuthority true c := by simp [more, new]
        exact absurd (List.mem_takeWhile_imp inside') (by decide)
  · rw [Text.takeWhile_append_of_stops whole, Text.dropWhile_append_of_stops whole] at authority
    refine ⟨r, ?_⟩
    have ended : (cs.dropWhile (fun c => !endsAuthority true c) ++ tail).isEmpty =
        (cs.dropWhile fun c => !endsAuthority true c).isEmpty := by
      rw [List.isEmpty_eq_false_iff.mpr whole]
      simp [whole]
    rwa [ended] at authority

theorem splitScheme?_eq_some_iff {rest : List Char} :
    splitScheme? cs = some (scheme, rest) ↔ (∃ c, cs.head? = some c ∧ c.isAlpha = true) ∧
      cs.dropWhile isSchemeChar = ':' :: rest ∧
      String.ofList ((cs.takeWhile isSchemeChar).map Char.toLower) = scheme := by
  unfold splitScheme?
  split
  next d ds =>
    split
    next letter =>
      split
      next found => simp [letter, found, and_comm]
      next other => exact iff_of_false (by simp) fun parts => other _ parts.2.1
    next other => simp [other]
  next => simp

/-- A scheme with its colon stands before all spare characters. -/
theorem exists_splitScheme_of_append (spare : ∀ c ∈ tail, Spare c) {rest : List Char}
    (split : splitScheme? (cs ++ tail) = some (scheme, rest)) :
    ∃ short, splitScheme? cs = some (scheme, short) ∧ rest = short ++ tail := by
  obtain ⟨letter, colon, named⟩ := splitScheme?_eq_some_iff.mp split
  have stops : cs.dropWhile isSchemeChar ≠ [] := by
    intro none
    rw [List.dropWhile_append_of_pos (List.dropWhile_eq_nil_iff.mp none)] at colon
    have inside : ':' ∈ tail := (List.dropWhile_sublist isSchemeChar).mem (by simp [colon])
    exact absurd (spare ':' inside) (by simp [Spare, Loose, Text.isBlank])
  rw [Text.dropWhile_append_of_stops stops] at colon
  rw [Text.takeWhile_append_of_stops stops] at named
  obtain ⟨d, short, found⟩ := List.exists_cons_of_ne_nil stops
  rw [found, List.cons_append] at colon
  obtain ⟨rfl, rfl⟩ := List.cons.inj colon
  refine ⟨short, splitScheme?_eq_some_iff.mpr ⟨?_, found, named⟩, rfl⟩
  cases cs with
  | nil => exact absurd rfl stops
  | cons e cs => exact letter

theorem exists_clean_append (spare : ∀ c ∈ tail, Spare c) (cs : List Char) :
    ∃ more, clean (String.ofList (cs ++ tail)) = clean (String.ofList cs) ++ more ∧
      ∀ c ∈ more, Spare c := by
  obtain ⟨more, trimmed, each⟩ := Text.exists_trimList_append (fun c => c.toNat ≤ 0x20) cs tail
  refine ⟨more.filter fun c => !isLineBreakOrTab c, ?_, fun c mem => ?_⟩
  · rw [clean, clean, String.toList_ofList, String.toList_ofList, trimmed, List.filter_append]
  · obtain low | old := each c (List.mem_of_mem_filter mem)
    · exact .inr (.inl (of_decide_eq_true low))
    · exact spare c old

/-- A URL of the web is one without spare characters at its end. -/
theorem exists_parse_of_append [DomainNames] (spare : ∀ c ∈ tail, Spare c) {u : Url}
    (parsed : Url.parse (String.ofList (cs ++ tail)) = .ok u)
    (web : u.scheme = "http" ∨ u.scheme = "https") :
    ∃ v, Url.parse (String.ofList cs) = .ok v ∧ v.scheme = u.scheme := by
  obtain ⟨more, cleaned, spare'⟩ := exists_clean_append spare cs
  unfold Url.parse at parsed ⊢
  simp only [cleaned] at parsed ⊢
  split at parsed
  next scheme rest split =>
    have named := scheme_of_readWithScheme parsed
    have kind : SchemeKind.of scheme = .web := by
      rw [named] at web
      rcases web with rfl | rfl <;> decide
    obtain ⟨short, split', rfl⟩ := exists_splitScheme_of_append spare' split
    have shortened : ∃ v, readWithScheme scheme short = .ok v := by
      simp only [readWithScheme, kind] at parsed ⊢
      by_cases whole : short.dropWhile (fun c => c == '/' || c == '\\') = []
      · rw [List.dropWhile_append_of_pos (List.dropWhile_eq_nil_iff.mp whole)] at parsed
        rw [whole]
        have spare'' : ∀ c ∈ more.dropWhile fun c => c == '/' || c == '\\', Spare c :=
          fun c mem => spare' c ((List.dropWhile_sublist _).mem mem)
        exact exists_readHierarchical_of_append kind spare'' parsed
      · rw [Text.dropWhile_append_of_stops whole] at parsed
        exact exists_readHierarchical_of_append kind spare' parsed
    obtain ⟨v, read⟩ := shortened
    simp only [split', named]
    exact ⟨v, read, scheme_of_readWithScheme read⟩
  next => cases parsed

end ObserverRelay.Url
