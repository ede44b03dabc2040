import ObserverRelay.Net.MediaType
import Mathlib.Data.List.TakeWhile
/-!
# Which texts name a media type that is JSON

A media type is read off a text from left to right, each part as long as it goes on. What the texts
are is said here without a reader: tokens, quoted values and parameters between semicolons. A
quoted value holds no escapes, but its first character may be a quote.

JSON is `application/json` and every type of `application` whose subtype ends in `+json`. So is one
whose subtype is `json` with another suffix: the suffix does not count.

## Main statements

* `areParameters_iff`: the texts that are parameters.
* `read?_eq_some_iff`: the texts that name a media type.
* `namesJson_iff`: the headers that name JSON.
-/
namespace ObserverRelay.Net.MediaType

variable {cs rest : List Char}

/-! ## What the texts are -/

/-- A token. -/
structure IsToken (cs : List Char) : Prop where
  nonempty : cs ≠ []
  chars : ∀ c ∈ cs, isTokenChar c = true

/-- The value of a parameter, with the spaces behind it if it is quoted. -/
inductive IsValue : List Char → Prop
  | token {cs : List Char} (chars : ∀ c ∈ cs, isTokenChar c = true) : IsValue cs
  | quoted {c : Char} {cs spaces : List Char} (first : isQuotable c = true)
      (others : ∀ d ∈ cs, isQuotable d = true ∧ d ≠ '"') (blank : ∀ d ∈ spaces, d = ' ') :
      IsValue ('"' :: c :: (cs ++ '"' :: spaces))

/-- A value and what follows it: nothing, or what is behind a semicolon. Only the last value may be
empty. -/
inductive ValueAt : List Char → List Char → Prop
  | last {cs : List Char} (value : IsValue cs) : ValueAt cs []
  | more {cs : List Char} (value : IsValue cs) (given : cs ≠ []) (rest : List Char) :
      ValueAt (cs ++ ';' :: rest) rest

/-- A parameter and what follows it. -/
inductive ParameterAt : List Char → List Char → Prop
  | of {name cs rest : List Char} (token : IsToken name) (value : ValueAt cs rest) :
      ParameterAt (name ++ '=' :: cs) rest

/-- Parameters, each behind any number of spaces. -/
inductive AreParameters : List Char → Prop
  | none {spaces : List Char} (blank : ∀ c ∈ spaces, c = ' ') : AreParameters spaces
  | more {spaces cs rest : List Char} (blank : ∀ c ∈ spaces, c = ' ')
      (parameter : ParameterAt cs rest) (more : AreParameters rest) : AreParameters (spaces ++ cs)

/-- The media type with these two names; case does not count. -/
def ofNames (type subtype : List Char) : MediaType :=
  ⟨Text.asciiLower (String.ofList type), Text.asciiLower (String.ofList subtype)⟩

/-- A text names a media type. Without a subtype there are no parameters either. -/
inductive Names : List Char → MediaType → Prop
  | bare {type subtype : List Char} (token : IsToken type)
      (chars : ∀ c ∈ subtype, isTokenChar c = true) :
      Names (type ++ '/' :: subtype) (ofNames type subtype)
  | withParameters {type subtype cs : List Char} (token : IsToken type) (token' : IsToken subtype)
      (parameters : AreParameters cs) :
      Names (type ++ '/' :: (subtype ++ ';' :: cs)) (ofNames type subtype)

/-- The subtypes of JSON. -/
inductive IsJsonSubtype : List Char → Prop
  | plain : IsJsonSubtype "json".toList
  | suffix {front : List Char} (nonempty : front ≠ []) : IsJsonSubtype (front ++ "+json".toList)
  | suffixed {suffix : List Char} (noPlus : '+' ∉ suffix) :
      IsJsonSubtype ("json+".toList ++ suffix)

/-- A text names JSON. -/
structure IsJsonType (text : String) : Prop where
  visible : ∀ c ∈ text.toList, isVisible c = true
  names : ∃ m, Names text.toList m ∧ m.type = "application" ∧ IsJsonSubtype m.subtype.toList

/-! ## Reading -/

section Cut
variable {p : Char → Bool} {c : Char}

/-- Dropping stops at the first character without the property. -/
theorem dropWhile_eq_cons_iff :
    cs.dropWhile p = c :: rest ↔
      ∃ front, cs = front ++ c :: rest ∧ (∀ d ∈ front, p d = true) ∧ p c = false := by
  constructor
  · intro h
    refine ⟨cs.takeWhile p, ?_, fun d mem => List.mem_takeWhile_imp mem, ?_⟩
    · rw [← h, List.takeWhile_append_dropWhile]
    · have stops := List.head?_dropWhile_not p cs
      rw [h] at stops
      simpa using stops
  · rintro ⟨front, rfl, all, stops⟩
    rw [List.dropWhile_append_of_pos all, List.dropWhile_cons_of_neg (by simp [stops])]

end Cut

theorem behindQuoted?_eq_some_iff :
    behindQuoted? cs = some rest ↔ ∃ c inner, cs = c :: (inner ++ '"' :: rest) ∧
      isQuotable c = true ∧ ∀ d ∈ inner, isQuotable d = true ∧ d ≠ '"' := by
  cases cs with
  | nil => simp [behindQuoted?]
  | cons c cs =>
    by_cases first : isQuotable c = true
    · rw [behindQuoted?, if_pos first]
      dsimp only
      constructor
      · intro h
        split at h
        next closed =>
          obtain ⟨inner, rfl, others, -⟩ := dropWhile_eq_cons_iff.mp closed
          cases h
          exact ⟨c, inner, rfl, first, by simpa using others⟩
        next => cases h
      · rintro ⟨c', inner, same, -, others⟩
        obtain ⟨rfl, rfl⟩ := List.cons.inj same
        rw [dropWhile_eq_cons_iff.mpr ⟨inner, rfl, by simpa using others, by simp⟩]
        rfl
    · rw [behindQuoted?, if_neg first]
      refine iff_of_false nofun ?_
      rintro ⟨c', inner, same, first', -⟩
      exact first ((List.cons.inj same).1 ▸ first')

/-- Of a quoted value only spaces may be left before the semicolon. -/
theorem behindValue?_quoted {c : Char} {inner : List Char} (first : isQuotable c = true)
    (others : ∀ d ∈ inner, isQuotable d = true ∧ d ≠ '"') :
    behindValue? ('"' :: c :: (inner ++ '"' :: cs)) =
      match cs.dropWhile (· == ' ') with
      | [] => some []
      | ';' :: more => some more
      | _ => none := by
  have quoted : behindQuoted? (c :: (inner ++ '"' :: cs)) = some cs :=
    behindQuoted?_eq_some_iff.mpr ⟨c, inner, rfl, first, others⟩
  rw [behindValue?]
  split
  next none => cases none.symm.trans quoted
  next rest found =>
    cases found.symm.trans quoted
    rfl

theorem behindValue?_of_noQuote (noQuote : cs.head? ≠ some '"') :
    behindValue? cs =
      match cs.dropWhile isTokenChar with
      | [] => some []
      | ';' :: more => if cs.head? = some ';' then none else some more
      | _ => none := by
  unfold behindValue?
  split
  next => exact absurd rfl noQuote
  next => rfl

theorem noQuote_of_token (chars : ∀ c ∈ cs, isTokenChar c = true) (given : cs ≠ [])
    (rest : List Char) : (cs ++ rest).head? ≠ some '"' := by
  obtain ⟨c, cs, rfl⟩ := List.exists_cons_of_ne_nil given
  rintro ⟨⟩
  exact absurd (chars '"' List.mem_cons_self) (by decide)

theorem valueAt_of_behindValue? (read : behindValue? cs = some rest) : ValueAt cs rest := by
  by_cases quote : cs.head? = some '"'
  · obtain ⟨text, rfl⟩ : ∃ text, cs = '"' :: text := List.head?_eq_some_iff.mp quote
    cases quoted : behindQuoted? text with
    | none => simp [behindValue?, quoted] at read
    | some left =>
      obtain ⟨c, inner, rfl, first, others⟩ := behindQuoted?_eq_some_iff.mp quoted
      rw [behindValue?_quoted first others] at read
      split at read
      next empty =>
        cases read
        exact .last (.quoted first others (by simpa using empty))
      next more found =>
        cases read
        obtain ⟨spaces, rfl, blank, -⟩ := dropWhile_eq_cons_iff.mp found
        have value := IsValue.quoted first others (by simpa using blank)
        simpa using ValueAt.more value (List.cons_ne_nil _ _) rest
      next => cases read
  · rw [behindValue?_of_noQuote quote] at read
    split at read
    next empty =>
      cases read
      exact .last (.token (by simpa using empty))
    next more found =>
      split_ifs at read with bare
      cases read
      obtain ⟨value, rfl, chars, -⟩ := dropWhile_eq_cons_iff.mp found
      refine .more (.token chars) ?_ rest
      rintro rfl
      exact bare rfl
    next => cases read

theorem ValueAt.behindValue?_eq (value : ValueAt cs rest) : behindValue? cs = some rest := by
  cases value with
  | last value =>
    cases value with
    | token chars =>
      by_cases empty : cs = []
      · subst empty
        rfl
      · have noQuote := noQuote_of_token chars empty []
        rw [List.append_nil] at noQuote
        rw [behindValue?_of_noQuote noQuote, List.dropWhile_eq_nil_iff.mpr chars]
    | quoted first others blank =>
      rw [behindValue?_quoted first others, List.dropWhile_eq_nil_iff.mpr (by simpa using blank)]
  | @more value value' given rest =>
    cases value' with
    | token chars =>
      have noSemicolon : (value ++ ';' :: rest).head? ≠ some ';' := by
        obtain ⟨c, value, rfl⟩ := List.exists_cons_of_ne_nil given
        rintro ⟨⟩
        exact absurd (chars ';' List.mem_cons_self) (by decide)
      rw [behindValue?_of_noQuote (noQuote_of_token chars given _),
        dropWhile_eq_cons_iff.mpr ⟨value, rfl, chars, by decide⟩]
      exact if_neg noSemicolon
    | @quoted c inner spaces first others blank =>
      have found : (spaces ++ ';' :: rest).dropWhile (· == ' ') = ';' :: rest :=
        dropWhile_eq_cons_iff.mpr ⟨spaces, rfl, by simpa using blank, by decide⟩
      rw [List.cons_append, List.cons_append, List.append_assoc, List.cons_append,
        behindValue?_quoted first others, found]
      rfl

theorem behindValue?_eq_some_iff : behindValue? cs = some rest ↔ ValueAt cs rest :=
  ⟨valueAt_of_behindValue?, ValueAt.behindValue?_eq⟩

theorem behindParameter?_eq_some_iff : behindParameter? cs = some rest ↔ ParameterAt cs rest := by
  constructor
  · intro read
    unfold behindParameter? at read
    split at read
    next value found =>
      split_ifs at read with bare
      obtain ⟨name, rfl, chars, -⟩ := dropWhile_eq_cons_iff.mp found
      refine .of ⟨?_, chars⟩ (behindValue?_eq_some_iff.mp read)
      rintro rfl
      exact bare rfl
    next => cases read
  · rintro ⟨token, value⟩
    rename_i name cs
    have found : (name ++ '=' :: cs).dropWhile isTokenChar = '=' :: cs :=
      dropWhile_eq_cons_iff.mpr ⟨name, rfl, token.chars, by decide⟩
    have noSign : (name ++ '=' :: cs).head? ≠ some '=' := by
      obtain ⟨c, name, rfl⟩ := List.exists_cons_of_ne_nil token.nonempty
      rintro ⟨⟩
      exact absurd (token.chars '=' List.mem_cons_self) (by decide)
    rw [behindParameter?, found]
    exact (if_neg noSign).trans (behindValue?_eq_some_iff.mpr value)

theorem ParameterAt.length_lt (parameter : ParameterAt cs rest) : rest.length < cs.length := by
  cases parameter with
  | of token value =>
    cases value with
    | last =>
      rw [List.length_append, List.length_cons, List.length_nil]
      omega
    | more =>
      simp only [List.length_append, List.length_cons]
      omega

/-- A parameter does not begin with a space. -/
theorem ParameterAt.exists_cons (parameter : ParameterAt cs rest) : ∃ c cs', cs = c :: cs' ∧ c ≠ ' ' := by
  cases parameter with
  | @of name cs _ token value =>
    obtain ⟨c, name, rfl⟩ := List.exists_cons_of_ne_nil token.nonempty
    refine ⟨c, name ++ '=' :: cs, rfl, ?_⟩
    rintro rfl
    exact absurd (token.chars ' ' List.mem_cons_self) (by decide)

theorem areParameters_iff {fuel : Nat} (enough : cs.length < fuel) :
    areParameters fuel cs = true ↔ AreParameters cs := by
  induction fuel generalizing cs with
  | zero => cases enough
  | succ fuel ih =>
    rw [areParameters]
    split
    next blank => exact iff_of_true rfl (.none (by simpa using blank))
    next c left found =>
      constructor
      · intro read
        split at read
        next more taken =>
          have parameter := behindParameter?_eq_some_iff.mp taken
          have shorter := parameter.length_lt
          obtain ⟨spaces, rfl, blank, -⟩ := dropWhile_eq_cons_iff.mp found
          rw [List.length_append] at enough
          exact .more (by simpa using blank) parameter ((ih (by omega)).mp read)
        next => cases read
      · intro parameters
        cases parameters with
        | none blank =>
          rw [List.dropWhile_eq_nil_iff.mpr (by simpa using blank)] at found
          cases found
        | @more spaces _ rest blank parameter more =>
          obtain ⟨d, tail, rfl, noSpace⟩ := parameter.exists_cons
          have shorter := parameter.length_lt
          -- The spaces are dropped up to where the parameter begins.
          have found' : (spaces ++ d :: tail).dropWhile (· == ' ') = d :: tail :=
            dropWhile_eq_cons_iff.mpr ⟨spaces, rfl, by simpa using blank, by simpa using noSpace⟩
          rw [found'] at found
          obtain ⟨rfl, rfl⟩ := List.cons.inj found
          rw [behindParameter?_eq_some_iff.mpr parameter]
          rw [List.length_append] at enough
          exact (ih (by omega)).mpr more

/-! ## Media types -/

theorem IsToken.takeWhile_eq {token : List Char} (isToken : IsToken token) (tail : List Char) :
    (token ++ '/' :: tail).takeWhile isTokenChar = token := by
  rw [List.takeWhile_append_of_pos isToken.chars, List.takeWhile_cons_of_neg (by decide),
    List.append_nil]

theorem IsToken.dropWhile_eq {token : List Char} (isToken : IsToken token) (tail : List Char) :
    (token ++ '/' :: tail).dropWhile isTokenChar = '/' :: tail :=
  dropWhile_eq_cons_iff.mpr ⟨token, rfl, isToken.chars, by decide⟩

theorem isToken_star : IsToken ['*'] := ⟨nofun, List.forall_mem_singleton.mpr (by decide)⟩

/-- What is read behind the slash. -/
theorem read?_of_isToken {s : String} {type tail : List Char} (noStar : s ≠ "*/*")
    (token : IsToken type) (written : s.toList = type ++ '/' :: tail) :
    read? s =
      match tail.dropWhile isTokenChar with
      | [] => some (ofNames type (tail.takeWhile isTokenChar))
      | ';' :: parameters =>
        if tail.takeWhile isTokenChar ≠ [] ∧ areParameters (parameters.length + 1) parameters = true then
          some (ofNames type (tail.takeWhile isTokenChar))
        else none
      | _ => none := by
  have front := token.takeWhile_eq tail
  have behind := token.dropWhile_eq tail
  simp only [read?, if_neg noStar, written, front, behind]
  obtain ⟨c, type, rfl⟩ := List.exists_cons_of_ne_nil token.nonempty
  rfl

theorem exists_isToken_of_read? {s : String} {m : MediaType} (noStar : s ≠ "*/*")
    (read : read? s = some m) : ∃ type tail, IsToken type ∧ s.toList = type ++ '/' :: tail := by
  simp only [read?, if_neg noStar] at read
  split at read
  next => cases read
  next type tail behind nonempty =>
    obtain ⟨front, written, chars, -⟩ := dropWhile_eq_cons_iff.mp behind
    refine ⟨front, tail, ⟨?_, chars⟩, written⟩
    rintro rfl
    refine nonempty ?_
    rw [written]
    rfl
  next => cases read

theorem names_of_read? {s : String} {m : MediaType} (read : read? s = some m) : Names s.toList m := by
  by_cases star : s = "*/*"
  · subst star
    cases read
    exact .bare isToken_star isToken_star.chars
  · obtain ⟨type, tail, token, written⟩ := exists_isToken_of_read? star read
    rw [read?_of_isToken star token written] at read
    rw [written]
    split at read
    next empty =>
      have all := List.dropWhile_eq_nil_iff.mp empty
      rw [List.takeWhile_eq_self_iff.mpr all] at read
      cases read
      exact .bare token all
    next parameters found =>
      split_ifs at read with well
      cases read
      obtain ⟨subtype, rfl, chars, -⟩ := dropWhile_eq_cons_iff.mp found
      rw [List.takeWhile_append_of_pos chars, List.takeWhile_cons_of_neg (by decide),
        List.append_nil] at well ⊢
      exact .withParameters token ⟨well.1, chars⟩ ((areParameters_iff (Nat.lt_succ_self _)).mp well.2)
    next => cases read

theorem names_star {m : MediaType} (names : Names ['*', '/', '*'] m) : m = ⟨"*", "*"⟩ := by
  have star {type tail : List Char} (token : IsToken type)
      (written : ['*', '/', '*'] = type ++ '/' :: tail) : type = ['*'] ∧ tail = ['*'] := by
    have front := token.takeWhile_eq tail
    have behind := token.dropWhile_eq tail
    rw [← written] at front behind
    exact ⟨front.symm, (List.cons.inj behind).2.symm⟩
  generalize written : ['*', '/', '*'] = cs at names
  cases names with
  | bare token chars =>
    obtain ⟨rfl, rfl⟩ := star token written
    rfl
  | @withParameters type subtype cs token token' parameters =>
    obtain ⟨-, none⟩ := star token written
    have semicolon : ';' ∈ ['*'] := by
      rw [← none]
      simp
    exact absurd semicolon (by decide)

theorem Names.read?_eq {s : String} {m : MediaType} (names : Names s.toList m) :
    read? s = some m := by
  by_cases star : s = "*/*"
  · subst star
    rw [names_star names]
    rfl
  · generalize written : s.toList = cs at names
    cases names with
    | @bare type subtype token chars =>
      rw [read?_of_isToken star token written, List.dropWhile_eq_nil_iff.mpr chars,
        List.takeWhile_eq_self_iff.mpr chars]
    | @withParameters type subtype cs token token' parameters =>
      rw [read?_of_isToken star token written,
        dropWhile_eq_cons_iff.mpr ⟨subtype, rfl, token'.chars, by decide⟩,
        List.takeWhile_append_of_pos token'.chars, List.takeWhile_cons_of_neg (by decide),
        List.append_nil]
      exact if_pos ⟨token'.nonempty, (areParameters_iff (Nat.lt_succ_self _)).mpr parameters⟩

theorem read?_eq_some_iff {s : String} {m : MediaType} : read? s = some m ↔ Names s.toList m :=
  ⟨names_of_read?, Names.read?_eq⟩

/-! ## JSON -/

section Suffix
variable {front suffix : List Char}

theorem splitSuffix_of_not_mem (noPlus : '+' ∉ cs) : splitSuffix cs = (cs, none) := by
  have none : cs.reverse.dropWhile (· ≠ '+') = [] := by
    rw [List.dropWhile_eq_nil_iff]
    intro c mem
    exact decide_eq_true (ne_of_mem_of_not_mem (List.mem_reverse.mp mem) noPlus)
  simp only [splitSuffix, none, List.drop_nil]

/-- The last plus sign counts, unless it is the first character. -/
theorem splitSuffix_append_cons (noPlus : '+' ∉ suffix) :
    splitSuffix (front ++ '+' :: suffix) =
      if front = [] then ('+' :: suffix, none) else (front, some suffix) := by
  have plain : ∀ c ∈ suffix.reverse, decide (c ≠ '+') = true := fun c mem =>
    decide_eq_true (ne_of_mem_of_not_mem (List.mem_reverse.mp mem) noPlus)
  have reversed : (front ++ '+' :: suffix).reverse = suffix.reverse ++ '+' :: front.reverse := by
    simp
  have taken : (front ++ '+' :: suffix).reverse.takeWhile (· ≠ '+') = suffix.reverse := by
    rw [reversed, List.takeWhile_append_of_pos plain, List.takeWhile_cons_of_neg (by decide),
      List.append_nil]
  have left : (front ++ '+' :: suffix).reverse.dropWhile (· ≠ '+') = '+' :: front.reverse := by
    rw [reversed, List.dropWhile_append_of_pos plain, List.dropWhile_cons_of_neg (by decide)]
  rw [splitSuffix, taken, left, List.drop_succ_cons, List.drop_zero]
  by_cases empty : front = []
  · subst empty
    rfl
  · obtain ⟨c, rest, behind⟩ := List.exists_cons_of_ne_nil (List.reverse_ne_nil_iff.mpr empty)
    rw [if_neg empty, behind]
    simp only [← behind, List.reverse_reverse]

theorem exists_last {c : Char} (mem : c ∈ cs) :
    ∃ front suffix, cs = front ++ c :: suffix ∧ c ∉ suffix := by
  obtain ⟨before, after, reversed, absent⟩ :=
    List.eq_append_cons_of_mem (List.mem_reverse.mpr mem)
  refine ⟨after.reverse, before.reverse, ?_, by simpa using absent⟩
  rw [← List.reverse_reverse cs, reversed]
  simp

theorem isJsonSubtype_iff :
    ((splitSuffix cs).1 = "json".toList ∨ (splitSuffix cs).2 = some "json".toList) ↔
      IsJsonSubtype cs := by
  constructor
  · intro json
    by_cases plus : '+' ∈ cs
    · obtain ⟨front, suffix, rfl, noPlus⟩ := exists_last plus
      rw [splitSuffix_append_cons noPlus] at json
      by_cases empty : front = []
      · rw [if_pos empty] at json
        rcases json with whole | none
        · exact absurd (List.cons.inj whole).1 (by decide)
        · cases none
      · rw [if_neg empty] at json
        rcases json with rfl | named
        · exact .suffixed noPlus
        · rw [Option.some.inj named]
          exact .suffix empty
    · rw [splitSuffix_of_not_mem plus] at json
      obtain rfl := json.resolve_right nofun
      exact .plain
  · intro json
    cases json with
    | plain =>
      left
      rw [splitSuffix_of_not_mem (by decide)]
    | @suffix front nonempty =>
      have split : splitSuffix (front ++ '+' :: "json".toList) = (front, some "json".toList) :=
        (splitSuffix_append_cons (by decide)).trans (if_neg nonempty)
      exact .inr (congrArg Prod.snd split)
    | @suffixed suffix noPlus =>
      have split : splitSuffix ("json".toList ++ '+' :: suffix) = ("json".toList, some suffix) :=
        (splitSuffix_append_cons noPlus).trans (if_neg (by decide))
      exact .inl (congrArg Prod.fst split)

theorem isJson_iff {m : MediaType} :
    m.isJson = true ↔ m.type = "application" ∧ IsJsonSubtype m.subtype.toList := by
  rw [← isJsonSubtype_iff]
  simp [isJson]

end Suffix

/-- A header names JSON exactly if its text does. -/
theorem namesJson_iff {header : Option String} :
    namesJson header = true ↔ ∃ text, header = some text ∧ IsJsonType text := by
  cases header with
  | none => exact iff_of_false nofun nofun
  | some text =>
    rw [namesJson, Bool.and_eq_true, List.all_eq_true, Option.any_eq_true]
    constructor
    · rintro ⟨visible, m, read, json⟩
      exact ⟨text, rfl, visible, m, read?_eq_some_iff.mp read, isJson_iff.mp json⟩
    · rintro ⟨_, ⟨rfl⟩, visible, m, names, json⟩
      exact ⟨visible, m, read?_eq_some_iff.mpr names, isJson_iff.mpr json⟩

end ObserverRelay.Net.MediaType
