import ObserverRelay.Proofs.Url.Appending
import ObserverRelay.Url.Parser
/-!
# What a URL that was read may hold

A URL of the web is read into parts none of which holds the mark in front of a query, and its path
into pieces none of which holds a slash. So the marks that are written between the parts are the
only ones of their kind.

## Main statements

* `clear_of_parse`: no mark and no slash is hidden in a part of a URL of the web.
-/
namespace ObserverRelay.Url

open Bytes Net

variable {scheme : String} {c : Char} {cs : List Char}

/-! ## Digits -/

theorem exists_digitChar_of_mem {base n : Nat} (large : 1 < base) (mem : c ∈ Nat.toDigits base n) :
    ∃ d < base, c = Nat.digitChar d := by
  induction n using Nat.strongRecOn with
  | ind n ih =>
    rw [Nat.toDigits_eq_if large] at mem
    split at mem
    next small => exact ⟨n, small, List.mem_singleton.mp mem⟩
    next notSmall =>
      rcases List.mem_append.mp mem with front | last
      · exact ih (n / base) (Nat.div_lt_self (by omega) large) front
      · exact ⟨n % base, Nat.mod_lt n (by omega), List.mem_singleton.mp last⟩

theorem mark_not_mem_toDigits (base : Nat) (large : 1 < base) (small : base ≤ 16) (n : Nat) :
    '?' ∉ Nat.toDigits base n := by
  have other : ∀ d < 16, '?' ≠ Nat.digitChar d := by decide
  intro mem
  obtain ⟨d, below, same⟩ := exists_digitChar_of_mem large mem
  exact other d (by omega) same

/-! ## Hosts -/

theorem mark_not_mem_ipv4Chars (address : Nat) : '?' ∉ ipv4Chars address := by
  have digits (n : Nat) := mark_not_mem_toDigits 10 (by decide) (by decide) n
  simp [ipv4Chars, digits]

theorem mark_not_mem_pieceChars (pieces : List Nat) : '?' ∉ pieceChars pieces := by
  have digits (n : Nat) := mark_not_mem_toDigits 16 (by decide) (by decide) n
  fun_induction pieceChars pieces with
  | case1 => exact List.not_mem_nil
  | case2 p => exact digits p
  | case3 p rest _ ih => simp [digits, ih]

theorem mark_not_mem_ipv6Chars (pieces : Ipv6) : '?' ∉ ipv6Chars pieces := by
  rw [ipv6Chars]
  split
  next => exact mark_not_mem_pieceChars pieces
  next i n _ => simp [mark_not_mem_pieceChars]

/-- An address in brackets is one of version six. -/
theorem exists_ipv6_of_bracketed {host : Host} (read : bracketed? cs = some (.ok host)) :
    ∃ pieces, host = .ipv6 pieces := by
  unfold bracketed? at read
  split at read
  next =>
    split at read
    next =>
      split at read
      next pieces _ =>
        cases read
        exact ⟨pieces, rfl⟩
      next => cases read
    next => cases read
  next => cases read

/-- The host of a URL of the web is an address or a name without a mark. -/
theorem mark_not_mem_of_read [DomainNames] {host : Host} (read : Host.read cs = .ok host) :
    '?' ∉ host.chars := by
  unfold Host.read at read
  split at read
  next r bracketed =>
    subst read
    obtain ⟨pieces, rfl⟩ := exists_ipv6_of_bracketed bracketed
    simp [Host.chars, mark_not_mem_ipv6Chars]
  next =>
    split at read
    next => cases read
    split at read
    next => cases read
    split at read
    next => cases read
    next ascii _ =>
      split at read
      next => cases read
      next allowed =>
        split at read
        next => cases read
        next =>
          simp only at read
          split at read
          next =>
            cases address : readIpv4 (Text.splitOnMember '.' ascii) with
            | error e =>
              rw [address] at read
              cases read
            | ok n =>
              rw [address] at read
              cases read
              exact mark_not_mem_ipv4Chars n
          next =>
            cases read
            rw [Host.chars, String.toList_ofList]
            exact fun mem => allowed (List.any_eq_true.mpr ⟨'?', mem, by decide⟩)

/-! ## Authorities -/

/-- What is encoded by a set with the mark in it holds no mark. -/
theorem mark_not_mem_encodeChars {set : EncodeSet} (escaped : set 0x3F = true) (cs : List Char) :
    '?' ∉ encodeChars set cs :=
  not_mem_percentEncode (by decide) escaped _

theorem mark_not_mem_readUser (user : List Char) :
    '?' ∉ (readUser user).1.toList ∧ ∀ p ∈ (readUser user).2, '?' ∉ p.toList := by
  have encoded (part : List Char) : '?' ∉ encodeChars userInfoSet part :=
    mark_not_mem_encodeChars (by decide) part
  unfold readUser
  split <;> simp [encoded]

/-- Neither user nor host of an authority holds a mark. -/
structure Authority.Clear (a : Authority) : Prop where
  user : '?' ∉ a.userChars
  host : '?' ∉ a.hostChars

theorem Authority.clear_of {username : String} {password : Option String} {host : Host}
    (port : Option Nat) (name : '?' ∉ username.toList) (word : ∀ p ∈ password, '?' ∉ p.toList)
    (chars : '?' ∉ host.chars) : Clear ⟨username, password, host, port⟩ where
  user := by
    cases password with
    | none => by_cases empty : username = "" <;> simp [userChars, empty, name]
    | some p => simp [userChars, name, word p rfl]
  host := by
    have digits (n : Nat) := mark_not_mem_toDigits 10 (by decide) (by decide) n
    cases port <;> simp [hostChars, chars, digits]

theorem clear_of_readAuthority [DomainNames] {authority left : List Char} {ended : Bool}
    {a : Authority} (web : SchemeKind.of scheme = .web)
    (read : readAuthority scheme authority ended = .ok (a, left)) :
    a.Clear := by
  have finish {user : List Char} {hostText : List Char} {host : Host} (port : Option Nat)
      (named : Host.read hostText = .ok host) :
      Authority.Clear ⟨(readUser user).1, (readUser user).2, host, port⟩ := by
    obtain ⟨name, word⟩ := mark_not_mem_readUser user
    exact Authority.clear_of port name word (mark_not_mem_of_read named)
  unfold readAuthority at read
  split at read
  next user hostPort cut =>
    simp only [web, SchemeKind.isSpecial, if_true] at read
    split at read
    next => cases read
    split at read
    next => cases read
    split at read
    next => cases read
    next host named =>
      split at read
      next => cases read
      split at read
      next =>
        split at read
        next => cases read
        next port _ _ =>
          cases read
          exact finish port named
      next =>
        split at read
        next => cases read
        next =>
          cases read
          exact finish none named

/-! ## Paths -/

theorem mem_appendPieces {parts : List String} {segments : List (List Char)} {p : String}
    (mem : p ∈ appendPieces parts segments) :
    p ∈ parts ∨ p = "" ∨ ∃ s ∈ segments, p = String.ofList s := by
  fun_induction appendPieces parts segments with
  | case1 => exact .inl mem
  | case2 parts s =>
    rcases mem_appendPiece mem with old | empty | here
    · exact .inl old
    · exact .inr (.inl empty)
    · exact .inr (.inr ⟨s, List.mem_cons_self, here⟩)
  | case3 parts s rest _ ih =>
    rcases ih mem with before | empty | ⟨x, later, same⟩
    · rcases mem_appendPiece before with old | empty | here
      · exact .inl old
      · exact .inr (.inl empty)
      · exact .inr (.inr ⟨s, List.mem_cons_self, here⟩)
    · exact .inr (.inl empty)
    · exact .inr (.inr ⟨x, List.mem_cons_of_mem s later, same⟩)

/-- Pieces of a path that was read hold neither a slash nor a mark. -/
theorem clear_of_readSegments {special : Bool} {p : String} (mem : p ∈ readSegments special [] cs) :
    '/' ∉ p.toList ∧ '?' ∉ p.toList := by
  rcases mem_appendPieces mem with old | rfl | ⟨s, piece, rfl⟩
  · cases old
  · decide
  · obtain ⟨t, cut, rfl⟩ := List.mem_map.mp piece
    rw [String.toList_ofList]
    exact ⟨not_mem_encodeChars (by decide) (by decide) (Text.of_mem_splitOnMember cut).1,
      mark_not_mem_encodeChars (by decide) t⟩

/-- Pieces that are put to a path hold neither. -/
theorem clear_of_foldl {special : Bool} {parts texts : List String}
    (clear : ∀ p ∈ parts, '/' ∉ p.toList ∧ '?' ∉ p.toList) :
    ∀ p ∈ texts.foldl (pushSegment special) parts, '/' ∉ p.toList ∧ '?' ∉ p.toList := by
  induction texts generalizing parts with
  | nil => exact clear
  | cons t ts ih =>
    refine ih fun p mem => ?_
    rcases mem_pushSegment mem with old | rfl | ⟨cs, rfl⟩
    · exact clear p old
    · decide
    · refine ⟨slash_not_mem_pieceOf cs, ?_⟩
      rw [pieceOf, String.toList_ofList]
      exact mark_not_mem_encodeChars (by cases special <;> decide) cs

/-! ## URLs -/

/-- No mark stands before the query of the URL, and its path is cut at every slash. -/
structure Clear (u : Url) : Prop where
  origin : '?' ∉ u.originChars
  path : ∃ parts, u.path = .segments parts ∧ ∀ p ∈ parts, '/' ∉ p.toList ∧ '?' ∉ p.toList

namespace Clear
variable {u v : Url}

theorem extend? {texts : List String} (clear : u.Clear) (extended : u.extend? texts = some v) :
    v.Clear := by
  obtain ⟨parts, path, clearParts⟩ := clear.path
  unfold Url.extend? at extended
  simp only [path] at extended
  obtain rfl := Option.some.inj extended
  have shorter : ∀ p ∈ dropEmptyLast parts, p ∈ parts := by
    intro p mem
    rw [dropEmptyLast] at mem
    split at mem
    next => exact (List.dropLast_sublist parts).mem mem
    next => exact mem
  exact ⟨clear.origin, _, rfl, clear_of_foldl fun p mem => clearParts p (shorter p mem)⟩

theorem withoutUser (clear : u.Clear) : u.withoutUser.Clear where
  origin := by
    have origin := clear.origin
    rw [originChars] at origin ⊢
    cases authority : u.authority with
    | none => simpa [Url.withoutUser, authority] using origin
    | some a =>
      have nobody : ({ a with username := "", password := none } : Authority).userChars = [] := rfl
      have host : ({ a with username := "", password := none } : Authority).hostChars = a.hostChars := rfl
      simp only [authority, List.mem_append, List.mem_cons, not_or] at origin
      simp [Url.withoutUser, authority, nobody, host, origin]
  path := clear.path

/-- Something can be put to the path. -/
theorem isOpaque_eq_false (clear : u.Clear) : u.isOpaque = false := by
  obtain ⟨parts, path, -⟩ := clear.path
  rw [isOpaque, path]

/-- Without a query, nothing in front of the fragment is a mark. -/
theorem mark_not_mem (clear : u.Clear) (noQuery : u.query = none) :
    '?' ∉ u.withoutFragment.text.toList := by
  obtain ⟨parts, path, clearParts⟩ := clear.path
  have pieces : '?' ∉ segmentsChars parts := by
    simp only [segmentsChars, List.mem_flatMap, List.mem_cons, not_exists, not_and, not_or]
    exact fun p mem => ⟨by decide, (clearParts p mem).2⟩
  have chars : u.withoutFragment.chars = u.originChars ++ segmentsChars parts := by
    have origin : u.withoutFragment.originChars = u.originChars := rfl
    have same : u.withoutFragment.path.chars = segmentsChars parts := by
      rw [withoutFragment, path, Path.chars]
    have noQuery' : u.withoutFragment.query = none := noQuery
    rw [Url.chars, origin, same, noQuery']
    simp [optionalChars, withoutFragment]
  rw [Url.text, String.toList_ofList, chars, List.mem_append, not_or]
  exact ⟨clear.origin, pieces⟩

end Clear

theorem clear_readAfterAuthority {a : Authority} (clear : a.Clear) (noMark : '?' ∉ scheme.toList)
    (cs : List Char) : Clear (readAfterAuthority scheme a cs) where
  origin := by simp [readAfterAuthority, originChars, noMark, clear.user, clear.host]
  path := by
    refine ⟨_, rfl, fun p mem => ?_⟩
    split at mem
    next => cases mem
    next => exact clear_of_readSegments mem

theorem exists_of_readHierarchical [DomainNames] {u : Url}
    (read : readHierarchical scheme cs = .ok u) :
    ∃ authority ended a left rest, readAuthority scheme authority ended = .ok (a, left) ∧
      u = readAfterAuthority scheme a rest := by
  unfold readHierarchical at read
  simp only at read
  split at read
  next => cases read
  next a left authority =>
    cases read
    exact ⟨_, _, a, left, _, authority, rfl⟩

theorem scheme_of_readFile [DomainNames] {u : Url} (read : readFile cs = .ok u) :
    u.scheme = "file" := by
  unfold readFile at read
  simp only at read
  split at read
  next =>
    split at read
    next =>
      split at read
      next =>
        cases read
        rfl
      next =>
        split at read
        next => cases read
        next =>
          cases read
          rfl
    next =>
      cases read
      rfl
  next =>
    cases read
    rfl

/-- The scheme of a URL is the one that was read. -/
theorem scheme_of_readWithScheme [DomainNames] {u : Url} (read : readWithScheme scheme cs = .ok u) :
    u.scheme = scheme := by
  unfold readWithScheme at read
  split at read
  next file =>
    have named : scheme = "file" := by
      rw [SchemeKind.of] at file
      split at file
      next named => exact named
      next => split at file <;> cases file
    rw [named]
    exact scheme_of_readFile read
  next =>
    obtain ⟨_, _, _, _, _, -, rfl⟩ := exists_of_readHierarchical read
    rfl
  next =>
    split at read
    next =>
      obtain ⟨_, _, _, _, _, -, rfl⟩ := exists_of_readHierarchical read
      rfl
    next =>
      cases read
      unfold readPlain
      simp only
      split <;> rfl

/-- No mark and no slash is hidden in a part of a URL of the web. -/
theorem clear_of_parse [DomainNames] {s : String} {u : Url} (parsed : Url.parse s = .ok u)
    (web : u.scheme = "http" ∨ u.scheme = "https") : u.Clear := by
  unfold Url.parse at parsed
  simp only at parsed
  split at parsed
  next scheme rest _ =>
    rw [scheme_of_readWithScheme parsed] at web
    obtain ⟨kind, noMark⟩ : SchemeKind.of scheme = .web ∧ '?' ∉ scheme.toList := by
      rcases web with rfl | rfl <;> decide
    simp only [readWithScheme, kind] at parsed
    obtain ⟨_, _, a, _, _, authority, rfl⟩ := exists_of_readHierarchical parsed
    exact clear_readAfterAuthority (clear_of_readAuthority kind authority) noMark _
  next => cases parsed

end ObserverRelay.Url
