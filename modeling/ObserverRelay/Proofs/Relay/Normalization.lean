import Mathlib.Tactic.NthRewrite
import ObserverRelay.Proofs.Relay.Startup
import ObserverRelay.Proofs.Url.Shortening
/-!
# Checking settings again

Blanks are taken off both ends of the URL first, and then slashes off its end. A blank that stands
before these slashes comes to stand at the end and stays there. So settings that passed the check
pass it again, but they stay as they are only if there was no such blank. Each further check makes
the URL shorter, so that in the end nothing changes any more.

## Main statements

* `trimUrl_trimUrl_iff`: which URLs are trimmed at once.
* `Usable.again`: the check may be repeated.
* `check_again`: what the check leaves, and what repeating it does.
-/
namespace ObserverRelay.Relay.Settings

open Text (StartsOutside EndsOutside isBlank)
open Url (DomainNames)

variable {s t : Settings} {url : String}

/-- Behind the last blank of a URL, those at its ends aside, there are only slashes. -/
def HidesBlank (url : String) : Prop :=
  ∃ front c n, (Text.trim url).toList = front ++ c :: List.replicate n '/' ∧ isBlank c = true

/-! ## Trimming -/

theorem toList_trim (url : String) : (Text.trim url).toList = Text.trimList isBlank url.toList :=
  String.toList_ofList

theorem toList_trimUrl (url : String) :
    (trimUrl url).toList = Text.dropTrailing (· == '/') (Text.trim url).toList :=
  String.toList_ofList

theorem startsOutside_trimUrl (url : String) : StartsOutside isBlank (trimUrl url).toList := by
  rw [toList_trimUrl, toList_trim]
  exact (Text.startsOutside_trimList isBlank url.toList).dropTrailing

theorem endsOutside_trimUrl (url : String) : EndsOutside (· == '/') (trimUrl url).toList := by
  rw [toList_trimUrl]
  exact Text.endsOutside_dropTrailing _ _

theorem sublist_trimUrl (url : String) : (trimUrl url).toList.Sublist url.toList := by
  rw [toList_trimUrl, toList_trim]
  exact (Text.sublist_dropTrailing _ _).trans (Text.sublist_trimList _ _)

theorem length_trimUrl_lt (other : trimUrl url ≠ url) :
    (trimUrl url).toList.length < url.toList.length := by
  refine lt_of_le_of_ne (sublist_trimUrl url).length_le fun same => other ?_
  exact String.toList_inj.mp ((sublist_trimUrl url).eq_of_length same)

/-- A trimmed URL is trimmed again if it ends in a blank. -/
theorem trimUrl_trimUrl_iff (url : String) :
    trimUrl (trimUrl url) = trimUrl url ↔ EndsOutside isBlank (trimUrl url).toList := by
  constructor
  · intro same
    have back : (trimUrl url).toList.Sublist (Text.trimList isBlank (trimUrl url).toList) := by
      rw [← toList_trim]
      nth_rewrite 1 [← same]
      rw [toList_trimUrl]
      exact Text.sublist_dropTrailing _ _
    rw [back.antisymm (Text.sublist_trimList isBlank _)]
    exact Text.endsOutside_trimList isBlank _
  · intro ends
    rw [← String.toList_inj, toList_trimUrl, toList_trim,
      Text.trimList_of_startsOutside (startsOutside_trimUrl url), ends.dropTrailing_eq,
      (endsOutside_trimUrl url).dropTrailing_eq]

/-- It does so if a blank stood before the slashes at its end. -/
theorem endsOutside_iff (url : String) :
    EndsOutside isBlank (trimUrl url).toList ↔ ¬HidesBlank url := by
  constructor
  · rintro ends ⟨front, c, n, whole, blank⟩
    have last : (trimUrl url).toList = front ++ [c] := by
      have noSlash : EndsOutside (· == '/') (front ++ [c]) := by
        intro before d same
        obtain ⟨-, rfl⟩ := List.append_singleton_inj.mp same
        rw [beq_eq_false_iff_ne]
        rintro rfl
        exact absurd blank (by decide)
      rw [toList_trimUrl, whole, List.append_cons, Text.dropTrailing_append_of_forall (by simp),
        noSlash.dropTrailing_eq]
    rw [ends front c last] at blank
    cases blank
  · intro shown front c last
    by_contra blank
    obtain ⟨tail, whole, slashes⟩ :=
      Text.exists_eq_dropTrailing_append (· == '/') (Text.trim url).toList
    rw [← toList_trimUrl, last] at whole
    refine shown ⟨front, c, tail.length, ?_, by simpa using blank⟩
    rw [whole, List.append_assoc, List.singleton_append]
    exact congrArg (front ++ c :: ·)
      (List.eq_replicate_of_mem fun d mem => eq_of_beq (slashes d mem))

/-- Only blanks and slashes are taken off the end. -/
theorem exists_eq_trimUrl_append (starts : StartsOutside isBlank url.toList) :
    ∃ tail, url.toList = (trimUrl url).toList ++ tail ∧ ∀ c ∈ tail, Url.Spare c := by
  obtain ⟨blanks, whole, blank⟩ := Text.exists_eq_dropTrailing_append isBlank url.toList
  obtain ⟨slashes, trimmed, slash⟩ :=
    Text.exists_eq_dropTrailing_append (· == '/') (Text.trim url).toList
  rw [← Text.trimList_of_startsOutside starts, ← toList_trim, trimmed, ← toList_trimUrl] at whole
  refine ⟨slashes ++ blanks, whole.trans (List.append_assoc _ _ _), fun c mem => ?_⟩
  obtain mem | mem := List.mem_append.mp mem
  · exact .inl (eq_of_beq (slash c mem))
  · exact .inr (.inr (blank c mem))

/-! ## The check -/

section

variable [DomainNames]

/-- What is taken off the end of a URL of the web leaves one. -/
theorem WebUrl.again (web : WebUrl url) (starts : StartsOutside isBlank url.toList) :
    WebUrl (trimUrl url) := by
  obtain ⟨-, u, parsed, scheme⟩ := web
  obtain ⟨tail, whole, spare⟩ := exists_eq_trimUrl_append starts
  rw [← String.ofList_toList (s := url), whole] at parsed
  obtain ⟨v, shorter, same⟩ := Url.exists_parse_of_append spare parsed scheme
  rw [String.ofList_toList] at shorter
  refine ⟨?_, v, shorter, same ▸ scheme⟩
  rintro empty
  have refused : Url.parse "" = .error .relativeWithoutBase := rfl
  rw [empty, refused] at shorter
  cases shorter

/-- Settings that can be used can be used once their URL is trimmed. -/
theorem Usable.again (usable : s.Usable) : Usable { s with proxyUrl := trimUrl s.proxyUrl } where
  url := usable.url.again (startsOutside_trimUrl s.proxyUrl)
  timeout := usable.timeout
  maxBody := usable.maxBody

theorem proxyUrl_of_check (checked : s.check = .ok t) : t.proxyUrl = trimUrl s.proxyUrl := by
  rw [eq_of_check checked]

theorem check_of_check (checked : s.check = .ok t) :
    t.check = .ok { t with proxyUrl := trimUrl t.proxyUrl } := by
  obtain ⟨usable, rfl⟩ := check_eq_ok_iff.mp checked
  exact usable.again.check

/-- Checked settings stay as they are exactly if no blank was hidden. -/
theorem check_eq_self_iff (checked : s.check = .ok t) :
    t.check = .ok t ↔ ¬HidesBlank s.proxyUrl := by
  rw [← endsOutside_iff, ← trimUrl_trimUrl_iff, ← proxyUrl_of_check checked,
    check_of_check checked]
  cases t
  simp only [Except.ok.injEq, Settings.mk.injEq, and_true]

/-- Checks settings a number of times, each time what the last check has left. -/
def checkTimes : Nat → Settings → Except SettingsError Settings
  | 0, s => .ok s
  | n + 1, s => s.check >>= checkTimes n

/-- Each further check leaves a shorter URL or changes nothing. -/
theorem exists_fixed (checked : s.check = .ok t) :
    ∃ n fixed, n ≤ t.proxyUrl.toList.length ∧ checkTimes n t = .ok fixed ∧
      fixed.check = .ok fixed := by
  induction length : t.proxyUrl.toList.length using Nat.strongRecOn generalizing s t with
  | ind k ih =>
    have next := check_of_check checked
    by_cases same : trimUrl t.proxyUrl = t.proxyUrl
    · refine ⟨0, t, Nat.zero_le k, rfl, ?_⟩
      rw [next, same]
    · have shorter := length_trimUrl_lt same
      obtain ⟨n, fixed, bound, reached, stays⟩ := ih _ (length ▸ shorter) next rfl
      refine ⟨n + 1, fixed, by simp only at bound; omega, ?_, stays⟩
      rw [checkTimes, next]
      exact reached

/-- The check of the settings, done again. A checked URL has no blank in front and no slash at its
end. Checked settings pass the check once more. They stay as they are, and their URL does not end in
a blank, exactly if in the URL as it was given no blank stood before the slashes at the end. Further
checks always pass too, and after at most as many as the URL has characters nothing changes. -/
theorem check_again (s t : Settings) (checked : s.check = .ok t) :
    StartsOutside isBlank t.proxyUrl.toList ∧ EndsOutside (· == '/') t.proxyUrl.toList ∧
      (∃ t', t.check = .ok t') ∧ (t.check = .ok t ↔ ¬HidesBlank s.proxyUrl) ∧
      (EndsOutside isBlank t.proxyUrl.toList ↔ ¬HidesBlank s.proxyUrl) ∧
      ∃ n fixed, n ≤ t.proxyUrl.toList.length ∧ checkTimes n t = .ok fixed ∧
        fixed.check = .ok fixed := by
  refine ⟨?_, ?_, ⟨_, check_of_check checked⟩, check_eq_self_iff checked, ?_,
    exists_fixed checked⟩
  · rw [proxyUrl_of_check checked]
    exact startsOutside_trimUrl s.proxyUrl
  · rw [proxyUrl_of_check checked]
    exact endsOutside_trimUrl s.proxyUrl
  · rw [proxyUrl_of_check checked]
    exact endsOutside_iff s.proxyUrl

end

section

attribute [local instance] DomainNames.untranslated

/-- A URL between blanks and slashes is trimmed at once. -/
theorem check_again_plain :
    let s := Settings.new "\t http://proxy.test/a//  " 0
    let t := Settings.new "http://proxy.test/a" 0
    s.check = .ok t ∧ ¬HidesBlank s.proxyUrl ∧ t.check = .ok t := by
  intro s t
  have checked : s.check = .ok t := by decide +kernel
  obtain ⟨-, -, -, same, ends, -⟩ := check_again s t checked
  have last : t.proxyUrl.toList.getLast? = some 'a' := by decide
  have shown : EndsOutside isBlank t.proxyUrl.toList := by
    intro front c whole
    rw [whole, List.getLast?_concat] at last
    cases last
    decide
  exact ⟨checked, ends.mp shown, same.mpr (ends.mp shown)⟩

/-- A blank between two slashes is left at the end of the URL, and only the next check finds it. -/
theorem check_leaves_blank :
    (Settings.new "http://proxy.test/ /" 0).check = .ok (.new "http://proxy.test/ " 0) ∧
      (Settings.new "http://proxy.test/ " 0).check = .ok (.new "http://proxy.test" 0) ∧
      (Settings.new "http://proxy.test/ " 0).check ≠ .ok (.new "http://proxy.test/ " 0) ∧
      ¬EndsOutside isBlank "http://proxy.test/ ".toList := by
  have again : (Settings.new "http://proxy.test/ " 0).check = .ok (.new "http://proxy.test" 0) := by
    decide +kernel
  refine ⟨by decide +kernel, again, ?_, fun ends => ?_⟩
  · rw [again]
    decide
  · exact absurd (ends "http://proxy.test/".toList ' ' (by decide)) (by decide)

end

end ObserverRelay.Relay.Settings
