import ObserverRelay.Records.Format
import ObserverRelay.Text.Blank
/-!
# The form in which records are kept

The text of records written out: an object of five members on a line each, in a fixed order and
none left out, four spaces for each level, and a line break at the end. A list with nothing in it
stays on its line.

## Main statements

* `text_eq_canonical`: records are written in this form.
-/
namespace ObserverRelay.Records

open Json Text

/-- A text with its quotes, written with as few escapes as possible. -/
def quoted (x : String) : String := String.ofList (stringChars x)

/-- A list in a member, one entry a line. -/
def listText : List String → String
  | [] => "[]"
  | entries => "[" ++ joinWith "," (entries.map ("\n        " ++ ·)) ++ "\n    ]"

/-- A member of an object on a line of its own. -/
def memberText (line name body : String) : String := line ++ quoted name ++ ": " ++ body

/-- A contract in a list. -/
def contractText (c : ContractRecord) : String :=
  "\x7b" ++ joinWith "," [
    memberText "\n            " "tag" (quoted c.tag),
    memberText "\n            " "address" (quoted c.address)] ++ "\n        \x7d"

/-- The records as they are kept. -/
def canonical (r : Records) : String :=
  "\x7b" ++ joinWith "," [
    memberText "\n    " "contracts" (listText (r.contracts.map contractText)),
    memberText "\n    " "customCurrencies" (listText (r.customCurrencies.map quoted)),
    memberText "\n    " "nonFungibleTokens" (listText (r.nonFungibleTokens.map quoted)),
    memberText "\n    " "semiFungibleTokens" (listText (r.semiFungibleTokens.map quoted)),
    memberText "\n    " "runTransactions" (listText (r.runTransactions.map quoted))] ++ "\n\x7d\n"

/-- The form by example. -/
example : canonical ⟨[⟨"adder", "erd1"⟩], [], ["N-1", "N-2"], [], []⟩ =
    "\x7b\n    \"contracts\": [\n        \x7b\n            \"tag\": \"adder\",\n" ++
      "            \"address\": \"erd1\"\n        \x7d\n    ],\n    \"customCurrencies\": [],\n" ++
      "    \"nonFungibleTokens\": [\n        \"N-1\",\n        \"N-2\"\n    ],\n" ++
      "    \"semiFungibleTokens\": [],\n    \"runTransactions\": []\n\x7d\n" := by
  decide +kernel

theorem toList_joinWith_cons (sep x y : String) (xs : List String) :
    (joinWith sep (x :: y :: xs)).toList =
      x.toList ++ sep.toList ++ (joinWith sep (y :: xs)).toList := by
  simp [joinWith]

/-- Items in the indented layout, each behind its line break. -/
theorem indentedItems_eq {α : Type} (f : α → Value) (g : α → String) (depth : Nat)
    (same : ∀ a, (g a).toList = (f a).indentedChars depth) (as : List α) :
    indentedItems depth (as.map f) =
      (joinWith "," ((as.map g).map (String.ofList (lineBreak depth) ++ ·))).toList := by
  induction as with
  | nil => rfl
  | cons a as ih =>
    cases as with
    | nil => simp [indentedItems, joinWith, same]
    | cons b as =>
      simp only [List.map_cons] at ih ⊢
      rw [toList_joinWith_cons, indentedItems, ih]
      · simp [same]
      · simp

theorem listText_eq {α : Type} (f : α → Value) (g : α → String)
    (same : ∀ a, (g a).toList = (f a).indentedChars 2) (as : List α) :
    (Value.array (as.map f)).indentedChars 1 = (listText (as.map g)).toList := by
  cases as with
  | nil => simp [Value.indentedChars, listText]
  | cons a as =>
    have items := indentedItems_eq f g 2 same (a :: as)
    simp only [List.map_cons] at items ⊢
    rw [Value.indentedChars, items, listText]
    · simp only [String.toList_append, List.append_assoc]
      rfl
    · simp

theorem toList_quoted (x : String) (depth : Nat) :
    (quoted x).toList = (Value.string x).indentedChars depth := by
  simp [quoted, Value.indentedChars]

/-- The last member of an object in the indented layout, its line break being `line`. -/
theorem indentedMembers_last {depth : Nat} {line : String} (lead : line.toList = lineBreak depth)
    (k : String) {v : Value} {body : String} (same : v.indentedChars depth = body.toList) :
    indentedMembers depth [(k, v)] = (joinWith "," [memberText line k body]).toList := by
  simp [indentedMembers, joinWith, memberText, lead, quoted, same]

/-- A member with others behind it. -/
theorem indentedMembers_more {depth : Nat} {line : String} (lead : line.toList = lineBreak depth)
    (k : String) {v : Value} {body other : String} {m : String × Value} {ms : Members}
    {others : List String} (same : v.indentedChars depth = body.toList)
    (rest : indentedMembers depth (m :: ms) = (joinWith "," (other :: others)).toList) :
    indentedMembers depth ((k, v) :: m :: ms) =
      (joinWith "," (memberText line k body :: other :: others)).toList := by
  rw [toList_joinWith_cons, indentedMembers, rest]
  · simp [memberText, lead, quoted, same]
  · simp

theorem toList_contractText (c : ContractRecord) :
    (contractText c).toList = c.toValue.indentedChars 2 := by
  have lead : "\n            ".toList = lineBreak 3 := by decide
  have address := indentedMembers_last lead "address" (toList_quoted c.address 3).symm
  have members := indentedMembers_more lead "tag" (toList_quoted c.tag 3).symm address
  rw [ContractRecord.toValue, Value.indentedChars, members, contractText]
  simp [lineBreak]

/-- Records are written in their form. -/
theorem text_eq_canonical (r : Records) : r.text = r.canonical := by
  have lead : "\n    ".toList = lineBreak 1 := by decide
  have texts (xs : List String) := listText_eq _ _ (toList_quoted · 2) xs
  have runTransactions := indentedMembers_last lead "runTransactions" (texts r.runTransactions)
  have semiFungible :=
    indentedMembers_more lead "semiFungibleTokens" (texts r.semiFungibleTokens) runTransactions
  have nonFungible :=
    indentedMembers_more lead "nonFungibleTokens" (texts r.nonFungibleTokens) semiFungible
  have currencies :=
    indentedMembers_more lead "customCurrencies" (texts r.customCurrencies) nonFungible
  have members := indentedMembers_more lead "contracts"
    (listText_eq _ _ toList_contractText r.contracts) currencies
  apply String.toList_injective
  rw [text, Value.renderIndented, toValue, String.toList_append, String.toList_ofList,
    Value.indentedChars]
  simp only [Value.ofTexts]
  rw [members, canonical]
  simp [lineBreak]

end ObserverRelay.Records
