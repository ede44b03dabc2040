import ObserverRelay.Json.Decoder
import ObserverRelay.Proofs.Json.Grammar
import Mathlib.Data.List.Forall2
/-!
# Decoders on texts of values

A decoder takes a value as something when it reads this from every text that spells the value.
For strings, lists and records this follows from the parts: no text is looked at again.

## Main statements

* `Decoder.takes_list`: a list is taken item by item.
* `Decoder.takes_record`: a record is taken member by member.
* `Decoder.Takes.parse`: a value that is taken is read from a document that spells it.
-/
namespace ObserverRelay.Json.Decoder

variable {α β σ : Type} {depth : Nat}

/-- From every text of the value `v`, nested at most `depth` deep, the decoder reads `a`. -/
def Takes (d : Decoder α) (depth : Nat) (v : Value) (a : α) : Prop :=
  ∀ s t, Spelled s v t → (d.fromText depth s).view = .ok (a, t)

theorem takes_string (depth : Nat) (x : String) : string.Takes depth (.string x) x := by
  intro s t h
  cases h with
  | string quote content =>
    obtain ⟨shorter, looked⟩ := front_eq_octet quote
    simp only [string, looked, if_true, Outcome.view_within]
    exact view_readString content

theorem takes_list {d : Decoder α} {vs : List Value} {xs : List α}
    (items : List.Forall₂ (d.Takes depth) vs xs) :
    (list d).Takes (depth + 1) (.array vs) xs := by
  intro s t h
  cases h with
  | array bracket content =>
    obtain ⟨shorter, looked⟩ := front_eq_octet bracket
    have run := itemRun_collect items 0 []
    rw [List.append_nil] at run
    obtain ⟨shorter', read⟩ := Outcome.eq_of_view (view_readItems opens_spelled run content)
    simp only [list, looked, if_true, read, Outcome.view]
    simp

/-- A list is taken as the items whose values are written in it. -/
theorem takes_list_map {d : Decoder α} {f : α → Value} {xs : List α}
    (items : ∀ x ∈ xs, d.Takes depth (f x) x) :
    (list d).Takes (depth + 1) (.array (xs.map f)) xs := by
  refine takes_list ?_
  rw [List.forall₂_map_left_iff]
  exact List.forall₂_same.mpr items

/-- The members of an object fill a draft, each by a slot of its own that was empty. -/
inductive Shape.Fills (shape : Shape σ α) (depth : Nat) : σ → Members → σ → Prop
  | done (state : σ) : Fills shape depth state [] state
  | more {state next last : σ} {name : String} {v : Value} {ms : Members} {slot : Slot σ}
      (known : shape.slot? name = some slot) (fresh : slot.filled state = false)
      (taken : ∀ s t, Spelled s v t → (slot.fromText depth state s).view = .ok (next, t))
      (more : Fills shape depth next ms last) : Fills shape depth state ((name, v) :: ms) last

/-- A slot keeps what its decoder takes. -/
theorem Slot.takes_of {d : Decoder α} {v : Value} {a : α} (taken : d.Takes depth v a)
    (name : String) (required : Bool) (get : σ → Option α) (put : α → σ → σ) (state : σ) :
    ∀ s t, Spelled s v t →
      ((Slot.of name required get put d).fromText depth state s).view = .ok (put a state, t) :=
  fun s t h => Outcome.view_map _ (taken s t h)

theorem Shape.Fills.memberRun {shape : Shape σ α} {start last : σ} {ms : Members}
    (fills : shape.Fills depth start ms last) :
    MemberRun Spelled
      (fun name state =>
        match shape.slot? name with
        | some slot => if slot.filled state then some (.repeatedMember name) else none
        | none => none)
      (fun name state u =>
        match shape.slot? name with
        | some slot => slot.fromText depth state u
        | none => Outcome.map (fun _ => state) (passValue u)) start ms last := by
  induction fills with
  | done state => exact .done state
  | more known fresh taken more ih =>
    refine .more ?_ ?_ ih
    · simp [known, fresh]
    · intro s t h
      simp only [known]
      exact taken s t h

theorem view_readNames {shape : Shape σ α} {s t : Bytes} {ms : Members} {last : σ} {a : α}
    (fills : shape.Fills depth shape.empty ms last) (finish : shape.finish last = .ok a)
    (members : MembersAt NameAt Spelled true s ms t) : (shape.readNames depth s).view = .ok (a, t) := by
  obtain ⟨shorter, read⟩ := Outcome.eq_of_view (view_readMembers fills.memberRun members)
  simp only [Shape.readNames]
  split
  next e failed => exact absurd (failed.symm.trans read) nofun
  next r taken =>
    obtain rfl := Except.ok.inj (taken.symm.trans read)
    simp only [finish]
    rfl

theorem takes_record {shape : Shape σ α} {ms : Members} {last : σ} {a : α}
    (fills : shape.Fills depth shape.empty ms last) (finish : shape.finish last = .ok a) :
    (record shape).Takes (depth + 1) (.object ms) a := by
  intro s t h
  cases h with
  | object brace content =>
    obtain ⟨shorter, looked⟩ := front_eq_octet brace
    have noList : ¬(0x7B : UInt8) = 0x5B := by decide
    simp only [record, looked, noList, if_false, if_true, Outcome.view_within]
    exact view_readNames fills finish content

/-- A document that spells a value, with nothing but blanks behind it, is read as what the value
is taken as. -/
theorem Takes.parse {d : Decoder α} {v : Value} {a : α} (taken : d.Takes maxDepth v a)
    {s t : Bytes} (spelled : Spelled s v t) (blank : skipSpace t = []) : d.parse s = .ok a :=
  readWhole_eq_ok_iff.mpr ⟨t, taken s t spelled, blank⟩

end ObserverRelay.Json.Decoder
