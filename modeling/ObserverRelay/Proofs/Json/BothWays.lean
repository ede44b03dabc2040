import ObserverRelay.Proofs.Json.Decoding
import ObserverRelay.Proofs.Json.ReadBack
/-!
# Decoders read the same from a value and from its texts

A decoder reads in two ways, and nothing forces these to agree. Here they do: a value is taken both
ways as something when the decoder reads this from the value itself and from every text that spells
it. The parts of a decoder keep that, and so do the members of a record.

## Main statements

* `TakesBoth.map`, `TakesBoth.refine`, `TakesBoth.optional`: the decoders built from one.
* `takesBoth_record`: a record is taken both ways member by member.
-/
namespace ObserverRelay.Json.Decoder

variable {α β σ : Type} {depth : Nat} {d : Decoder α} {v : Value} {a : α}

/-- The decoder reads `a` from the value `v`, and from every text of it. -/
structure TakesBoth (d : Decoder α) (depth : Nat) (v : Value) (a : α) : Prop where
  text : d.Takes depth v a
  value : d.fromValue v = .ok a

/-! ## Values that are no records -/

theorem takesBoth_string (depth : Nat) (x : String) : string.TakesBoth depth (.string x) x :=
  ⟨takes_string depth x, rfl⟩

theorem naturalBelow_ofNat {n bound : Nat} (fits : n < bound) (expected : String) :
    naturalBelow bound expected (.integer n) = .ok n := by
  have inside : (0 : Int) ≤ n ∧ (n : Int) < bound := by omega
  rw [naturalBelow, if_pos inside, Int.toNat_natCast]

theorem takesBoth_natural {n bound : Nat} (fits : n < bound) (expected : String) (depth : Nat) :
    (natural bound expected).TakesBoth depth (.ofNat n) n := by
  refine ⟨fun s t spelled => ?_, naturalBelow_ofNat fits expected⟩
  cases spelled with
  | integer low high stops digits =>
    have number : NumberAt (skipSpace s) (.ofInt n) t := digits ▸ written_ofInt n t stops
    obtain ⟨b, r, front, first⟩ := number.exists_cons
    obtain ⟨shorter, looked⟩ := front_eq_octet front
    have read := view_readNumber_iff.mpr ⟨_, number, becomes_ofInt low high⟩
    rw [front] at read
    obtain ⟨taken, read⟩ := Outcome.eq_of_view read
    simp only [natural, looked, if_pos first, read, naturalBelow_ofNat fits]
    rfl

theorem TakesBoth.map (f : α → β) (taken : d.TakesBoth depth v a) :
    (d.map f).TakesBoth depth v (f a) where
  text s t spelled := Outcome.view_map f (taken.text s t spelled)
  value := congrArg (Except.map f) taken.value

theorem TakesBoth.refine {f : α → Except String β} {b : β} (taken : d.TakesBoth depth v a)
    (accepted : f a = .ok b) : (d.refine f).TakesBoth depth v b where
  text s t spelled := by
    obtain ⟨shorter, read⟩ := Outcome.eq_of_view (taken.text s t spelled)
    simp only [Decoder.refine, read, accepted]
    rfl
  value := by
    simp only [Decoder.refine, taken.value, accepted]
    rfl

theorem TakesBoth.optional (taken : d.TakesBoth depth v a) (present : v ≠ .null) :
    (Decoder.optional d).TakesBoth depth v (some a) where
  text s t spelled := by
    obtain ⟨b, r, front, -, letter⟩ := spelled.exists_front
    have noLetter : b ≠ 0x6E := fun same => present (letter same)
    obtain ⟨shorter, looked⟩ := front_eq_octet front
    have trimmed : Spelled (b :: r) v t :=
      spelled.of_skipSpace_eq (by rw [← front, skipSpace_skipSpace])
    simp only [Decoder.optional, looked, if_neg noLetter]
    refine Outcome.view_map some ?_
    rw [Outcome.view_weaken]
    exact taken.text _ t trimmed
  value := by
    have read : (Decoder.optional d).fromValue v = (d.fromValue v).map some := by
      cases v <;> first | rfl | exact absurd rfl present
    rw [read, taken.value]
    rfl

/-! ## Records -/

/-- Read by name, from their values or from texts, the members lead the draft from one state to
another. -/
structure Shape.Enters (shape : Shape σ α) (depth : Nat) (start : σ) (ms : Members) (last : σ) :
    Prop where
  text : shape.Fills depth start ms last
  value : shape.fromMembers start ms = .ok last

namespace Shape

variable {shape : Shape σ α} {start mid last : σ} {ms ns : Members}

theorem Fills.append (front : shape.Fills depth start ms mid) (back : shape.Fills depth mid ns last) :
    shape.Fills depth start (ms ++ ns) last := by
  induction front with
  | done => exact back
  | more known fresh taken _ ih => exact .more known fresh taken (ih back)

theorem fromMembers_append (front : shape.fromMembers start ms = .ok mid) :
    shape.fromMembers start (ms ++ ns) = shape.fromMembers mid ns := by
  induction ms generalizing start with
  | nil =>
    obtain rfl : start = mid := Except.ok.inj front
    rfl
  | cons m ms ih =>
    cases known : shape.slot? m.1 with
    | none =>
      simp only [List.cons_append, fromMembers, known] at front ⊢
      exact ih front
    | some slot =>
      simp only [List.cons_append, fromMembers, known] at front ⊢
      split at front
      next => cases front
      next fresh =>
        split at front
        next => cases front
        next =>
          rw [if_neg fresh]
          exact ih front

namespace Enters

theorem done (start : σ) : shape.Enters depth start [] start := ⟨.done start, rfl⟩

theorem append (front : shape.Enters depth start ms mid) (back : shape.Enters depth mid ns last) :
    shape.Enters depth start (ms ++ ns) last where
  text := front.text.append back.text
  value := (fromMembers_append front.value).trans back.value

/-- A member enters the place that its slot keeps for it. -/
theorem more {d : Decoder β} {x : β} {name : String} {required : Bool} {get : σ → Option β}
    {put : β → σ → σ} (known : shape.slot? name = some (.of name required get put d))
    (fresh : get start = none) (taken : d.TakesBoth depth v x)
    (more : shape.Enters depth (put x start) ms last) :
    shape.Enters depth start ((name, v) :: ms) last := by
  have empty : (Slot.of name required get put d).filled start = false :=
    congrArg Option.isSome fresh
  have value : (Slot.of name required get put d).fromValue start v = .ok (put x start) :=
    congrArg (Except.map fun y => put y start) taken.value
  refine ⟨.more known empty (Slot.takes_of taken.text _ _ _ _ _) more.text, ?_⟩
  simp only [fromMembers, known, empty, value]
  exact more.value

end Enters

end Shape

theorem takesBoth_record {shape : Shape σ α} {ms : Members} {last : σ}
    (enters : shape.Enters depth shape.empty ms last) (finish : shape.finish last = .ok a) :
    (record shape).TakesBoth (depth + 1) (.object ms) a where
  text := takes_record enters.text finish
  value := by simp only [record, enters.value, finish]

/-- What is taken from a value is read from its compact layout. -/
theorem TakesBoth.parse_render (taken : d.TakesBoth maxDepth v a) (whole : v.Whole) :
    d.parse (Bytes.ofText v.render) = .ok a :=
  taken.text.parse (spelled_render whole) rfl

end ObserverRelay.Json.Decoder
