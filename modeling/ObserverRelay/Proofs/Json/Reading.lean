import ObserverRelay.Proofs.Json.Meaning
import ObserverRelay.Proofs.Json.Numbers
/-!
# What is read is a document

A reader of values takes nothing but documents off the front of a text, and the value that it
gives is what the document means. Nothing is said of where it stops reading: what follows the
first document of a text is not looked at.

## Main statements

* `itemsAt_of_itemLoop`, `membersAt_of_memberLoop`: the loops over items and members.
* `document_of_readValue`: what is read as a value is a document that means it.
-/
namespace ObserverRelay.Json

variable {α β σ : Type} {s t u : Bytes}

/-! ## Items and members -/

theorem nextItem_eq_ok {first : Bool} {next : Upcoming s} (h : nextItem first s = .ok next) :
    (∃ t le, next = .done t le ∧ skipSpace s = 0x5D :: t) ∨
      ∃ u le, next = .more u le ∧ Separated first s u := by
  unfold nextItem at h
  split at h
  next => cases h
  next b t shorter looked =>
    have front := front_eq_octet_iff.mp looked
    split at h
    next close =>
      subst close
      exact .inl ⟨t, shorter, (Except.ok.inj h).symm, front⟩
    split at h
    next start =>
      subst start
      exact .inr ⟨b :: t, shorter, (Except.ok.inj h).symm, .first front⟩
    next later =>
      obtain rfl : first = false := by simpa using later
      split at h
      next comma =>
        subst comma
        split at h
        next => cases h
        next c u shorter' looked' =>
          split at h
          next => cases h
          next =>
            exact .inr ⟨c :: u, _, (Except.ok.inj h).symm,
              .comma front (front_eq_octet_iff.mp looked')⟩
      next => cases h

theorem nextName_eq_ok {first : Bool} {next : Upcoming s} (h : nextName first s = .ok next) :
    (∃ t le, next = .done t le ∧ skipSpace s = 0x7D :: t) ∨
      ∃ u le, next = .more u le ∧ Separated first s (0x22 :: u) := by
  unfold nextName at h
  split at h
  next => cases h
  next b t shorter looked =>
    have front := front_eq_octet_iff.mp looked
    split at h
    next close =>
      subst close
      exact .inl ⟨t, shorter, (Except.ok.inj h).symm, front⟩
    split at h
    next start =>
      subst start
      split at h
      next quote =>
        subst quote
        exact .inr ⟨t, _, (Except.ok.inj h).symm, .first front⟩
      next => cases h
    next later =>
      obtain rfl : first = false := by simpa using later
      split at h
      next comma =>
        subst comma
        split at h
        next => cases h
        next c u shorter' looked' =>
          split at h
          next quote =>
            subst quote
            exact .inr ⟨u, _, (Except.ok.inj h).symm,
              .comma front (front_eq_octet_iff.mp looked')⟩
          next =>
            split at h
            next => cases h
            next => cases h
      next => cases h

/-- What steps make of a state, part after part. -/
inductive Steps (Q : σ → β → σ → Prop) : σ → List β → σ → Prop
  | done (state : σ) : Steps Q state [] state
  | more {state next last : σ} {x : β} {xs : List β} (step : Q state x next)
      (more : Steps Q next xs last) : Steps Q state (x :: xs) last

/-- What a loop over items has read is items, each of them as its step has it. -/
theorem itemsAt_of_itemLoop {R : Bytes → β → Bytes → Prop} {Q : σ → β → σ → Prop}
    {step : Nat → σ → Reader σ}
    (each : ∀ index state next s t, (step index state s).view = .ok (next, t) →
      ∃ x, R s x t ∧ Q state x next)
    {index : Nat} {state last : σ} {le : u.length ≤ s.length}
    (read : (itemLoop step s index state u le).view = .ok (last, t)) :
    ∃ xs, ItemsAt R (index == 0) u xs t ∧ Steps Q state xs last := by
  fun_induction itemLoop step s index state u le with
  | case1 => cases read
  | case2 index state u le rest shorter next =>
    obtain ⟨_, _, done, close⟩ | ⟨_, _, more, _⟩ := nextItem_eq_ok next
    · cases done
      obtain ⟨rfl, rfl⟩ : state = last ∧ rest = t := by simpa using read
      exact ⟨[], .done close, .done state⟩
    · cases more
  | case3 => cases read
  | case4 index state u le v hv next state' w hw taken ih =>
    obtain ⟨_, _, done, _⟩ | ⟨_, _, more, separated⟩ := nextItem_eq_ok next
    · cases done
    · cases more
      obtain ⟨x, item, here⟩ := each index state state' v w (by rw [taken]; rfl)
      obtain ⟨xs, items, later⟩ := ih read
      exact ⟨x :: xs, .more separated item items, .more here later⟩

/-- What a loop over members has read is members, each of them as its step has it, and none of
them objected to. -/
theorem membersAt_of_memberLoop {R : Bytes → β → Bytes → Prop} {Q : σ → String × β → σ → Prop}
    {check : String → σ → Option Cause} {step : String → σ → Reader σ}
    (each : ∀ name state next s t, check name state = none →
      (step name state s).view = .ok (next, t) → ∃ x, R s x t ∧ Q state (name, x) next)
    {first : Bool} {state last : σ} {le : u.length ≤ s.length}
    (read : (memberLoop check step s first state u le).view = .ok (last, t)) :
    ∃ ms, MembersAt TextAt R first u ms t ∧ Steps Q state ms last := by
  fun_induction memberLoop check step s first state u le with
  | case1 => cases read
  | case2 first state u le rest shorter next =>
    obtain ⟨_, _, done, close⟩ | ⟨_, _, more, _⟩ := nextName_eq_ok next
    · cases done
      obtain ⟨rfl, rfl⟩ : state = last ∧ rest = t := by simpa using read
      exact ⟨[], .done close, .done state⟩
    · cases more
  | case3 => cases read
  | case4 => cases read
  | case5 => cases read
  | case6 => cases read
  | case7 first state u le v hv next name w hw key checked x hx colon state' y hy taken ih =>
    obtain ⟨_, _, done, _⟩ | ⟨_, _, more, separated⟩ := nextName_eq_ok next
    · cases done
    · cases more
      have named : TextAt v name w := view_readString_iff.mp (by rw [key]; rfl)
      obtain ⟨d, value, here⟩ := each name state state' x y checked (by rw [taken]; rfl)
      obtain ⟨ms, members, later⟩ := ih read
      exact ⟨(name, d) :: ms,
        .more separated named (takeColon_eq_ok_iff.mp ⟨hx, colon⟩) value members, .more here later⟩

/-! ## Values -/

/-- Lists and objects in the document are nested at most that deep. -/
inductive Document.Within : Nat → Document α → Prop
  | null (depth : Nat) : Within depth .null
  | bool (depth : Nat) (b : Bool) : Within depth (.bool b)
  | number (depth : Nat) (l : Literal) : Within depth (.number l)
  | string (depth : Nat) (x : α) : Within depth (.string x)
  | array {depth : Nat} {ds : List (Document α)} (items : ∀ d ∈ ds, Within depth d) :
      Within (depth + 1) (.array ds)
  | object {depth : Nat} {ms : List (α × Document α)} (members : ∀ m ∈ ms, Within depth m.2) :
      Within (depth + 1) (.object ms)

/-- What holds after each step holds of the parts that were gone through. -/
theorem Steps.forall_mem {Q : σ → β → σ → Prop} {P : β → Prop} {start last : σ} {xs : List β}
    (steps : Steps Q start xs last) (each : ∀ state x next, Q state x next → P x) :
    ∀ x ∈ xs, P x := by
  induction steps with
  | done => simp
  | more step _ ih => exact List.forall_mem_cons.mpr ⟨each _ _ _ step, ih⟩

section Parts
variable {N : Literal → Number → Prop} {reader : Reader Value} {depth : Nat}
  (each : ∀ s v t, (reader s).view = .ok (v, t) →
    ∃ d, DocumentAt TextAt s d t ∧ Means N d v ∧ d.Within depth)
include each

theorem itemsAt_of_readValueItems {vs : List Value}
    (read : (readValueItems reader s).view = .ok (vs, t)) :
    ∃ ds, ItemsAt (DocumentAt TextAt) true s ds t ∧ List.Forall₂ (Means N) ds vs ∧
      ∀ d ∈ ds, d.Within depth := by
  obtain ⟨done, loop, rfl⟩ := Outcome.view_map_eq_ok_iff.mp read
  -- What was read before stands in the state, the last item first.
  let Q (done : List Value) (d : Document String) (next : List Value) : Prop :=
    d.Within depth ∧ ∃ v, Means N d v ∧ next = v :: done
  have step : ∀ (index : Nat) (done next : List Value) s t,
      ((reader s).map (· :: done)).view = .ok (next, t) →
        ∃ d, DocumentAt TextAt s d t ∧ Q done d next := by
    intro _ done next s t taken
    obtain ⟨v, here, rfl⟩ := Outcome.view_map_eq_ok_iff.mp taken
    obtain ⟨d, document, means, within⟩ := each s v t here
    exact ⟨d, document, within, v, means, rfl⟩
  obtain ⟨ds, items, steps⟩ := itemsAt_of_itemLoop step loop
  have all : ∀ {start last : List Value} {ds}, Steps Q start ds last →
      ∃ vs, last.reverse = start.reverse ++ vs ∧ List.Forall₂ (Means N) ds vs := by
    intro start last ds steps
    induction steps with
    | done => exact ⟨[], by simp, .nil⟩
    | more here _ ih =>
      obtain ⟨-, v, means, rfl⟩ := here
      obtain ⟨vs, whole, rest⟩ := ih
      exact ⟨v :: vs, by simp [whole], .cons means rest⟩
  obtain ⟨vs, whole, means⟩ := all steps
  rw [whole]
  exact ⟨ds, items, means, steps.forall_mem fun _ _ _ step => step.1⟩

theorem membersAt_of_readValueMembers {vs : Members}
    (read : (readValueMembers reader s).view = .ok (vs, t)) :
    ∃ ms, MembersAt TextAt (DocumentAt TextAt) true s ms t ∧ Means N (.object ms) (.object vs) ∧
      ∀ m ∈ ms, m.2.Within depth := by
  let Q (done : Members) (m : String × Document String) (next : Members) : Prop :=
    m.2.Within depth ∧ ∃ v, Means N m.2 v ∧ next = Members.assign m.1 v done
  have step : ∀ (name : String) (done next : Members) s t, (none : Option Cause) = none →
      ((reader s).map fun v => Members.assign name v done).view = .ok (next, t) →
        ∃ d, DocumentAt TextAt s d t ∧ Q done (name, d) next := by
    intro name done next s t _ taken
    obtain ⟨v, here, rfl⟩ := Outcome.view_map_eq_ok_iff.mp taken
    obtain ⟨d, document, means, within⟩ := each s v t here
    exact ⟨d, document, within, v, means, rfl⟩
  obtain ⟨ms, members, steps⟩ := membersAt_of_memberLoop step read
  have all : ∀ {start last : Members} {ms}, Steps Q start ms last →
      ∃ vs : Members, last = Members.assignAll start vs ∧ ms.map Prod.fst = vs.map Prod.fst ∧
        List.Forall₂ (Means N) (ms.map Prod.snd) (vs.map Prod.snd) := by
    intro start last ms steps
    induction steps with
    | done => exact ⟨[], rfl, rfl, .nil⟩
    | @more _ _ _ m _ here _ ih =>
      obtain ⟨-, v, means, rfl⟩ := here
      obtain ⟨vs, rfl, names, rest⟩ := ih
      refine ⟨(m.1, v) :: vs, rfl, ?_, .cons means rest⟩
      rw [List.map_cons, List.map_cons, names]
  obtain ⟨vs, rfl, names, values⟩ := all steps
  exact ⟨ms, members, .object names values, steps.forall_mem fun _ _ _ step => step.1⟩

end Parts

/-- What is read as a value is a document that means it and is not nested too deep. -/
theorem document_of_readValue {depth : Nat} {v : Value}
    (read : (readValue depth s).view = .ok (v, t)) :
    ∃ d, DocumentAt TextAt s d t ∧ Means Becomes d v ∧ d.Within depth := by
  -- The parts of a list or object are read with one level less to go.
  induction depth using Nat.strongRecOn generalizing s t v with
  | ind depth ih =>
    rw [readValue] at read
    split at read
    next => cases read
    next b r shorter looked =>
      have front := front_eq_octet_iff.mp looked
      split at read
      next null =>
        obtain ⟨rfl, word⟩ := view_readWord_iff.mp (by simpa using read)
        exact ⟨.null, .null (by rw [front, null, word]), .null, .null depth⟩
      split at read
      next yes =>
        obtain ⟨rfl, word⟩ := view_readWord_iff.mp (by simpa using read)
        exact ⟨.bool true, .yes (by rw [front, yes, word]), .bool true, .bool depth true⟩
      split at read
      next no =>
        obtain ⟨rfl, word⟩ := view_readWord_iff.mp (by simpa using read)
        exact ⟨.bool false, .no (by rw [front, no, word]), .bool false, .bool depth false⟩
      split at read
      next =>
        obtain ⟨n, taken, rfl⟩ := Outcome.view_map_eq_ok_iff.mp (by simpa using read)
        obtain ⟨l, number, becomes⟩ := becomes_of_readNumber taken
        exact ⟨.number l, .number (front ▸ number), .number becomes, .number depth l⟩
      split at read
      next quote =>
        obtain ⟨x, taken, rfl⟩ := Outcome.view_map_eq_ok_iff.mp (by simpa using read)
        exact ⟨.string x, .string (by rw [front, quote]) (view_readString_iff.mp taken), .string x,
          .string depth x⟩
      split at read
      next bracket =>
        split at read
        next => cases read
        next inner =>
          obtain ⟨vs, taken, rfl⟩ := Outcome.view_map_eq_ok_iff.mp (by simpa using read)
          obtain ⟨ds, items, means, within⟩ := itemsAt_of_readValueItems
            (fun _ _ _ => ih inner (Nat.lt_succ_self inner)) taken
          exact ⟨.array ds, .array (by rw [front, bracket]) items, .array means, .array within⟩
      split at read
      next brace =>
        split at read
        next => cases read
        next inner =>
          obtain ⟨vs, taken, rfl⟩ := Outcome.view_map_eq_ok_iff.mp (by simpa using read)
          obtain ⟨ms, members, means, within⟩ := membersAt_of_readValueMembers
            (fun _ _ _ => ih inner (Nat.lt_succ_self inner)) taken
          exact ⟨.object ms, .object (by rw [front, brace]) members, means, .object within⟩
      next => cases read

/-- A text is read from its front on only if a document stands there. -/
theorem document_of_parseFront {v : Value} (read : Value.parseFront s = .ok v) :
    ∃ d t, DocumentAt TextAt s d t ∧ Means Becomes d v := by
  unfold Value.parseFront at read
  split at read
  next => cases read
  next r taken =>
    obtain rfl : r.value = v := Except.ok.inj read
    obtain ⟨d, document, means, -⟩ := document_of_readValue (t := r.rest) (by rw [taken]; rfl)
    exact ⟨d, r.rest, document, means⟩

end ObserverRelay.Json
