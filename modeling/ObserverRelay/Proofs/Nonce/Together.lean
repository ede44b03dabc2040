import ObserverRelay.Proofs.Nonce.Interleaving
/-!
# Calls made alone and together, as interleavings

`NonceBook.perform` makes one call, and `NonceBook.performTogether` lets all calls of a list
begin before the first one goes on. Both are runs of a desk: there are moves that leave the same
book and the same outcomes.
-/
namespace ObserverRelay.Chain.Desk

open NonceBook
variable {ε σ : Type} {b b' b'' : NonceBook} {rs rs' rs'' : List (Running ε)}

/-- From one book and its errands under way some moves lead to others. -/
def Leads (b : NonceBook) (rs : List (Running ε)) (b' : NonceBook) (rs' : List (Running ε)) :
    Prop :=
  ∀ turns, ∃ moves turns', (⟨b, rs, turns⟩ : Desk ε).run moves = ⟨b', rs', turns'⟩

theorem Leads.refl (b : NonceBook) (rs : List (Running ε)) : Leads b rs b rs :=
  fun turns => ⟨[], turns, rfl⟩

theorem Leads.trans (h : Leads b rs b' rs') (h' : Leads b' rs' b'' rs'') : Leads b rs b'' rs'' := by
  intro turns
  obtain ⟨moves, turns', reached⟩ := h turns
  obtain ⟨moves', turns'', reached'⟩ := h' turns'
  exact ⟨moves ++ moves', turns'', by rw [run_append, reached, reached']⟩

/-- A turn of the errand between those before and those after it. -/
theorem leads_turn (b : NonceBook) (e : Errand) (stage : Stage ε) (rs more : List (Running ε)) :
    Leads b (rs ++ ⟨e, stage⟩ :: more) (b.step e.asks stage).2
      (rs ++ ⟨e, (b.step e.asks stage).1⟩ :: more) := by
  intro turns
  exact ⟨[.turn rs.length], _, by simp [run, move]; rfl⟩

/-- The source answers the errand that came last. -/
theorem leads_answer (b : NonceBook) (e : Errand) (r : Except ε UInt64) (rs : List (Running ε)) :
    Leads b (rs ++ [⟨e, .asking⟩]) b (rs ++ [⟨e, .answered r⟩]) := by
  intro turns
  exact ⟨[.answer rs.length r], turns, by simp [run, move]⟩

/-- An errand comes and looks its address up. -/
theorem leads_arrive (b : NonceBook) (e : Errand) (rs : List (Running ε)) :
    Leads b rs b (rs ++ [⟨e, if b.needsSource e.asks then .asking else .known⟩]) := by
  have arrived : Leads b rs b (rs ++ [⟨e, .started⟩]) :=
    fun turns => ⟨[.arrive e], turns, rfl⟩
  exact arrived.trans (leads_turn b e .started rs [])

/-- Two turns of an errand that has its answer conclude it. -/
theorem leads_conclude (b : NonceBook) (e : Errand) (r : Except ε UInt64)
    (rs more : List (Running ε)) :
    Leads b (rs ++ ⟨e, .answered r⟩ :: more) (b.conclude e.asks r).2
      (rs ++ ⟨e, .done (b.conclude e.asks r).1⟩ :: more) := by
  have first := leads_turn b e (.answered r) rs more
  match r, asks : e.asks with
  | .error x, _ => simpa [step, conclude, asks] using first
  | .ok n, .refetch c => simpa [step, conclude, absorb, use, asks] using first
  | .ok n, .read c | .ok n, .reserve c | .ok n, .advance c =>
    refine first.trans ?_
    simpa [step, conclude, asks] using
      leads_turn (b.absorb n e.asks) e (.known : Stage ε) rs more

/-- A call made alone. -/
theorem leads_perform (source : σ → String → Except ε UInt64 × σ) (b : NonceBook) (s : σ)
    (e : Errand) (rs : List (Running ε)) :
    Leads b rs (b.perform source s e.asks).2.1
      (rs ++ [⟨e, .done (b.perform source s e.asks).1⟩]) := by
  refine (leads_arrive b e rs).trans ?_
  cases asks : b.needsSource e.asks with
  | true =>
    refine (leads_answer b e (source s e.asks.address).1 rs).trans ?_
    simpa [perform, asks] using leads_conclude b e (source s e.asks.address).1 rs []
  | false => simpa [perform, asks, step] using leads_turn b e (.known : Stage ε) rs []

/-- Where an errand stands whose call has begun together with others. -/
def StandsAt (r : Running ε) : Begun ε → Prop
  | .ended o => r.stage = .done o
  | .waiting call answer => r.errand.asks = call ∧ r.stage = .answered answer

/-- Calls begin one after the other, each as far as it goes without waiting. -/
theorem leads_begin (source : σ → String → Except ε UInt64 × σ) (calls : List NonceCall)
    {b b' : NonceBook} {s s' : σ} {begun : List (Begun ε)} (rs : List (Running ε))
    (h : b.begin source s calls = (.ok begun, b', s')) :
    ∃ us, us.map Running.errand = calls.map .call ∧ List.Forall₂ StandsAt us begun ∧
      Leads b rs b' (rs ++ us) := by
  induction calls generalizing b s begun rs with
  | nil =>
    obtain ⟨rfl, rfl, -⟩ : begun = [] ∧ b = b' ∧ s = s' := by simpa [NonceBook.begin] using h
    exact ⟨[], rfl, .nil, by simpa using Leads.refl b rs⟩
  | cons c calls ih =>
    have arrive := leads_arrive b (.call c) rs
    -- The head stands somewhere, and the tail begins from the book that it left.
    have continued {u : Running ε} {x : Begun ε} {b₁ : NonceBook} {s₁ : σ} {more : List (Begun ε)}
        (errand : u.errand = .call c) (stands : StandsAt u x) (lead : Leads b rs b₁ (rs ++ [u]))
        (tail : b₁.begin source s₁ calls = (.ok more, b', s')) (cons : begun = x :: more) :
        ∃ us, us.map Running.errand = (c :: calls).map .call ∧ List.Forall₂ StandsAt us begun ∧
          Leads b rs b' (rs ++ us) := by
      obtain ⟨us, errands, all, leads⟩ := ih (rs ++ [u]) tail
      refine ⟨u :: us, by simp [errand, errands], cons ▸ .cons stands all, ?_⟩
      simpa using lead.trans leads
    rw [NonceBook.begin] at h
    split at h
    next asks =>
      simp only [Errand.asks, asks, if_true] at arrive
      have wait := arrive.trans (leads_answer b (.call c) (source s c.address).1 rs)
      rcases tail : b.begin source (source s c.address).2 calls with ⟨_ | more, b₂, s₂⟩
      · simp [tail, Except.map] at h
      · simp only [tail, Except.map, Prod.mk.injEq, Except.ok.injEq] at h
        obtain ⟨rfl, rfl, rfl⟩ := h
        exact continued (x := .waiting c (source s c.address).1) rfl ⟨rfl, rfl⟩ wait tail rfl
    next asks =>
      simp only [Errand.asks, asks] at arrive
      have used := arrive.trans (leads_turn b (.call c) (.known : Stage ε) rs [])
      simp only [Errand.asks, step] at used
      split at h
      next => simp at h
      next o b₁ _ done =>
        rw [done] at used
        rcases tail : b₁.begin source s calls with ⟨_ | more, b₂, s₂⟩
        · simp [tail, Except.map] at h
        · simp only [tail, Except.map, Prod.mk.injEq, Except.ok.injEq] at h
          obtain ⟨rfl, rfl, rfl⟩ := h
          exact continued (u := ⟨.call c, .done o⟩) (x := .ended o) rfl rfl used tail rfl

/-- The calls that wait end one after the other. -/
theorem leads_finish {us : List (Running ε)} {begun : List (Begun ε)}
    (all : List.Forall₂ StandsAt us begun) {b b' : NonceBook} {outcomes : List (Outcome ε)}
    (rs : List (Running ε)) (h : b.finish begun = (.ok outcomes, b')) :
    ∃ vs, vs.map Running.errand = us.map Running.errand ∧
      vs.map Running.stage = outcomes.map .done ∧ Leads b (rs ++ us) b' (rs ++ vs) := by
  induction all generalizing b rs outcomes with
  | nil =>
    obtain ⟨rfl, rfl⟩ : outcomes = [] ∧ b = b' := by simpa [finish] using h
    exact ⟨[], rfl, rfl, Leads.refl b _⟩
  | @cons u x us begun stands all ih =>
    obtain ⟨e, stage⟩ := u
    -- The head comes to its end, and the tail goes on from the book that it left.
    have continued {o : Outcome ε} {b₁ : NonceBook} {more : List (Outcome ε)}
        (lead : Leads b (rs ++ ⟨e, stage⟩ :: us) b₁ (rs ++ ⟨e, .done o⟩ :: us))
        (tail : b₁.finish begun = (.ok more, b')) (cons : outcomes = o :: more) :
        ∃ vs, vs.map Running.errand = (⟨e, stage⟩ :: us).map Running.errand ∧
          vs.map Running.stage = outcomes.map .done ∧
          Leads b (rs ++ ⟨e, stage⟩ :: us) b' (rs ++ vs) := by
      obtain ⟨vs, errands, stages, leads⟩ := ih (rs ++ [⟨e, .done o⟩]) tail
      refine ⟨⟨e, .done o⟩ :: vs, by simp [errands], by simp [cons, stages], ?_⟩
      exact lead.trans (by simpa using leads)
    cases x with
    | ended o =>
      obtain rfl : stage = .done o := stands
      rcases tail : b.finish begun with ⟨_ | more, b₂⟩
      · simp [finish, tail, Except.map] at h
      · simp only [finish, tail, Except.map, Prod.mk.injEq, Except.ok.injEq] at h
        obtain ⟨rfl, rfl⟩ := h
        exact continued (Leads.refl b _) tail rfl
    | waiting call answer =>
      obtain ⟨rfl, rfl⟩ : e.asks = call ∧ stage = .answered answer := stands
      have concluded := leads_conclude b e answer rs us
      simp only [finish] at h
      split at h
      next => simp at h
      next o b₁ _ done =>
        rw [done] at concluded
        rcases tail : b₁.finish begun with ⟨_ | more, b₂⟩
        · simp [tail, Except.map] at h
        · simp only [tail, Except.map, Prod.mk.injEq, Except.ok.injEq] at h
          obtain ⟨rfl, rfl⟩ := h
          exact continued concluded tail rfl

/-- Calls made together are one of the ways in which the same calls may interleave: unless the
counting overflows, some moves of a desk end in the same book with the same outcomes. -/
theorem run_together (source : σ → String → Except ε UInt64 × σ) (b : NonceBook) (s : σ)
    (calls : List NonceCall) (outcomes : List (Outcome ε))
    (h : (b.performTogether source s calls).1 = .ok outcomes) :
    ∃ moves, let d := (ofBook b).run moves
      d.book = (b.performTogether source s calls).2.1 ∧
      d.running.map Running.errand = calls.map .call ∧
      d.running.map Running.stage = outcomes.map .done := by
  rw [performTogether] at h ⊢
  rcases begun : b.begin source s calls with ⟨_ | xs, b₁, s₁⟩
  · simp [begun] at h
  · rcases ended : b₁.finish xs with ⟨_ | os, b₂⟩
    · simp [begun, ended] at h
    · obtain rfl : os = outcomes := by simpa [begun, ended] using h
      obtain ⟨us, errands, all, leads⟩ := leads_begin source calls [] begun
      obtain ⟨vs, errands', stages, leads'⟩ := leads_finish all [] ended
      obtain ⟨moves, turns, reached⟩ := (leads.trans leads') []
      have reached : (ofBook b).run moves = ⟨b₂, vs, turns⟩ := reached
      refine ⟨moves, ?_⟩
      simp [reached, ended, errands, errands', stages]

end ObserverRelay.Chain.Desk
