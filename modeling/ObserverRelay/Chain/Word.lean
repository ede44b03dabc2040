/-!
# Arithmetic on words that reports overflow

Sums and multiples of 64-bit words. A result that does not fit is reported, never wrapped.
-/
namespace ObserverRelay.Chain

/-- The operation whose result did not fit into a word. -/
inductive Overflow
  | add
  | multiply
  deriving DecidableEq, Repr

/-- The wording of an overflow. -/
def Overflow.message : Overflow → String
  | .add => "attempt to add with overflow"
  | .multiply => "attempt to multiply with overflow"

namespace Word

/-- The sum of two words. -/
def add (a b : UInt64) : Except Overflow UInt64 :=
  if a.toNat + b.toNat < UInt64.size then .ok (a + b) else .error .add

/-- A word taken a number of times. -/
def times (a : UInt64) (n : Nat) : Except Overflow UInt64 :=
  if a.toNat * n < UInt64.size then .ok (UInt64.ofNat (a.toNat * n)) else .error .multiply

theorem add_eq_ok_iff {a b c : UInt64} : add a b = .ok c ↔ c.toNat = a.toNat + b.toNat := by
  unfold add
  split
  next h =>
    simp only [Except.ok.injEq, ← UInt64.toNat_inj, UInt64.toNat_add, Nat.mod_eq_of_lt h]
    exact eq_comm
  next h =>
    have := c.toNat_lt_size
    simp only [reduceCtorEq, false_iff]
    omega

theorem add_eq_error_iff {a b : UInt64} {e : Overflow} :
    add a b = .error e ↔ e = .add ∧ UInt64.size ≤ a.toNat + b.toNat := by
  unfold add
  split
  next h => simp only [reduceCtorEq, false_iff]; omega
  next h => simp only [Except.error.injEq, eq_comm, Nat.not_lt.mp h, and_true]

theorem times_eq_ok_iff {a c : UInt64} {n : Nat} : times a n = .ok c ↔ c.toNat = a.toNat * n := by
  unfold times
  split
  next h =>
    have hn : (UInt64.ofNat (a.toNat * n)).toNat = a.toNat * n :=
      UInt64.toNat_ofNat_of_lt' h
    simp only [Except.ok.injEq, ← UInt64.toNat_inj, hn]
    exact eq_comm
  next h =>
    have := c.toNat_lt_size
    simp only [reduceCtorEq, false_iff]
    omega

theorem times_eq_error_iff {a : UInt64} {n : Nat} {e : Overflow} :
    times a n = .error e ↔ e = .multiply ∧ UInt64.size ≤ a.toNat * n := by
  unfold times
  split
  next h => simp only [reduceCtorEq, false_iff]; omega
  next h => simp only [Except.error.injEq, eq_comm, Nat.not_lt.mp h, and_true]

end Word

end ObserverRelay.Chain
