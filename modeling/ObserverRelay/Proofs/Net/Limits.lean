import ObserverRelay.Net.Exchange
/-!
# Exchanges under a limit

An exchange that is not given up takes some time, or it never ends. A limit turns it into one that
ends late if it takes as long as the limit, and leaves it as it is otherwise. So exchanges are late
for want of time only, and those without a limit never are.

## Main statements

* `Course.isEndless_under_iff`: only without a limit is there no end to an exchange.
* `Course.isLate_under_iff`: an exchange is late exactly if its limit runs out.
* `threeDigits_of_send`: the status of a final reply can be written in one.
-/
namespace ObserverRelay.Net

open Relay (Duration)

/-- An exchange was given up, before the reply or within its body. -/
inductive Ending.IsLate : Ending → Prop
  | reply (reason : String) : IsLate (.late reason)
  | body (status : Nat) (reason : String) : IsLate (.answered status (some (.late reason)))

/-- The reply is waited for without end, or the rest of its body. -/
inductive Ending.IsEndless : Ending → Prop
  | reply : IsEndless .silent
  | body (status : Nat) : IsEndless (.answered status none)

namespace Course

variable {course : Course} {limit : Option Duration} {lateReply lateBody : String}

/-- How long an exchange takes that nobody gives up, if it ever ends. -/
def length? : Course → Option Duration
  | fails took _ => some took
  | replies took _ (.whole more _) | replies took _ (.broken more _) => some (took + more)
  | replies _ _ .stalls | stalls => none

/-- An exchange is still going on when a limit runs out. -/
def Outlasts (course : Course) (limit : Duration) : Prop :=
  ∀ d, course.length? = some d → limit.millis ≤ d.millis

/-- There is a limit, and it runs out. -/
def RunsOver (course : Course) (limit : Option Duration) : Prop :=
  ∃ l, limit = some l ∧ course.Outlasts l

theorem runsOut_eq_true_iff {took : Duration} :
    runsOut limit took = true ↔ ∃ l, limit = some l ∧ l.millis ≤ took.millis := by
  cases limit <;> simp [runsOut]

/-- An exchange that ends runs over if its time is as long as the limit. -/
theorem runsOver_iff {d : Duration} (ends : course.length? = some d) :
    course.RunsOver limit ↔ runsOut limit d = true := by
  rw [runsOut_eq_true_iff, RunsOver]
  simp only [Outlasts, ends, Option.some.injEq, forall_eq']

/-- One that never ends runs over as soon as there is a limit. -/
theorem runsOver_of_endless (endless : course.length? = none) :
    course.RunsOver limit ↔ limit.isSome = true := by
  rw [RunsOver, Option.isSome_iff_exists]
  simp only [Outlasts, endless, reduceCtorEq, false_implies, implies_true, and_true]

/-- Only without a limit is there no end to an exchange. -/
theorem isEndless_under_iff :
    (course.under limit lateReply lateBody).IsEndless ↔ limit = none ∧ course.length? = none := by
  cases course with
  | fails took reason =>
    refine iff_of_false ?_ nofun
    rw [Course.under]
    split <;> nofun
  | stalls =>
    cases limit with
    | none => exact iff_of_true .reply ⟨rfl, rfl⟩
    | some l => exact iff_of_false nofun nofun
  | replies took status delivery =>
    rw [Course.under]
    split
    next out =>
      obtain ⟨l, rfl, -⟩ := runsOut_eq_true_iff.mp out
      exact iff_of_false nofun nofun
    next =>
      cases delivery with
      | whole | broken => exact iff_of_false nofun nofun
      | stalls =>
        cases limit with
        | none => exact iff_of_true (.body _) ⟨rfl, rfl⟩
        | some l => exact iff_of_false nofun nofun

/-- An exchange is late exactly if its limit runs out. -/
theorem isLate_under_iff :
    (course.under limit lateReply lateBody).IsLate ↔ course.RunsOver limit := by
  cases course with
  | fails took reason =>
    rw [runsOver_iff rfl, Course.under]
    split
    next out => exact iff_of_true (.reply _) out
    next inTime => exact iff_of_false nofun inTime
  | stalls =>
    rw [runsOver_of_endless rfl, Course.under]
    split
    next given => exact iff_of_true (.reply _) given
    next missing => exact iff_of_false nofun missing
  | replies took status delivery =>
    rw [Course.under]
    split
    next out =>
      -- The limit runs out before the reply, so all the more before the end of its body.
      obtain ⟨l, rfl, long⟩ := runsOut_eq_true_iff.mp out
      refine iff_of_true (.reply _) ⟨l, rfl, fun d ends => ?_⟩
      cases delivery with
      | whole | broken =>
        obtain rfl := Option.some.inj ends
        exact Nat.le_add_right_of_le long
      | stalls => cases ends
    next inTime =>
      cases delivery with
      | whole more body | broken more reason =>
        rw [runsOver_iff rfl, Delivery.under]
        split
        next out => exact iff_of_true (.body _ _) out
        next inTime => exact iff_of_false nofun inTime
      | stalls =>
        rw [runsOver_of_endless rfl, Delivery.under]
        cases limit with
        | none => exact iff_of_false nofun nofun
        | some l => exact iff_of_true (.body _ _) rfl

theorem threeDigits_of_under {status : Nat} {body : Option Arrival}
    (ended : course.under limit lateReply lateBody = .answered status body) :
    ThreeDigits status := by
  cases course with
  | fails | stalls =>
    rw [Course.under] at ended
    split at ended <;> cases ended
  | replies took written delivery =>
    rw [Course.under] at ended
    split at ended
    next => cases ended
    next =>
      cases ended
      exact written.threeDigits

end Course

variable {σ : Type} [Transport σ] {n : σ} {limit : Option Duration} {request : Request}

/-- The status of a final reply can be written in one. -/
theorem threeDigits_of_send {status : Nat} {body : Option Arrival}
    (ended : (Transport.send n limit request).ending = .answered status body) :
    ThreeDigits status :=
  Course.threeDigits_of_under ended

end ObserverRelay.Net
