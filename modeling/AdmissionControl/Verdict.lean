import AdmissionControl.Duration
import AdmissionControl.Record

/-!
# Verdicts and admissions

A verdict allows a request or denies it with the time after which it may be repeated.  That time is never
shorter than a millisecond, so nobody is told to repeat a denied request at once.  An admission is a
verdict together with the record to keep.
-/

namespace AdmissionControl

/-- The answer to one request. -/
inductive Verdict
  /-- The request may go on. -/
  | allowed
  /-- The request may be repeated after the given time. -/
  | denied (retryAfter : Duration)
  deriving DecidableEq, Repr

namespace Verdict

/-- A denial whose hint is at least one millisecond. -/
def deny (hint : Duration) : Verdict := denied (hint.max (Duration.ofMillis 1))

/-- A denial with a hint in milliseconds. -/
def denyMillis (hint : Nat) : Verdict := deny (Duration.ofMillis hint)

/-- Whether the request may go on. -/
def isAllowed : Verdict → Bool
  | allowed => true
  | denied _ => false

/-- The hint of a denial, and no time for what is allowed. -/
def retryAfter : Verdict → Duration
  | allowed => Duration.zero
  | denied hint => hint

/-- The verdict in words. -/
def text : Verdict → String
  | allowed => "allowed"
  | denied hint => "denied (retry after " ++ hint.text ++ ")"

@[simp] theorem isAllowed_allowed : allowed.isAllowed = true := rfl

@[simp] theorem isAllowed_deny (hint : Duration) : (deny hint).isAllowed = false := rfl

@[simp] theorem isAllowed_denyMillis (hint : Nat) : (denyMillis hint).isAllowed = false := rfl

theorem denyMillis_of_pos {hint : Nat} (h : 1 ≤ hint) :
    denyMillis hint = denied (Duration.ofMillis hint) := by
  rcases Nat.eq_or_lt_of_le h with rfl | h1
  · rfl
  · have hlt : (Duration.ofMillis 1).nanos < (Duration.ofMillis hint).nanos :=
      Nat.mul_lt_mul_of_pos_right h1 (by decide)
    rw [denyMillis, deny, Duration.max_eq_left hlt]

end Verdict

/-- A verdict with the record to keep. -/
structure Admission where
  /-- The answer to the request. -/
  verdict : Verdict
  /-- The client's record after the decision. -/
  record : Record
  deriving DecidableEq, Repr

namespace Admission

/-- The request goes on and the record stays as it was. -/
def pass (record : Record) : Admission := ⟨.allowed, record⟩

/-- Whether the request may go on. -/
def isAllowed (a : Admission) : Bool := a.verdict.isAllowed

end Admission
end AdmissionControl
