import AdmissionControl.Verdict

/-!
# Quotas

A client has a budget of requests for each period.  What it has used stands in its record, which the caller
keeps: nothing else is remembered.  A period starts with the first request after the one before is over.

* `estimate_eq_some_iff`: what an estimate denies is a budget used up in a running period.
-/

namespace AdmissionControl

/-- The rule of quotas. -/
structure Quota where
  /-- The budget of a period. -/
  limit : Nat
  /-- The length of a period in milliseconds. -/
  period : Nat
  /-- A period takes time. -/
  period_pos : 0 < period
  deriving Repr

namespace Quota

/-- A period of the whole milliseconds of a duration, but at least one. -/
def withPeriod (limit : Nat) (period : Duration) : Quota :=
  ⟨limit, max (Word.saturate period.millis) 1, pos_max_one _⟩

/-- The length of a day. -/
def day : Duration := Duration.ofParts 86400 0

/-- A budget for each day. -/
def daily (limit : Nat) : Quota := withPeriod limit day

variable (q : Quota)

/-- Whether the period of a record is over. -/
def isOver (r : Record) (now : Nat) : Bool := q.period ≤ now - r.lastReset

/-- The record as it counts at `now`. -/
def current (r : Record) (now : Nat) : Record := if q.isOver r now then r.resetQuota now else r

/-- How long until the period of a record is over. -/
def retryAfter (r : Record) (now : Nat) : Nat := Word.saturate (r.lastReset + q.period) - now

/-- The answer to a request at `now`, and the record to keep. -/
def decide (r : Record) (now : Nat) : Admission :=
  let current := q.current r now
  if q.limit ≤ current.quotaUsed then ⟨.denyMillis (q.retryAfter current now), current⟩
  else ⟨.allowed, current.useQuota⟩

/-- The answer that can be given without changing anything: a denial. -/
def estimate (r : Record) (now : Nat) : Option Admission :=
  if q.isOver r now || r.quotaUsed < q.limit then none else some (q.decide r now)

variable {q}

theorem estimate_eq_some_iff {r : Record} {now : Nat} {a : Admission} :
    q.estimate r now = some a ↔
      now - r.lastReset < q.period ∧ q.limit ≤ r.quotaUsed ∧
        a = ⟨.denyMillis (q.retryAfter r now), r⟩ := by
  simp only [estimate, decide, current, isOver]
  by_cases h1 : q.period ≤ now - r.lastReset
  · simp [h1, Nat.not_lt.2 h1]
  · by_cases h2 : r.quotaUsed < q.limit
    · simp [h2, Nat.not_le.2 h2]
    · simp [h1, h2, Nat.not_le.1 h1, Nat.not_lt.1 h2, eq_comm]

end Quota
end AdmissionControl
