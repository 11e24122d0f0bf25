import AdmissionControl.Verdict

/-!
# Sliding windows

A client may have so many requests in any stretch of time as long as the window.  The times of its admitted
requests are kept in a log; a time leaves the log when the window has moved past it.

* `estimate_eq_some_iff`: what an estimate denies is what the limit denies.
-/

namespace AdmissionControl

/-- The rule of sliding windows. -/
structure SlidingWindow where
  /-- The length of the window in milliseconds. -/
  window : Nat
  /-- The window takes time. -/
  window_pos : 0 < window
  deriving Repr

namespace SlidingWindow

/-- The rule for a window of so many milliseconds, but at least one. -/
def ofMillis (window : Nat) : SlidingWindow := ⟨max window 1, pos_max_one window⟩

/-- The times of the admitted requests of one client, in the order in which they came. -/
structure Log where
  /-- The times in milliseconds. -/
  times : List Nat
  deriving DecidableEq, Repr

namespace Log

/-- The log without entries. -/
def empty : Log := ⟨[]⟩

/-- The number of entries. -/
def size (l : Log) : Nat := l.times.length

/-- The entry at the front. -/
def oldest? (l : Log) : Option Nat := l.times.head?

/-- The log from its first entry after `cutoff` on. -/
def live (l : Log) (cutoff : Nat) : Log := ⟨l.times.dropWhile (· ≤ cutoff)⟩

/-- The number of entries before the first one after `cutoff`. -/
def stale (l : Log) (cutoff : Nat) : Nat := (l.times.takeWhile (· ≤ cutoff)).length

/-- The log with one more entry at its end. -/
def push (l : Log) (time : Nat) : Log := ⟨l.times ++ [time]⟩

end Log

variable (w : SlidingWindow)

/-- The log as it counts at `now`: while the clock has not passed one window, nothing is old. -/
def current (l : Log) (now : Nat) : Log := if w.window ≤ now then l.live (now - w.window) else l

/-- How long until the front of the log leaves the window. -/
def retryAfter (l : Log) (now : Nat) : Nat :=
  match l.oldest? with
  | some oldest => w.window - (now - oldest)
  | none => 1

/-- The answer to a request at `now` under `limit`, and the log after it. -/
def decide (limit now : Nat) (kept : Option Log) : Verdict × Log :=
  let l := w.current (kept.getD Log.empty) now
  if l.size < limit then (.allowed, l.push now) else (.denyMillis (w.retryAfter l now), l)

/-- The answer that can be given without changing anything: a denial. -/
def estimate (limit now : Nat) : Option Log → Option Verdict
  | none => none
  | some kept =>
      let l := w.current kept now
      if l.size < limit then none else some (.denyMillis (w.retryAfter l now))

variable {w}

theorem estimate_eq_some_iff {limit now : Nat} {l : Log} {v : Verdict} :
    w.estimate limit now (some l) = some v ↔
      limit ≤ (w.current l now).size ∧ v = .denyMillis (w.retryAfter (w.current l now) now) := by
  simp only [estimate]
  by_cases h : (w.current l now).size < limit
  · simp [h, Nat.not_le.2 h]
  · simp [h, Nat.not_lt.1 h, eq_comm]

end SlidingWindow
end AdmissionControl
