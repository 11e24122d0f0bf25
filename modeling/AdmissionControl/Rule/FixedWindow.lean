import AdmissionControl.Verdict

/-!
# Fixed windows

A client may have so many requests in each window.  Its window starts with its first request, and the first
request after the window is over starts the next one.

* `estimate_eq_some_iff`: what an estimate denies is what the limit and the window deny.
-/

namespace AdmissionControl

/-- The rule of fixed windows. -/
structure FixedWindow where
  /-- The length of a window in milliseconds. -/
  window : Nat
  /-- A window takes time. -/
  window_pos : 0 < window
  deriving Repr

namespace FixedWindow

/-- The rule for a window of so many milliseconds, but at least one. -/
def ofMillis (window : Nat) : FixedWindow := ⟨max window 1, pos_max_one window⟩

/-- What is kept of one client. -/
structure Counter where
  /-- The requests admitted in the current window. -/
  count : Nat
  /-- The time at which the current window started. -/
  start : Nat
  deriving DecidableEq, Repr

namespace Counter

/-- The counter of a window that starts now. -/
def fresh (now : Nat) : Counter := ⟨0, now⟩

/-- One more request. -/
def increment (c : Counter) : Counter := { c with count := Word.wrap (c.count + 1) }

/-- One request less, if there is one. -/
def decrement (c : Counter) : Counter := { c with count := c.count - 1 }

/-- A new window with the count `initial`, unless another window than the expected one is current. -/
def roll (c : Counter) (expected now initial : Nat) : Bool × Counter :=
  if c.start = expected then (true, ⟨initial, now⟩) else (false, c)

end Counter

variable (w : FixedWindow)

/-- Whether the window of a counter is over. -/
def isOver (c : Counter) (now : Nat) : Bool := w.window ≤ now - c.start

/-- The time that is left of the window of a counter. -/
def remaining (c : Counter) (now : Nat) : Nat := w.window - (now - c.start)

/-- The answer to a request at `now` under `limit`, and the counter after it. -/
def decide (limit now : Nat) (kept : Option Counter) : Verdict × Counter :=
  let c := kept.getD (Counter.fresh now)
  if w.isOver c now then (.allowed, (c.roll c.start now 1).2)
  else
    let c' := c.increment
    if c'.count ≤ limit then (.allowed, c') else (.denyMillis (w.remaining c now), c'.decrement)

/-- The answer that can be given without changing anything: a denial. -/
def estimate (limit now : Nat) : Option Counter → Option Verdict
  | none => none
  | some c =>
      if w.isOver c now || c.count < limit then none
      else some (.denyMillis (w.remaining c now))

variable {w}

theorem isOver_fresh (now : Nat) : w.isOver (Counter.fresh now) now = false := by
  have h := w.window_pos
  simp only [isOver, Counter.fresh, Nat.sub_self]
  exact decide_eq_false (Nat.not_le.2 h)

theorem estimate_eq_some_iff {limit now : Nat} {c : Counter} {v : Verdict} :
    w.estimate limit now (some c) = some v ↔
      now - c.start < w.window ∧ limit ≤ c.count ∧ v = .denyMillis (w.remaining c now) := by
  simp only [estimate, isOver]
  by_cases h1 : w.window ≤ now - c.start
  · simp [h1, Nat.not_lt.2 h1]
  · by_cases h2 : c.count < limit
    · simp [h2, Nat.not_le.2 h2]
    · simp [h1, h2, Nat.not_le.1 h1, Nat.not_lt.1 h2, eq_comm]

end FixedWindow
end AdmissionControl
