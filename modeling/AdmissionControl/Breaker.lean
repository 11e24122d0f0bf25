import AdmissionControl.Duration
import AdmissionControl.Word

/-!
# The circuit breaker

The breaker stands before every limiter.  It is closed while requests are admitted now and then; after so
many denials in a row it opens, and an open breaker lets nothing through until its reset time is over.
Then it is half open, and the next outcome decides: an admission closes it, a denial opens it again.

The breaker changes state only when it is asked (`query`) or told an outcome (`succeed`, `fail`): nothing
happens by the mere passing of time.

* `query_closed`, `query_opened`, `query_halfOpen`: what a query answers in each state.
-/

namespace AdmissionControl

/-! ## Settings of a breaker -/

/-- Why a breaker cannot be set up. -/
inductive BreakerFault
  /-- The number of denials is zero. -/
  | zeroThreshold (provided : Nat)
  /-- The reset time is zero. -/
  | zeroReset (provided : Duration)
  deriving DecidableEq, Repr

/-- The fault in words. -/
def BreakerFault.message : BreakerFault → String
  | zeroThreshold provided => s!"failure_threshold must be > 0 (got {provided})"
  | zeroReset provided => "reset_timeout must be > 0 (got " ++ provided.text ++ ")"

namespace Breaker

/-- When a breaker opens, and for how long. -/
structure Settings where
  /-- The number of denials in a row that opens the breaker. -/
  threshold : Nat
  /-- How long the breaker stays open. -/
  reset : Duration
  deriving DecidableEq, Repr

/-- Settings with both numbers above zero. -/
def Settings.build (threshold : Nat) (reset : Duration) : Except BreakerFault Settings :=
  if threshold = 0 then .error (.zeroThreshold threshold)
  else if reset.nanos = 0 then .error (.zeroReset reset)
  else .ok ⟨threshold, reset⟩

/-- The largest number of failures that is counted. -/
def maxFailures : Nat := 0xFFFFFFFF

/-- Where a breaker stands. -/
inductive State
  /-- Requests go through. -/
  | closed
  /-- Nothing goes through. -/
  | opened
  /-- Requests go through, and the first outcome decides. -/
  | halfOpen
  deriving DecidableEq, Repr

/-- The name of a state. -/
def State.name : State → String
  | closed => "Closed"
  | opened => "Open"
  | halfOpen => "HalfOpen"

end Breaker

/-- A breaker. -/
structure Breaker where
  /-- When it opens and for how long. -/
  settings : Breaker.Settings
  /-- Where it stands. -/
  state : Breaker.State
  /-- The denials counted since the last admission. -/
  failures : Nat
  /-- The time at which it was opened, until it is closed again. -/
  lastOpened? : Option Nat
  deriving DecidableEq, Repr

namespace Breaker

/-- A closed breaker without failures. -/
def fresh (settings : Settings) : Breaker := ⟨settings, .closed, 0, none⟩

/-- Whether requests may go through at `now`.  A closed breaker with enough failures opens, and an open one
whose time is over becomes half open. -/
def query (b : Breaker) (now : Nat) : Bool × Breaker :=
  match b.state with
  | .closed =>
      if b.settings.threshold ≤ b.failures then
        (false, { b with state := .opened, lastOpened? := some now })
      else (true, b)
  | .opened =>
      if b.settings.reset.millis ≤ now - b.lastOpened?.getD 0 then (true, { b with state := .halfOpen })
      else (false, b)
  | .halfOpen => (true, b)

/-- A request was admitted. -/
def succeed (b : Breaker) : Breaker :=
  match b.state with
  | .halfOpen => { b with state := .closed, failures := 0, lastOpened? := none }
  | _ => { b with failures := 0 }

/-- A request was denied at `now`. -/
def fail (b : Breaker) (now : Nat) : Breaker :=
  match b.state with
  | .halfOpen => { b with state := .opened, failures := 0, lastOpened? := some now }
  | _ => { b with failures := min (b.failures + 1) maxFailures }

/-- The breaker as new, with the same settings. -/
def reset (b : Breaker) : Breaker := fresh b.settings

/-- The breaker as new, with other settings. -/
def reconfigure (_ : Breaker) (settings : Settings) : Breaker := fresh settings

/-- The outcome of a request reaches the breaker. -/
def observe (b : Breaker) (isAllowed : Bool) (now : Nat) : Breaker :=
  if isAllowed then b.succeed else b.fail now

/-! ## What a query answers -/

theorem query_closed {b : Breaker} (h : b.state = .closed) (now : Nat) :
    (b.query now).1 = decide (b.failures < b.settings.threshold) := by
  rw [query, h]
  by_cases hf : b.settings.threshold ≤ b.failures
  · simp [hf, Nat.not_lt.2 hf]
  · simp [hf, Nat.not_le.1 hf]

theorem query_opened {b : Breaker} (h : b.state = .opened) (now : Nat) :
    (b.query now).1 = decide (b.settings.reset.millis ≤ now - b.lastOpened?.getD 0) := by
  rw [query, h]
  by_cases hf : b.settings.reset.millis ≤ now - b.lastOpened?.getD 0
  · simp [hf]
  · simp [hf]

theorem query_halfOpen {b : Breaker} (h : b.state = .halfOpen) (now : Nat) :
    b.query now = (true, b) := by
  rw [query, h]

/-! ## Events -/

/-- What can be done to a breaker from outside. -/
inductive Event
  /-- It is asked whether requests may go through. -/
  | query
  /-- A request was admitted. -/
  | success
  /-- A request was denied. -/
  | failure
  /-- It is set back. -/
  | reset
  /-- It gets other settings, if they are sound. -/
  | reconfigure (threshold : Nat) (reset : Duration)
  deriving DecidableEq, Repr

/-- What an event answers. -/
inductive Reply
  /-- Nothing. -/
  | done
  /-- Whether requests may go through. -/
  | passes (yes : Bool)
  /-- The settings are not sound. -/
  | refused (fault : BreakerFault)
  deriving DecidableEq, Repr

/-- The breaker after an event at `now`. -/
def react (b : Breaker) (now : Nat) : Event → Reply × Breaker
  | .query => let (yes, b') := b.query now; (.passes yes, b')
  | .success => (.done, b.succeed)
  | .failure => (.done, b.fail now)
  | .reset => (.done, b.reset)
  | .reconfigure threshold reset =>
      match Settings.build threshold reset with
      | .ok settings => (.done, b.reconfigure settings)
      | .error fault => (.refused fault, b)

end Breaker
end AdmissionControl
