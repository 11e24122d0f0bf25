import AdmissionControl.Throttle
import AdmissionControl.Timer

/-!
# Where denied callers wait

A caller whose strategy asks for a wait takes a seat in the waiting room, and leaves it when its time is over
or when the waits are interrupted.  An interrupt stays raised until it is cleared: while it is raised nobody
takes a seat.
-/

namespace AdmissionControl

/-- How callers are kept waiting. -/
inductive Sleeper
  /-- The wait is written down, and the caller goes on. -/
  | tracking
  /-- The caller goes on. -/
  | instant
  /-- The caller waits on the timer. -/
  | timer
  deriving DecidableEq, Repr

/-- Where denied callers wait. -/
structure WaitingRoom where
  /-- How they are kept waiting. -/
  sleeper : Sleeper
  /-- Whether waits are cut short. -/
  isInterrupted : Bool
  /-- The timer on which they wait. -/
  timer : Timer
  /-- The waits that were written down. -/
  slept : List Duration
  deriving DecidableEq, Repr

namespace WaitingRoom

/-- What becomes of a caller that comes to the waiting room. -/
inductive Seat
  /-- It leaves at once: nothing is wrong, or it was not kept to the end. -/
  | leaves (fault : Option ThrottleFault)
  /-- It waits until a time of the timer, for a denial with the given hint. -/
  | waits (deadline : Nat) (retryAfter : Duration)
  deriving DecidableEq, Repr

/-- The waiting room at its start. -/
def start (sleeper : Sleeper) : WaitingRoom := ⟨sleeper, false, Timer.start, []⟩

/-- Raises the interrupt. -/
def interrupt (w : WaitingRoom) : WaitingRoom := { w with isInterrupted := true }

/-- Takes the interrupt back. -/
def clear (w : WaitingRoom) : WaitingRoom := { w with isInterrupted := false }

/-- A caller comes with the plan of its strategy. -/
def enter (w : WaitingRoom) : Plan → Seat × WaitingRoom
  | .pass => (.leaves none, w)
  | .reject hint => (.leaves (some (.rejected hint)), w)
  | .wait time hint =>
      if w.isInterrupted then (.leaves (some (.interrupted hint)), w)
      else
        match w.sleeper with
        | .tracking => (.leaves none, { w with slept := w.slept ++ [time] })
        | .instant => (.leaves none, w)
        | .timer => (.waits (w.timer.deadline time) hint, w)

/-- Whether a caller with a seat leaves: first if the waits are interrupted, then if its time is over. -/
def leave? (w : WaitingRoom) (deadline : Nat) (hint : Duration) : Option (Option ThrottleFault) :=
  if w.isInterrupted then some (some (.interrupted hint))
  else if deadline ≤ w.timer.now then some none
  else none

/-- The waiting room at a later time. -/
def waitUntil (w : WaitingRoom) (target : Nat) : WaitingRoom :=
  { w with timer := (w.timer.waitUntil target).2 }

/-- A single caller from its coming to its leaving.  An interrupt that is set for it is raised if it still
waits by then; a wait that ends at the moment of the interrupt ends in time. -/
def serve (w : WaitingRoom) (plan : Plan) (interruptAfter : Option Duration) :
    Option ThrottleFault × WaitingRoom :=
  match w.enter plan with
  | (.leaves fault, w) => (fault, w)
  | (.waits deadline hint, w) =>
      match interruptAfter.map w.timer.deadline with
      | none => (none, w.waitUntil deadline)
      | some time =>
          if deadline ≤ time then (none, w.waitUntil deadline)
          else (some (.interrupted hint), (w.waitUntil time).interrupt)

end WaitingRoom
end AdmissionControl
