import AdmissionControl.Duration

/-!
# The timer

Waits and periodic sweeps go by a timer of their own, which counts whole milliseconds and moves only when
somebody waits.  A sweeper falls due after each of its intervals.  A sweep that falls due at the very end of a
wait is left for the next one: whoever waited goes first.  A wait of no time is a wait, too: whatever is due
goes first.

The timer names moments in signed seconds and in words of milliseconds.  A wait beyond the last second takes
thirty years, and none goes beyond the last millisecond.

* `catchUp_of_le`: nothing is due before a sweeper's first interval is over.
* `le_waitUntil`: no wait moves the timer back.
-/

namespace AdmissionControl

/-! ## Very long waits -/

namespace Duration

/-- The largest number of seconds that the timer can name. -/
def lastSecond : Duration := ofParts 0x7FFFFFFFFFFFFFFF 0

/-- Thirty years of 365 days. -/
def thirtyYears : Duration := ofParts 946080000 0

/-- A length of time as the timer takes it: thirty years for one that reaches the last second. -/
def bounded (d : Duration) : Duration := if lastSecond.nanos ≤ d.nanos then thirtyYears else d

end Duration

/-! ## Sweepers -/

/-- Something that falls due after each interval. -/
structure Sweeper where
  /-- When it started. -/
  start : Nat
  /-- The length of an interval. -/
  interval : Duration
  /-- The number of times it has been served. -/
  served : Nat
  deriving DecidableEq, Repr

namespace Sweeper

/-- How often the sweeper falls due before the time `limit`; without an interval it never does. -/
def dueBefore (s : Sweeper) (limit : Nat) : Nat :=
  if s.interval.nanos = 0 then 0 else (limit - s.start - 1) * 1000000 / s.interval.nanos

/-- The sweeper when it has been served as often as it fell due before `limit`. -/
def serve (s : Sweeper) (limit : Nat) : Sweeper := { s with served := max s.served (s.dueBefore limit) }

/-- Whether the sweeper falls due again before `limit`. -/
def isDue (s : Sweeper) (limit : Nat) : Bool := s.served < s.dueBefore limit

end Sweeper

/-! ## Timers -/

/-- A timer with its sweepers. -/
structure Timer where
  /-- The time in milliseconds. -/
  now : Nat
  /-- The sweepers that were started. -/
  sweepers : List Sweeper
  deriving DecidableEq, Repr

namespace Timer

/-- The timer at its start. -/
def start : Timer := ⟨0, []⟩

/-- Starts a sweeper. -/
def spawn (t : Timer) (interval : Duration) : Timer :=
  { t with sweepers := t.sweepers ++ [⟨t.now, interval.bounded, 0⟩] }

/-- Serves every sweeper that falls due before `limit`, and says whether there was one. -/
def catchUp (t : Timer) (limit : Nat) : Bool × Timer :=
  (t.sweepers.any (·.isDue limit), { t with sweepers := t.sweepers.map (·.serve limit) })

/-- Waits until `target`, and says whether a sweeper was due by now or fell due before `target`. -/
def waitUntil (t : Timer) (target : Nat) : Bool × Timer :=
  let (due, t') := t.catchUp (max target (t.now + 1))
  (due, { t' with now := max t.now target })

/-- The last time of a timer, in milliseconds. -/
def last : Nat := 0xFFFFFFFFFFFFFFFD

/-- The time at which a wait that starts now is over. -/
def deadline (t : Timer) (wait : Duration) : Nat := min (t.now + wait.bounded.ceilMillis) last

theorem catchUp_of_le {t : Timer} {limit : Nat} (h : ∀ s ∈ t.sweepers, s.dueBefore limit = 0) :
    (t.catchUp limit).1 = false := by
  simp only [catchUp, Sweeper.isDue, List.any_eq_false, decide_eq_true_eq, Nat.not_lt]
  intro s hs
  rw [h s hs]
  exact Nat.zero_le _

theorem le_waitUntil (t : Timer) (target : Nat) : t.now ≤ (t.waitUntil target).2.now :=
  Nat.le_max_left ..

end Timer
end AdmissionControl
