import AdmissionControl.Duration
import AdmissionControl.Word

/-!
# The clock

Time is a number of milliseconds in a machine word.  The clock stands still until it is moved: forward by
the whole milliseconds of a duration, starting again from zero when the word is full, or to any time.

* `advance_mono`: the clock moves forward as long as the word is not full.
-/

namespace AdmissionControl

/-- A clock that is moved by hand. -/
structure Clock where
  /-- The time in milliseconds. -/
  now : Nat
  deriving DecidableEq, Repr

namespace Clock

/-- One movement of a clock. -/
inductive Move
  /-- Forward by a duration. -/
  | advance (by_ : Duration)
  /-- To a time. -/
  | set (time : Nat)
  deriving DecidableEq, Repr

/-- The clock after a movement. -/
def move (c : Clock) : Move → Clock
  | .advance d => ⟨Word.wrap (c.now + Word.saturate d.millis)⟩
  | .set time => ⟨time⟩

theorem advance_mono {c : Clock} {d : Duration} (h : c.now + d.millis ≤ Word.max) :
    c.now ≤ (c.move (.advance d)).now := by
  have hd : Word.saturate d.millis = d.millis := Word.saturate_of_le (by omega)
  simp only [move, hd, Word.wrap_of_le h]
  omega

end Clock
end AdmissionControl
