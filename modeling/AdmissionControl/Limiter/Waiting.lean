import AdmissionControl.Limiter
import AdmissionControl.Timer

/-!
# A limiter with its sweepers

While somebody waits on the timer, the sweepers of a limiter fall due.  What they forget depends on the clock,
which stands still meanwhile, so all sweeps of one wait do what the first of them does.
-/

namespace AdmissionControl
namespace Limiter

/-- Waits on the timer until `target`, with the clock at `now`. -/
def waitUntil (l : Limiter) (timer : Timer) (target now : Nat) : Limiter × Timer :=
  let (due, timer) := timer.waitUntil target
  (if due then l.sweep now else l, timer)

end Limiter
end AdmissionControl
