import AdmissionControl.Settings
import AdmissionControl.Store.Exemptions

/-!
# Limiters of endpoints

An endpoint is served by the limiter of its algorithm.  The limiter of an algorithm is made when it is first
needed, from the settings of the check that needs it, and then serves every endpoint with that algorithm.
When the settings change, all limiters are dropped.
-/

namespace AdmissionControl

/-- The limiters that have been needed so far. -/
structure Limiters where
  /-- The limiter of each algorithm. -/
  made : Table AlgorithmKind Limiter

namespace Limiters

/-- No limiter has been needed yet. -/
def empty : Limiters := ⟨Table.empty⟩

/-- The number of limiters. -/
def size (ls : Limiters) : Nat := ls.made.size

/-- The number of clients that are tracked by all limiters together. -/
def tracked (ls : Limiters) : Nat :=
  ls.made.entries.foldr (fun e n => e.2.tracked + n) 0

/-- The limiter of an algorithm, made from `settings` if there is none. -/
def obtain (ls : Limiters) (kind : AlgorithmKind) (settings : Settings) :
    Except Error (Limiter × Limiters) :=
  match ls.made.get? kind with
  | some limiter => .ok (limiter, ls)
  | none =>
      match settings.limiter kind with
      | .ok limiter => .ok (limiter, ⟨ls.made.set kind limiter⟩)
      | .error error => .error error

/-- A check of a record on an endpoint: an exempt client passes, and all others go to the limiter of the
endpoint's algorithm. -/
def check (ls : Limiters) (exemptions : Exemptions) (breaker : Breaker) (breakerNow now : Nat)
    (endpoint : String) (record : Record) (settings : Settings) :
    Except Error Admission × Limiters × Breaker :=
  if exemptions.contains record.client then (.ok (.pass record), ls, breaker)
  else
    let kind := settings.algorithmFor endpoint
    match ls.obtain kind settings with
    | .error error => (.error error, ls, breaker)
    | .ok (limiter, ls) =>
        let (outcome, limiter, breaker) := limiter.check breaker breakerNow now record
        (outcome, ⟨ls.made.set kind limiter⟩, breaker)

/-- Forgets the idle clients of every limiter, and says how many they were. -/
def sweep (ls : Limiters) (now : Nat) : Nat × Limiters :=
  (ls.made.entries.foldr (fun e n => (e.2.idleClients now).length + n) 0,
    ⟨ls.made.map (·.sweep now)⟩)

end Limiters
end AdmissionControl
