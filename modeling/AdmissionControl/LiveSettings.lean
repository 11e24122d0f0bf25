import AdmissionControl.Settings

/-!
# Settings that change at run time

The live settings carry a version, which goes up by one with each change.  A change is checked as a whole
before anything is touched; then the new settings go live, the breaker starts afresh with its new settings,
and whoever listens hears of the change.
-/

namespace AdmissionControl

/-- Settings with their version. -/
structure Snapshot where
  /-- The number of the version.  The first one is 1, and each change adds 1: fewer than `Word.max` changes do not
  take it out of its word. -/
  version : Nat
  /-- The settings. -/
  settings : Settings
  deriving DecidableEq, Repr

/-- A change of the live settings. -/
structure Update where
  /-- What was live before. -/
  old : Snapshot
  /-- What is live after. -/
  new : Snapshot
  deriving DecidableEq, Repr

/-- The live settings, and what each listener has heard of changes so far. -/
structure LiveSettings where
  /-- What is live. -/
  current : Snapshot
  /-- The changes that each listener has heard of, the latest last. -/
  heard : List (List Update)
  deriving DecidableEq, Repr

namespace LiveSettings

/-- Sound settings with the settings of their breaker. -/
def accept (settings : Settings) : Except Error (Settings × Breaker.Settings) :=
  match settings.validate with
  | .error error => .error error
  | .ok settings =>
      match settings.breakerSettings with
      | .error error => .error error
      | .ok breakerSettings => .ok (settings, breakerSettings)

/-- Goes live for the first time, with a breaker that takes its settings from there. -/
def start (settings : Settings) (breaker : Breaker) : Except Error (LiveSettings × Breaker) :=
  match accept settings with
  | .error error => .error error
  | .ok (settings, breakerSettings) =>
      .ok (⟨⟨1, settings⟩, []⟩, breaker.reconfigure breakerSettings)

/-- Adds a listener that has heard nothing. -/
def register (l : LiveSettings) : LiveSettings := { l with heard := l.heard ++ [[]] }

/-- Changes the live settings. -/
def update (l : LiveSettings) (settings : Settings) (breaker : Breaker) :
    Except Error (Update × LiveSettings × Breaker) :=
  match accept settings with
  | .error error => .error error
  | .ok (settings, breakerSettings) =>
      let new : Snapshot := ⟨l.current.version + 1, settings⟩
      let change : Update := ⟨l.current, new⟩
      .ok (change, ⟨new, l.heard.map (· ++ [change])⟩, breaker.reconfigure breakerSettings)

end LiveSettings
end AdmissionControl
