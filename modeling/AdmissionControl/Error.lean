import AdmissionControl.Breaker
import AdmissionControl.Settings.Fault

/-!
# Why a request or a configuration is turned away

Every failure is a cause with the data that belongs to it; its wording is in one function
(`Error.message`).
-/

namespace AdmissionControl

/-- What is wrong with what a caller handed in. -/
inductive InputFault
  /-- The client has no identifier but blanks. -/
  | blankClient
  /-- The policy has the rate zero. -/
  | zeroRate
  /-- A lock is never tried. -/
  | zeroRetries
  /-- A lock is tried for no time. -/
  | zeroTimeout
  /-- A reason in words. -/
  | other (reason : String)
  deriving DecidableEq, Repr

/-- The fault in words. -/
def InputFault.message : InputFault → String
  | blankClient => "client id must not be empty"
  | zeroRate => "policy requests_per_second must be >= 1"
  | zeroRetries => "lock retries must be >= 1"
  | zeroTimeout => "lock timeout must be > 0"
  | other reason => reason

/-- Why there is no answer. -/
inductive Error
  /-- What the caller handed in is not sound. -/
  | invalid (fault : InputFault)
  /-- A client's lock was held by somebody else through all tries. -/
  | lockTimeout (client : String) (attempts : Nat) (timeout : Duration)
  /-- The wait of a denied request was cut short. -/
  | interrupted (client endpoint : String) (retryAfter : Duration)
  /-- A denied request was turned away. -/
  | rejected (client endpoint : String) (retryAfter : Duration)
  /-- No algorithm has this name. -/
  | unknownAlgorithm (name : String)
  /-- No tier has this name, or the tier has no rate. -/
  | unknownTier (name : String)
  /-- No strategy has this name. -/
  | unknownStrategy (name : String)
  /-- A configuration was refused. -/
  | settings (fault : SettingsFault)
  /-- A breaker cannot be set up. -/
  | breaker (fault : BreakerFault)
  deriving DecidableEq, Repr

namespace Error

/-- The error in words. -/
def message : Error → String
  | invalid fault => "invalid rate limit input: " ++ fault.message
  | lockTimeout client attempts timeout =>
      s!"failed to acquire write lock for client '{client}' after {attempts} attempts (" ++
        timeout.text ++ " each)"
  | interrupted client endpoint retryAfter =>
      s!"throttling wait interrupted for client '{client}' on '{endpoint}' (retry after " ++
        retryAfter.text ++ ")"
  | rejected client endpoint retryAfter =>
      s!"rate limit exceeded for client '{client}' on '{endpoint}'; retry after " ++
        retryAfter.text
  | unknownAlgorithm name => s!"unsupported algorithm type: {name}"
  | unknownTier name => s!"unsupported client type: {name}"
  | unknownStrategy name => s!"unsupported throttling strategy type: {name}"
  | settings fault => "invalid configuration: " ++ fault.message
  | breaker fault => fault.message

/-- Whether the caller handed in something unsound. -/
def isInvalid : Error → Bool
  | invalid _ => true
  | _ => false

/-- Whether a lock could not be had. -/
def isLockTimeout : Error → Bool
  | lockTimeout .. => true
  | _ => false

/-- Whether a denied request was turned away. -/
def isRejected : Error → Bool
  | rejected .. => true
  | _ => false

/-- Whether a wait was cut short. -/
def isInterrupted : Error → Bool
  | interrupted .. => true
  | _ => false

/-- After how long the request may be repeated, if the error says so. -/
def retryAfter? : Error → Option Duration
  | interrupted _ _ hint => some hint
  | rejected _ _ hint => some hint
  | _ => none

/-- The client that the error is about. -/
def client? : Error → Option String
  | lockTimeout client .. => some client
  | interrupted client .. => some client
  | rejected client .. => some client
  | _ => none

end Error

/-! ## Reading names -/

/-- The tier of a loosely spelled name, or the error that holds the name as given. -/
def Tier.read (s : String) : Except Error Tier :=
  match ofText? s with
  | some tier => .ok tier
  | none => .error (.unknownTier s)

/-- The algorithm of a loosely spelled name, or the error that holds the name as given. -/
def AlgorithmKind.read (s : String) : Except Error AlgorithmKind :=
  match ofText? s with
  | some kind => .ok kind
  | none => .error (.unknownAlgorithm s)

/-- The strategy of a loosely spelled name, or the error that holds the name as given. -/
def StrategyKind.read (s : String) : Except Error StrategyKind :=
  match ofText? s with
  | some kind => .ok kind
  | none => .error (.unknownStrategy s)

@[simp] theorem Tier.read_name (t : Tier) : Tier.read t.name = .ok t := by
  rw [read, ofText?_name]

@[simp] theorem AlgorithmKind.read_name (k : AlgorithmKind) : AlgorithmKind.read k.name = .ok k := by
  rw [read, ofText?_name]

@[simp] theorem StrategyKind.read_name (k : StrategyKind) : StrategyKind.read k.name = .ok k := by
  rw [read, ofText?_name]

end AdmissionControl
