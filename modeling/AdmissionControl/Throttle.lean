import AdmissionControl.Settings

/-!
# What happens to a denied request

A strategy turns a denial into a wait or turns the caller away; what is allowed passes untouched.  A wait can
be cut short by an interrupt, which stays raised until it is cleared.  Strategies are made when they are first
needed, for each endpoint and tier, and dropped when the settings change.
-/

namespace AdmissionControl

/-! ## Strategies -/

/-- A strategy with what it needs. -/
inductive Strategy
  /-- Wait for as long as the denial asks. -/
  | delay
  /-- Turn the caller away. -/
  | reject
  /-- Wait for `initial · multiplier ^ t`, where `t` is what the denial asks in seconds. -/
  | backoff (initial : Duration) (multiplier : Float)
  deriving DecidableEq, Repr

namespace Strategy

/-- The kind of a strategy. -/
def kind : Strategy → StrategyKind
  | delay => .delay
  | reject => .reject
  | backoff .. => .exponentialBackoff

/-- The strategy of a kind under settings. -/
def ofKind (settings : Settings) : StrategyKind → Strategy
  | .delay => delay
  | .reject => reject
  | .exponentialBackoff => backoff settings.backoffDelay settings.backoffMultiplier

/-- The wait of a backoff in whole milliseconds: as long as a word allows if the number is too large or no
number at all. -/
def backoffDelay (initial : Duration) (multiplier : Float) (retryAfter : Duration) : Duration :=
  let exponent := Float.ofNat retryAfter.millis / 1000.0
  let millis := Float.ofNat initial.millis * Float.pow multiplier exponent
  if millis.isFinite then Duration.ofMillis millis.toUInt64.toNat else Duration.ofMillis Word.max

end Strategy

/-- What a strategy makes of a verdict. -/
inductive Plan
  /-- The caller goes on at once. -/
  | pass
  /-- The caller is turned away. -/
  | reject (retryAfter : Duration)
  /-- The caller waits for `time` before it hears of the denial. -/
  | wait (time retryAfter : Duration)
  deriving DecidableEq, Repr

/-- What a strategy makes of a verdict. -/
def Strategy.plan (s : Strategy) : Verdict → Plan
  | .allowed => .pass
  | .denied hint =>
      match s with
      | .delay => .wait hint hint
      | .reject => .reject hint
      | .backoff initial multiplier => .wait (backoffDelay initial multiplier hint) hint

/-- Why a denied caller was not kept waiting to the end. -/
inductive ThrottleFault
  /-- It was turned away. -/
  | rejected (retryAfter : Duration)
  /-- Its wait was cut short. -/
  | interrupted (retryAfter : Duration)
  deriving DecidableEq, Repr

namespace ThrottleFault

/-- The fault in words. -/
def message : ThrottleFault → String
  | rejected hint => "request rejected; retry after " ++ hint.text
  | interrupted hint => "throttling wait interrupted (retry after " ++ hint.text ++ ")"

/-- After how long the request may be repeated. -/
def retryAfter : ThrottleFault → Duration
  | rejected hint => hint
  | interrupted hint => hint

/-- The error of a request of a client on an endpoint. -/
def toError (client endpoint : String) : ThrottleFault → Error
  | rejected hint => .rejected client endpoint hint
  | interrupted hint => .interrupted client endpoint hint

end ThrottleFault

/-! ## Strategies of endpoints and tiers -/

/-- The strategies that have been needed so far. -/
structure Strategies where
  /-- The strategy of each endpoint for each tier. -/
  made : Table (String × Tier) Strategy

namespace Strategies

/-- No strategy has been needed yet. -/
def empty : Strategies := ⟨Table.empty⟩

/-- The number of strategies. -/
def size (s : Strategies) : Nat := s.made.size

/-- The strategy of an endpoint for a tier, made from `settings` if there is none. -/
def obtain (s : Strategies) (endpoint : String) (tier : Tier) (settings : Settings) :
    Strategy × Strategies :=
  match s.made.get? (endpoint, tier) with
  | some strategy => (strategy, s)
  | none =>
      let strategy := Strategy.ofKind settings (settings.strategyFor endpoint tier)
      (strategy, ⟨s.made.set (endpoint, tier) strategy⟩)

end Strategies
end AdmissionControl
