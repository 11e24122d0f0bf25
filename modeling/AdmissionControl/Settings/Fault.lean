import AdmissionControl.Decimal.Shortest
import AdmissionControl.Naming

/-!
# Settings by name, and what can be wrong with them

The seventeen settings in the order in which documents list them, and the reasons for which a
configuration is refused.

* `Setting.ofName?_name`: the name of a setting reads back as that setting.
-/

namespace AdmissionControl

/-- The settings of a configuration. -/
inductive Setting
  /-- The rate of each tier. -/
  | requestsPerSecond
  /-- The algorithm of endpoints without one of their own. -/
  | defaultAlgorithm
  /-- The algorithms of single endpoints. -/
  | algorithmByEndpoint
  /-- The length of a sliding window. -/
  | slidingWindowSize
  /-- The size of buckets. -/
  | bucketCapacity
  /-- The rate at which buckets fill; kept for documents that set it. -/
  | refillRate
  /-- The length of a fixed window, and of the time in which a rate's tokens come in. -/
  | timeWindow
  /-- The denials that open the breaker. -/
  | breakerThreshold
  /-- How long the breaker stays open. -/
  | breakerReset
  /-- The shortest backoff. -/
  | backoffInitial
  /-- The growth of the backoff. -/
  | backoffMultiplier
  /-- The strategies of single endpoints and tiers. -/
  | throttlingStrategies
  /-- The strategy where no other is set. -/
  | defaultStrategy
  /-- The quota of a day. -/
  | quotaLimit
  /-- After how long without requests a client is forgotten. -/
  | clientInactivity
  /-- How often a client's lock is tried. -/
  | lockRetries
  /-- How long each try of a lock takes. -/
  | lockTimeout
  deriving DecidableEq, Repr

namespace Setting

/-- The settings in the order in which documents list them. -/
def all : List Setting :=
  [requestsPerSecond, defaultAlgorithm, algorithmByEndpoint, slidingWindowSize, bucketCapacity,
    refillRate, timeWindow, breakerThreshold, breakerReset, backoffInitial, backoffMultiplier,
    throttlingStrategies, defaultStrategy, quotaLimit, clientInactivity, lockRetries, lockTimeout]

/-- The name in documents. -/
def name : Setting → String
  | requestsPerSecond => "requests_per_second"
  | defaultAlgorithm => "default_algorithm"
  | algorithmByEndpoint => "algorithm_by_endpoint"
  | slidingWindowSize => "sliding_window_size"
  | bucketCapacity => "bucket_capacity"
  | refillRate => "refill_rate"
  | timeWindow => "time_window_millis"
  | breakerThreshold => "circuit_breaker_failure_threshold"
  | breakerReset => "circuit_breaker_reset_timeout_millis"
  | backoffInitial => "exponential_backoff_initial_delay"
  | backoffMultiplier => "exponential_backoff_multiplier"
  | throttlingStrategies => "throttling_strategies"
  | defaultStrategy => "default_throttling_strategy"
  | quotaLimit => "quota_limit"
  | clientInactivity => "client_inactivity_millis"
  | lockRetries => "lock_retries"
  | lockTimeout => "lock_timeout_millis"

/-- The setting of a name. -/
def ofName? (s : String) : Option Setting := all.find? fun x => x.name == s

theorem mem_all (x : Setting) : x ∈ all := by cases x <;> decide

theorem ofName?_name (x : Setting) : ofName? x.name = some x := by cases x <;> decide +kernel

end Setting

/-- Why a configuration is refused. -/
inductive SettingsFault
  /-- The document is not what a configuration looks like. -/
  | unreadable
  /-- The rate of a tier is zero. -/
  | zeroRate (tier : Tier)
  /-- A setting is zero. -/
  | zero (setting : Setting)
  /-- The growth of the backoff is below one or not a finite number. -/
  | badMultiplier (value : Float)
  /-- A reason in words. -/
  | other (reason : String)
  deriving DecidableEq, Repr

/-- The fault in words. -/
def SettingsFault.message : SettingsFault → String
  | unreadable => "the document cannot be read"
  | zeroRate tier => Setting.requestsPerSecond.name ++ "[" ++ tier.name ++ "] must be >= 1 (got 0)"
  | zero setting => setting.name ++ " must be >= 1 (got 0)"
  | badMultiplier value =>
      Setting.backoffMultiplier.name ++ " must be a finite number >= 1 (got " ++
        Decimal.text .plain value ++ ")"
  | other reason => reason

end AdmissionControl
