import AdmissionControl.Limiter
import AdmissionControl.TierTable

/-!
# Settings

Everything that can be configured: rates of tiers, algorithms of endpoints, sizes of windows and buckets, the
breaker, the backoff, the strategies for denied requests, and locking.  Settings may be unsound while they
are put together; `fault?` names the first thing that is wrong with them.
-/

namespace AdmissionControl

/-- A configuration. -/
structure Settings where
  /-- The rate of each tier. -/
  rates : TierTable UInt32
  /-- The algorithm of endpoints without one of their own. -/
  defaultAlgorithm : AlgorithmKind
  /-- The algorithms of single endpoints. -/
  algorithms : Table String AlgorithmKind
  /-- The length of a sliding window in milliseconds. -/
  slidingWindow : UInt64
  /-- The size of buckets. -/
  bucketCapacity : UInt64
  /-- The rate at which buckets fill; kept for documents that set it. -/
  refillRate : UInt64
  /-- The length of a fixed window, and of the time in which a rate's tokens come in. -/
  timeWindow : UInt64
  /-- The denials that open the breaker. -/
  breakerThreshold : UInt32
  /-- How many milliseconds the breaker stays open. -/
  breakerReset : UInt64
  /-- The shortest backoff in milliseconds. -/
  backoffInitial : UInt64
  /-- The growth of the backoff for each second of a hint. -/
  backoffMultiplier : Float
  /-- The strategies of single endpoints and tiers. -/
  strategies : Table String (TierTable StrategyKind)
  /-- The strategy where no other is set. -/
  defaultStrategy : StrategyKind
  /-- The quota of a day. -/
  quotaLimit : UInt64
  /-- After how many milliseconds without requests a client is forgotten. -/
  clientInactivity : UInt64
  /-- How often a client's lock is tried. -/
  lockRetries : UInt32
  /-- How many milliseconds each try of a lock takes. -/
  lockTimeout : UInt64
  deriving DecidableEq, Repr

namespace Settings

/-- The settings where nothing is set. -/
def standard : Settings where
  rates := ⟨some 10, some 50, some 100, some 200, some 20, some 1000⟩
  defaultAlgorithm := .tokenBucket
  algorithms := Table.empty
  slidingWindow := 1000
  bucketCapacity := 10
  refillRate := 10
  timeWindow := 1000
  breakerThreshold := 5
  breakerReset := 30000
  backoffInitial := 100
  backoffMultiplier := 2.0
  strategies := Table.empty
  defaultStrategy := .delay
  quotaLimit := 10000
  clientInactivity := 3600000
  lockRetries := 3
  lockTimeout := 5000

instance : Inhabited Settings := ⟨standard⟩

/-! ## Soundness -/

/-- The first tier with the rate zero. -/
def zeroRate? (s : Settings) : Option Tier := Tier.all.find? fun tier => s.rates.get? tier == some 0

/-- Whether a growth is a finite number of at least one. -/
def isGrowth (x : Float) : Bool := x.isFinite && 1.0 ≤ x

/-- The checks of single settings, in the order in which they are made. -/
def checks (s : Settings) : List (Bool × SettingsFault) :=
  [(s.slidingWindow != 0, .zero .slidingWindowSize),
    (s.bucketCapacity != 0, .zero .bucketCapacity),
    (s.refillRate != 0, .zero .refillRate),
    (s.timeWindow != 0, .zero .timeWindow),
    (s.breakerThreshold != 0, .zero .breakerThreshold),
    (s.breakerReset != 0, .zero .breakerReset),
    (s.backoffInitial != 0, .zero .backoffInitial),
    (isGrowth s.backoffMultiplier, .badMultiplier s.backoffMultiplier),
    (s.quotaLimit != 0, .zero .quotaLimit),
    (s.clientInactivity != 0, .zero .clientInactivity),
    (s.lockRetries != 0, .zero .lockRetries),
    (s.lockTimeout != 0, .zero .lockTimeout)]

/-- The first thing that is wrong: a rate in the order of tiers, or one of the checks. -/
def fault? (s : Settings) : Option SettingsFault :=
  match s.zeroRate? with
  | some tier => some (.zeroRate tier)
  | none => (s.checks.find? fun c => !c.1).map Prod.snd

/-- Passes sound settings on. -/
def validate (s : Settings) : Except Error Settings :=
  match s.fault? with
  | some fault => .error (.settings fault)
  | none => .ok s

theorem validate_eq_ok_iff {s t : Settings} : s.validate = .ok t ↔ s.fault? = none ∧ t = s := by
  rw [validate]
  cases s.fault? with
  | some fault => simp
  | none => simp [eq_comm]

/-! ## What the settings say -/

/-- The policy of a tier: internal clients have no limit, and a tier without a rate is not supported. -/
def policyFor (s : Settings) : Tier → Except Error Policy
  | .internal => .ok .unrestricted
  | tier =>
      match s.rates.get? tier with
      | some rate => Policy.build rate
      | none => .error (.unknownTier tier.name)

/-- The algorithm of an endpoint. -/
def algorithmFor (s : Settings) (endpoint : String) : AlgorithmKind :=
  (s.algorithms.get? endpoint).getD s.defaultAlgorithm

/-- The strategy of an endpoint for a tier. -/
def strategyFor (s : Settings) (endpoint : String) (tier : Tier) : StrategyKind :=
  ((s.strategies.get? endpoint).bind (·.get? tier)).getD s.defaultStrategy

/-- The settings of the breaker. -/
def breakerSettings (s : Settings) : Except Error Breaker.Settings :=
  match Breaker.Settings.build s.breakerThreshold.toNat (Duration.ofMillis s.breakerReset.toNat) with
  | .ok settings => .ok settings
  | .error fault => .error (.breaker fault)

/-- How locks are tried. -/
def locking (s : Settings) : Except Error Locking :=
  Locking.build s.lockRetries.toNat (Duration.ofMillis s.lockTimeout.toNat)

/-- The shortest backoff. -/
def backoffDelay (s : Settings) : Duration := Duration.ofMillis s.backoffInitial.toNat

/-- The rule of an algorithm. -/
def rule (s : Settings) : AlgorithmKind → Rule
  | .fixedWindow => .fixedWindow (.ofMillis s.timeWindow.toNat)
  | .slidingWindow => .slidingWindow (.ofMillis s.slidingWindow.toNat)
  | .tokenBucket => .tokenBucket (.ofMillis s.bucketCapacity.toNat s.timeWindow.toNat)
  | .leakyBucket => .leakyBucket ⟨s.bucketCapacity.toNat⟩
  | .quota => .quota (.daily s.quotaLimit.toNat)

/-- A limiter for an algorithm. -/
def limiter (s : Settings) (kind : AlgorithmKind) : Except Error Limiter :=
  match s.locking with
  | .ok locking =>
      .ok (.ofRule (s.rule kind) locking (Duration.ofMillis s.clientInactivity.toNat))
  | .error error => .error error

@[simp] theorem kind_rule (s : Settings) (kind : AlgorithmKind) : (s.rule kind).kind = kind := by
  cases kind <;> rfl

end Settings
end AdmissionControl
