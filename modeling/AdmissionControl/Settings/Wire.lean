import AdmissionControl.Settings

/-!
# Settings with names as texts

In documents the members of families are texts, so that each unknown name can be reported for what it is.
The wire form keeps these texts as they stand; its tables are in the order in which they were read.
-/

namespace AdmissionControl

/-- Settings as a document states them. -/
structure Wire where
  /-- The rate under each name of a tier. -/
  rates : Table String UInt32
  /-- The name of the algorithm of endpoints without one of their own. -/
  defaultAlgorithm : String
  /-- The names of the algorithms of single endpoints. -/
  algorithms : Table String String
  /-- The length of a sliding window in milliseconds. -/
  slidingWindow : UInt64
  /-- The size of buckets. -/
  bucketCapacity : UInt64
  /-- The rate at which buckets fill. -/
  refillRate : UInt64
  /-- The length of a fixed window in milliseconds. -/
  timeWindow : UInt64
  /-- The denials that open the breaker. -/
  breakerThreshold : UInt32
  /-- How many milliseconds the breaker stays open. -/
  breakerReset : UInt64
  /-- The shortest backoff in milliseconds. -/
  backoffInitial : UInt64
  /-- The growth of the backoff. -/
  backoffMultiplier : Float
  /-- For each endpoint, the name of the strategy under each name of a tier. -/
  strategies : Table String (Table String String)
  /-- The name of the strategy where no other is set. -/
  defaultStrategy : String
  /-- The quota of a day. -/
  quotaLimit : UInt64
  /-- After how many milliseconds without requests a client is forgotten. -/
  clientInactivity : UInt64
  /-- How often a client's lock is tried. -/
  lockRetries : UInt32
  /-- How many milliseconds each try of a lock takes. -/
  lockTimeout : UInt64
  deriving DecidableEq, Repr

namespace Wire

/-- Reads every entry of a list, or reports the first that cannot be read. -/
def readAll {α β : Type} (read : α → Except Error β) : List α → Except Error (List β)
  | [] => .ok []
  | a :: rest =>
      match read a with
      | .error error => .error error
      | .ok b =>
          match readAll read rest with
          | .error error => .error error
          | .ok bs => .ok (b :: bs)

/-- A rate under the name of a tier. -/
def readRate (e : String × UInt32) : Except Error (Tier × UInt32) :=
  (Tier.read e.1).map (·, e.2)

/-- The name of an algorithm under an endpoint. -/
def readAlgorithm (e : String × String) : Except Error (String × AlgorithmKind) :=
  (AlgorithmKind.read e.2).map (e.1, ·)

/-- The name of a strategy under the name of a tier: the tier is read first. -/
def readStrategy (e : String × String) : Except Error (Tier × StrategyKind) :=
  match Tier.read e.1 with
  | .error error => .error error
  | .ok tier => (StrategyKind.read e.2).map (tier, ·)

/-- The strategies of an endpoint, a later name of a tier winning over an earlier one. -/
def readStrategies (e : String × Table String String) :
    Except Error (String × TierTable StrategyKind) :=
  (readAll readStrategy e.2.entries).map fun l => (e.1, TierTable.ofList l)

/-- The rates in the order of their names, character by character. -/
def sortedRates (w : Wire) : List (String × UInt32) :=
  w.rates.entries.mergeSort fun a b => decide (a.1 ≤ b.1)

/-- The settings of a wire form.  Of several unknown names the first is reported: rates in the order of
their names, then algorithms, strategies, the default algorithm and the default strategy. -/
def toSettings (w : Wire) : Except Error Settings :=
  match readAll readRate w.sortedRates, readAll readAlgorithm w.algorithms.entries,
    readAll readStrategies w.strategies.entries, AlgorithmKind.read w.defaultAlgorithm,
    StrategyKind.read w.defaultStrategy with
  | .ok rates, .ok algorithms, .ok strategies, .ok defaultAlgorithm, .ok defaultStrategy =>
      .ok
        { rates := TierTable.ofList rates
          defaultAlgorithm := defaultAlgorithm
          algorithms := Table.ofList algorithms
          slidingWindow := w.slidingWindow
          bucketCapacity := w.bucketCapacity
          refillRate := w.refillRate
          timeWindow := w.timeWindow
          breakerThreshold := w.breakerThreshold
          breakerReset := w.breakerReset
          backoffInitial := w.backoffInitial
          backoffMultiplier := w.backoffMultiplier
          strategies := Table.ofList strategies
          defaultStrategy := defaultStrategy
          quotaLimit := w.quotaLimit
          clientInactivity := w.clientInactivity
          lockRetries := w.lockRetries
          lockTimeout := w.lockTimeout }
  | .error error, _, _, _, _ => .error error
  | _, .error error, _, _, _ => .error error
  | _, _, .error error, _, _ => .error error
  | _, _, _, .error error, _ => .error error
  | _, _, _, _, .error error => .error error

/-- The values of a tier table under the canonical names of the tiers. -/
def ofTierTable {α β : Type} (f : α → β) (t : TierTable α) : Table String β :=
  Table.ofList (t.toList.map fun e => (e.1.name, f e.2))

/-- The wire form of settings. -/
def ofSettings (s : Settings) : Wire where
  rates := ofTierTable id s.rates
  defaultAlgorithm := s.defaultAlgorithm.name
  algorithms := s.algorithms.map AlgorithmKind.name
  slidingWindow := s.slidingWindow
  bucketCapacity := s.bucketCapacity
  refillRate := s.refillRate
  timeWindow := s.timeWindow
  breakerThreshold := s.breakerThreshold
  breakerReset := s.breakerReset
  backoffInitial := s.backoffInitial
  backoffMultiplier := s.backoffMultiplier
  strategies := s.strategies.map (ofTierTable StrategyKind.name)
  defaultStrategy := s.defaultStrategy.name
  quotaLimit := s.quotaLimit
  clientInactivity := s.clientInactivity
  lockRetries := s.lockRetries
  lockTimeout := s.lockTimeout

end Wire
end AdmissionControl
