import AdmissionControl.Text.Blank

/-!
# Tiers, algorithms, strategies, and their names

Three small families are named in configurations and requests: the tiers of clients, the algorithms that
decide, and the strategies for what is denied.  Each member has one canonical name.  Reading is loose:
blanks around the name do not count, a hyphen stands for an underscore, and the case of ASCII letters is
ignored.

* `Tier.ofText?_name`, `AlgorithmKind.ofText?_name`, `StrategyKind.ofText?_name`: a canonical name reads
  back as its owner.
-/

namespace AdmissionControl

/-! ## Spelling -/

namespace Text

/-- The canonical spelling of one character of a name. -/
def canonicalChar (c : Char) : Char := if c = '-' then '_' else c.toUpper

/-- The canonical spelling of a name. -/
def canonical (s : String) : String := String.ofList ((trimmed s.toList).map canonicalChar)

end Text

/-! ## Tiers -/

/-- The tier of a client, which fixes its rate. -/
inductive Tier
  /-- The tier of a client that nobody has placed. -/
  | standard
  /-- The first paid tier. -/
  | premium
  /-- The second paid tier. -/
  | vip
  /-- The tier of companies. -/
  | enterprise
  /-- The tier with a rate of its own. -/
  | custom
  /-- The tier of the operator's own services, without a rate. -/
  | internal
  deriving DecidableEq, Repr

namespace Tier

/-- The tiers in their order. -/
def all : List Tier := [standard, premium, vip, enterprise, custom, internal]

/-- The canonical name. -/
def name : Tier → String
  | standard => "STANDARD"
  | premium => "PREMIUM"
  | vip => "VIP"
  | enterprise => "ENTERPRISE"
  | custom => "CUSTOM"
  | internal => "INTERNAL"

/-- The tier of a loosely spelled name. -/
def ofText? (s : String) : Option Tier :=
  let canonical := Text.canonical s
  all.find? fun t => t.name == canonical

theorem mem_all (t : Tier) : t ∈ all := by cases t <;> decide

theorem ofText?_name (t : Tier) : ofText? t.name = some t := by cases t <;> decide +kernel

end Tier

/-! ## Algorithms -/

/-- The kinds of algorithm that decide. -/
inductive AlgorithmKind
  /-- A counter that starts again with each window. -/
  | fixedWindow
  /-- The requests of the window that ends now. -/
  | slidingWindow
  /-- Tokens that come in at a rate and are spent. -/
  | tokenBucket
  /-- Water that is poured in and leaks at a rate. -/
  | leakyBucket
  /-- A budget for each long period, kept in the client's record. -/
  | quota
  deriving DecidableEq, Repr

namespace AlgorithmKind

/-- The kinds in their order. -/
def all : List AlgorithmKind := [fixedWindow, slidingWindow, tokenBucket, leakyBucket, quota]

/-- The canonical name. -/
def name : AlgorithmKind → String
  | fixedWindow => "FIXED_WINDOW"
  | slidingWindow => "SLIDING_WINDOW"
  | tokenBucket => "TOKEN_BUCKET"
  | leakyBucket => "LEAKY_BUCKET"
  | quota => "QUOTA"

/-- The kind of a loosely spelled name. -/
def ofText? (s : String) : Option AlgorithmKind :=
  let canonical := Text.canonical s
  all.find? fun k => k.name == canonical

theorem mem_all (k : AlgorithmKind) : k ∈ all := by cases k <;> decide

theorem ofText?_name (k : AlgorithmKind) : ofText? k.name = some k := by
  cases k <;> decide +kernel

end AlgorithmKind

/-! ## Strategies -/

/-- What happens to a request that was denied. -/
inductive StrategyKind
  /-- The caller waits for as long as the denial asks. -/
  | delay
  /-- The caller is turned away at once. -/
  | reject
  /-- The caller waits for a time that grows exponentially with what the denial asks. -/
  | exponentialBackoff
  deriving DecidableEq, Repr

namespace StrategyKind

/-- The kinds in their order. -/
def all : List StrategyKind := [delay, reject, exponentialBackoff]

/-- The canonical name. -/
def name : StrategyKind → String
  | delay => "DELAY"
  | reject => "REJECT"
  | exponentialBackoff => "EXPONENTIAL_BACKOFF"

/-- The kind of a loosely spelled name. -/
def ofText? (s : String) : Option StrategyKind :=
  let canonical := Text.canonical s
  all.find? fun k => k.name == canonical

theorem ofText?_name (k : StrategyKind) : ofText? k.name = some k := by
  cases k <;> decide +kernel

end StrategyKind

end AdmissionControl
