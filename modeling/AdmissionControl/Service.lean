import AdmissionControl.Clock
import AdmissionControl.Limiters
import AdmissionControl.LiveSettings
import AdmissionControl.Service.RecordLocks
import AdmissionControl.Store.Directory
import AdmissionControl.Store.Metrics
import AdmissionControl.Throttle.WaitingRoom

/-!
# The service

The service answers requests of clients on endpoints.  For each request it

1. identifies the client;
2. leases the record of the client on the endpoint, waits for its turn and loads the record;
3. finds the policy, lets the endpoint's limiter decide, and finds the strategy, all from the settings that
   are live at this moment;
4. saves the record of an admitted request and gives the lease back;
5. counts the outcome, and throttles a denied request.

A request may have to wait for the lock of its record, at the repository, and in throttling.  Between these
points it does what it does in one go, so a request is a machine with a stage for each of them (`Stage`), and
`advance` moves one request by one stage.  Any order of moves is an order in which requests may meet.
-/

namespace AdmissionControl

/-! ## Collaborators -/

/-- The stores of a service. -/
structure Stores where
  /-- The records. -/
  repository : Repository
  /-- The clients. -/
  directory : Directory
  /-- The exempt clients. -/
  exemptions : Exemptions
  /-- The outcomes. -/
  metrics : Metrics

/-- Stores with nothing in them. -/
def Stores.empty : Stores :=
  ⟨Repository.empty, Directory.empty, Exemptions.empty, Metrics.empty⟩

/-- Where policies come from. -/
inductive Resolver
  /-- From the settings. -/
  | settings
  /-- From a table of endpoints and times of the day, and from the settings for what is not in it. -/
  | table (policies : Table String (Except Error Policy))

/-- The policy for a tier on an endpoint at a time of the day. -/
def Resolver.resolve (r : Resolver) (endpoint : String) (tier : Tier) (timeRange : String)
    (settings : Settings) : Except Error Policy :=
  match r with
  | .settings => settings.policyFor tier
  | .table policies =>
      match policies.get? (endpoint ++ "@" ++ timeRange) with
      | some policy => policy
      | none => settings.policyFor tier

/-- What a service is made of beside its settings. -/
structure Fittings where
  /-- Where policies come from. -/
  resolver : Resolver
  /-- The time of the day as policies call it. -/
  timeRange : String
  /-- Whether the limiters see no time pass, and with them a breaker that the service made itself. -/
  isTimeless : Bool
  /-- Whether the repository lets others go first before each access. -/
  yields : Bool

/-- The time of the day when nobody says otherwise. -/
def standardTimeRange : String := "default"

/-- The fittings of a plain service. -/
def Fittings.standard : Fittings := ⟨.settings, standardTimeRange, false, false⟩

/-! ## The service -/

/-- A service. -/
structure Service where
  /-- What it is made of. -/
  fittings : Fittings
  /-- The live settings. -/
  live : LiveSettings
  /-- The breaker before all limiters. -/
  breaker : Breaker
  /-- Whether the breaker was given to the service; such a breaker always goes by the clock. -/
  hasGivenBreaker : Bool
  /-- The limiters. -/
  limiters : Limiters
  /-- The strategies. -/
  strategies : Strategies
  /-- Where denied callers wait. -/
  room : WaitingRoom
  /-- The locks of records in use. -/
  locks : RecordLocks
  /-- The stores. -/
  stores : Stores
  /-- The clock. -/
  clock : Clock

namespace Service

/-- A service with sound settings.  The breaker is a given one or a new one; either way it takes its settings
from those of the service. -/
def build (settings : Settings) (fittings : Fittings) (sleeper : Sleeper)
    (given : Option Breaker) (stores : Stores) (clock : Clock) : Except Error Service :=
  match settings.breakerSettings with
  | .error error => .error error
  | .ok breakerSettings =>
      match LiveSettings.start settings (given.getD (.fresh breakerSettings)) with
      | .error error => .error error
      | .ok (live, breaker) =>
          .ok
            { fittings := fittings
              live := live
              breaker := breaker
              hasGivenBreaker := given.isSome
              limiters := Limiters.empty
              strategies := Strategies.empty
              room := WaitingRoom.start sleeper
              locks := RecordLocks.empty
              stores := stores
              clock := clock }

/-- The time that the limiters see. -/
def now (s : Service) : Nat := if s.fittings.isTimeless then 0 else s.clock.now

/-- The time that the breaker sees. -/
def breakerNow (s : Service) : Nat := if s.hasGivenBreaker then s.clock.now else s.now

/-- Changes the settings.  Limiters and strategies that were made from the old ones are dropped. -/
def update (s : Service) (settings : Settings) : Except Error (Update × Service) :=
  match s.live.update settings s.breaker with
  | .error error => .error error
  | .ok (change, live, breaker) =>
      .ok (change,
        { s with
          live := live
          breaker := breaker
          limiters := Limiters.empty
          strategies := Strategies.empty })

/-- Forgets the idle clients. -/
def sweep (s : Service) : Service := { s with limiters := (s.limiters.sweep s.now).2 }

/-- Decides about a client with a stored record, by the settings that are live. -/
def decide (s : Service) (endpoint : String) (client : Client) (stored : Record) :
    Except Error (Admission × Strategy) × Service :=
  let settings := s.live.current.settings
  match s.fittings.resolver.resolve endpoint client.tier s.fittings.timeRange settings with
  | .error error => (.error error, s)
  | .ok policy =>
      let (outcome, limiters, breaker) :=
        s.limiters.check s.stores.exemptions s.breaker s.breakerNow s.now endpoint
          (stored.retarget client policy) settings
      let s := { s with limiters := limiters, breaker := breaker }
      match outcome with
      | .error error => (.error error, s)
      | .ok admission =>
          let (strategy, strategies) := s.strategies.obtain endpoint client.tier settings
          (.ok (admission, strategy), { s with strategies := strategies })

/-! ## Requests on their way -/

/-- How far a request has come. -/
inductive Stage
  /-- Nothing has happened yet. -/
  | arriving
  /-- The client is known, and the record is leased. -/
  | queued (client : Client) (ticket : Nat)
  /-- The lock is held, and the record is about to be loaded. -/
  | loading (client : Client) (ticket : Nat)
  /-- The request is admitted, and the record is about to be saved. -/
  | saving (client : Client) (ticket : Nat) (admission : Admission) (strategy : Strategy)
  /-- The lease is given back and the outcome counted; throttling comes next. -/
  | throttling (verdict : Verdict) (strategy : Strategy)
  /-- The caller waits until a time of the timer. -/
  | waiting (deadline : Nat) (retryAfter : Duration)
  /-- The request has its answer. -/
  | done (answer : Except Error Verdict)
  deriving Repr

/-- A request on its way. -/
structure Request where
  /-- The endpoint. -/
  endpoint : String
  /-- The identifier of the client. -/
  client : String
  /-- How far it has come. -/
  stage : Stage
  deriving Repr

namespace Request

/-- A request that has just come in. -/
def fresh (endpoint client : String) : Request := ⟨endpoint, client, .arriving⟩

/-- Where the record of the request is kept. -/
def key (r : Request) : RecordKey := ⟨r.client, r.endpoint⟩

/-- The request at another stage. -/
def atStage (r : Request) (stage : Stage) : Request := { r with stage := stage }

/-- The answer of a request that has one. -/
def answer? (r : Request) : Option (Except Error Verdict) :=
  match r.stage with
  | .done answer => some answer
  | _ => none

/-- The time until which the caller waits. -/
def deadline? (r : Request) : Option Nat :=
  match r.stage with
  | .waiting deadline _ => some deadline
  | _ => none

/-- The request when its caller leaves the waiting room: it hears its verdict, or why it was not kept. -/
def leave (r : Request) (verdict : Verdict) : Option ThrottleFault → Request
  | none => r.atStage (.done (.ok verdict))
  | some fault => r.atStage (.done (.error (fault.toError r.client r.endpoint)))

/-- Whether the request stands before an access to the repository. -/
def isAtRepository (r : Request) : Bool :=
  match r.stage with
  | .loading .. => true
  | .saving .. => true
  | _ => false

end Request

/-- A decided request gives its lease back, and its outcome is counted. -/
def finish (s : Service) (r : Request) (client : Client) (ticket : Nat) (verdict : Verdict)
    (strategy : Strategy) : Request × Service :=
  (r.atStage (.throttling verdict strategy),
    { s with
      locks := s.locks.drop ticket
      stores :=
        { s.stores with
          metrics := s.stores.metrics.count r.endpoint client.id verdict.isAllowed } })

/-- Throttles a request: its caller comes to the waiting room. -/
def throttle (s : Service) (r : Request) (verdict : Verdict) (strategy : Strategy) :
    Request × Service :=
  let (seat, room) := s.room.enter (strategy.plan verdict)
  let s := { s with room := room }
  match seat with
  | .leaves fault => (r.leave verdict fault, s)
  | .waits deadline hint => (r.atStage (.waiting deadline hint), s)

/-- Moves a request by one stage; nothing if it has to wait or has its answer. -/
def advance (s : Service) (r : Request) : Option (Request × Service) :=
  match r.stage with
  | .arriving =>
      let (client, directory) := s.stores.directory.identify r.client
      let (lease, locks) := s.locks.lease r.key
      some (r.atStage (.queued client lease.ticket),
        { s with
          locks := locks.ask lease.ticket
          stores := { s.stores with directory := directory } })
  | .queued client ticket =>
      if s.locks.holds ticket then some (r.atStage (.loading client ticket), s) else none
  | .loading client ticket =>
      let (stored, repository) := s.stores.repository.load r.key s.clock.now
      let s := { s with stores := { s.stores with repository := repository } }
      match s.decide r.endpoint client stored with
      | (.error error, s) =>
          some (r.atStage (.done (.error error)), { s with locks := s.locks.drop ticket })
      | (.ok (admission, strategy), s) =>
          if admission.isAllowed then
            some (r.atStage (.saving client ticket admission strategy), s)
          else some (s.finish r client ticket admission.verdict strategy)
  | .saving client ticket admission strategy =>
      let repository := s.stores.repository.save r.key admission.record.countRequest
      let s := { s with stores := { s.stores with repository := repository } }
      some (s.finish r client ticket admission.verdict strategy)
  | .throttling verdict strategy => some (s.throttle r verdict strategy)
  | .waiting deadline hint =>
      (s.room.leave? deadline hint).map fun fault => (r.leave (.denied hint) fault, s)
  | .done _ => none

end Service
end AdmissionControl
