import AdmissionControl.Error
import AdmissionControl.Rule

/-!
# Limiters

A limiter runs one algorithm for many callers at a time.  Each client has a slot with a lock, a version and
the time of its last access.  A check passes four points:

* the gate, where unsound records, open breakers and unlimited policies are settled (`gate`);
* the estimate, which reads the algorithm without the lock and counts only if nobody wrote to the slot in
  the meantime (`look`, `glance`, `accepts`);
* the lock, which is taken on the slot that is live by then (`renew`, `enter`);
* the decision (`decide`), after which the lock is given back (`leave`).

A slot's version is odd exactly while its lock is held, and goes up by two with each decision, so an unchanged
even version says that nobody decided.  Clients that have not asked for a while are forgotten (`sweep`): their
slot and what the algorithm keeps of them go together, unless their lock is held.
-/

namespace AdmissionControl

/-! ## Sound records -/

/-- What is wrong with a record, if anything: its client must have a name and its policy a rate. -/
def Record.fault? (r : Record) : Option InputFault :=
  if Text.isBlankText r.client.id then some .blankClient
  else if r.policy.isValid then none
  else some .zeroRate

/-- A policy with a rate, which must not be zero. -/
def Policy.build (rate : UInt32) : Except Error Policy :=
  if (limited rate).isValid then .ok (limited rate) else .error (.invalid .zeroRate)

/-! ## Locking -/

/-- How often a lock is tried, and for how long each time. -/
structure Locking where
  /-- The number of tries. -/
  retries : Nat
  /-- The length of a try. -/
  timeout : Duration
  /-- There is at least one try. -/
  retries_pos : 0 < retries
  deriving Repr

namespace Locking

/-- Three tries of five seconds. -/
def standard : Locking := ⟨3, Duration.ofParts 5 0, by decide⟩

/-- So many tries of such a length, both above zero. -/
def build (retries : Nat) (timeout : Duration) : Except Error Locking :=
  if h : 0 < retries then
    if timeout.nanos = 0 then .error (.invalid .zeroTimeout) else .ok ⟨retries, timeout, h⟩
  else .error (.invalid .zeroRetries)

end Locking

/-! ## Slots -/

/-- What a limiter keeps of a client beside the algorithm's own state. -/
structure Slot where
  /-- Tells this slot from earlier and later slots of the same client. -/
  id : Nat
  /-- Counts up whenever a decision begins or ends; odd while the lock is held. -/
  version : Nat
  /-- The latest time at which the client asked. -/
  lastAccess : Nat
  deriving DecidableEq, Repr

namespace Slot

/-- Whether somebody holds the lock. -/
def isHeld (s : Slot) : Bool := s.version % 2 = 1

/-- The client asked at `now`. -/
def touch (s : Slot) (now : Nat) : Slot := { s with lastAccess := max s.lastAccess now }

/-- A decision begins or ends. -/
def stamp (s : Slot) : Slot := { s with version := s.version + 1 }

/-- Whether the client has not asked for longer than `threshold`, and nobody holds its lock. -/
def isIdle (s : Slot) (threshold now : Nat) : Bool :=
  threshold < now - s.lastAccess && !s.isHeld

theorem isHeld_stamp (s : Slot) : s.stamp.isHeld = !s.isHeld := by
  simp only [isHeld, stamp]
  by_cases h : s.version % 2 = 1
  · have : (s.version + 1) % 2 ≠ 1 := by omega
    simp [h, this]
  · have : (s.version + 1) % 2 = 1 := by omega
    simp [h, this]

end Slot

/-! ## The gate -/

/-- What the gate makes of a check. -/
inductive Gate
  /-- The check is answered without the algorithm. -/
  | settled (outcome : Except Error Admission)
  /-- The algorithm has to answer. -/
  | limited

/-- The gate: an unsound record is an error, an open breaker denies for its reset time, and a record
without a limit passes. -/
def gate (record : Record) (breaker : Breaker) (now : Nat) : Gate × Breaker :=
  match record.fault? with
  | some fault => (.settled (.error (.invalid fault)), breaker)
  | none =>
      match breaker.query now with
      | (false, breaker') =>
          (.settled (.ok ⟨.deny breaker'.settings.reset, record⟩), breaker')
      | (true, breaker') =>
          if record.policy.isUnrestricted then (.settled (.ok (.pass record)), breaker')
          else (.limited, breaker')

/-! ## Limiters -/

/-- An algorithm with the slots of its clients. -/
structure Limiter where
  /-- The algorithm that decides. -/
  algorithm : Algorithm
  /-- The slot of each client. -/
  slots : Table String Slot
  /-- The mark of the next slot. -/
  nextSlot : Nat
  /-- How locks are tried. -/
  locking : Locking
  /-- After how long without requests a client is forgotten. -/
  inactivity : Duration

namespace Limiter

/-- How long a client may be idle unless something else is set: an hour. -/
def standardInactivity : Duration := Duration.ofParts 3600 0

/-- A limiter that nobody has asked yet. -/
def ofRule (rule : Rule) (locking : Locking) (inactivity : Duration) : Limiter :=
  ⟨Algorithm.ofRule rule, Table.empty, 0, locking, inactivity⟩

/-- The number of clients with a slot. -/
def tracked (l : Limiter) : Nat := l.slots.size

/-- The client asks at `now`: its slot, a new one if it has none, and the limiter with it. -/
def look (l : Limiter) (client : String) (now : Nat) : Slot × Limiter :=
  match l.slots.get? client with
  | some slot => (slot.touch now, { l with slots := l.slots.set client (slot.touch now) })
  | none =>
      let slot : Slot := ⟨l.nextSlot, 0, now⟩
      (slot, { l with slots := l.slots.set client slot, nextSlot := l.nextSlot + 1 })

/-- What can be read of the algorithm without the lock: nothing while somebody decides. -/
def glance (l : Limiter) (slot : Slot) (record : Record) (now : Nat) : Option (Option Admission) :=
  if slot.isHeld then none else some (l.algorithm.estimate record now)

/-- Whether what was read with this slot still holds: the slot is live and nobody has decided since. -/
def accepts (l : Limiter) (client : String) (slot : Slot) : Bool :=
  (l.slots.get? client).any fun live => live.id == slot.id && live.version == slot.version

/-- Whether a slot is the live one of its client. -/
def isLive (l : Limiter) (client : String) (slot : Slot) : Bool :=
  (l.slots.get? client).any fun live => live.id == slot.id

/-- The limiter in which the client has a live slot again, if the one that was looked at has gone. -/
def renew (l : Limiter) (client : String) (slot : Slot) (now : Nat) : Limiter :=
  if l.isLive client slot then l else (l.look client now).2

/-- Takes the lock of the client's live slot, unless somebody holds it. -/
def enter (l : Limiter) (client : String) : Option Limiter :=
  match l.slots.get? client with
  | some slot =>
      if slot.isHeld then none else some { l with slots := l.slots.set client slot.stamp }
  | none => none

/-- Gives the lock of the client's slot back. -/
def leave (l : Limiter) (client : String) : Limiter :=
  match l.slots.get? client with
  | some slot => { l with slots := l.slots.set client slot.stamp }
  | none => l

/-- The algorithm decides at `now`. -/
def decide (l : Limiter) (record : Record) (now : Nat) : Admission × Limiter :=
  let (admission, algorithm) := l.algorithm.decide record now
  (admission, { l with algorithm := algorithm })

/-- The error of a check that could not get the lock. -/
def lockTimeout (l : Limiter) (client : String) : Error :=
  .lockTimeout client l.locking.retries l.locking.timeout

/-- A check with nothing else going on: the answer, and limiter and breaker after it.  The breaker reads a
clock of its own. -/
def check (l : Limiter) (breaker : Breaker) (breakerNow now : Nat) (record : Record) :
    Except Error Admission × Limiter × Breaker :=
  match gate record breaker breakerNow with
  | (.settled outcome, breaker) => (outcome, l, breaker)
  | (.limited, breaker) =>
      let client := record.client.id
      let (slot, l) := l.look client now
      match (l.glance slot record now).join with
      | some admission => (.ok admission, l, breaker.observe admission.isAllowed breakerNow)
      | none =>
          match l.enter client with
          | none => (.error (l.lockTimeout client), l, breaker)
          | some l =>
              let (admission, l) := l.decide record now
              (.ok admission, l.leave client, breaker.observe admission.isAllowed breakerNow)

/-! ## Forgetting idle clients -/

/-- The idle time, in whole milliseconds, after which a client is forgotten. -/
def threshold (l : Limiter) : Nat := Word.saturate l.inactivity.millis

/-- The clients that a sweep at `now` forgets. -/
def idleClients (l : Limiter) (now : Nat) : List String :=
  (l.slots.entries.filter fun e => e.2.isIdle l.threshold now).map Prod.fst

/-- Forgets the idle clients: their slots, and what the algorithm keeps of them. -/
def sweep (l : Limiter) (now : Nat) : Limiter :=
  { l with
    slots := l.slots.filter fun _ slot => !slot.isIdle l.threshold now
    algorithm := (l.idleClients now).foldl Algorithm.evict l.algorithm }

end Limiter
end AdmissionControl
