import AdmissionControl.Store.Repository

/-!
# Locks of records

Requests for the same record take turns.  A request leases the mutex of its record, asks for it, holds it when
its turn has come, and gives the lease back.  A mutex stands in the table only while somebody leases it: the
last lease takes the entry out.

Turns are fair: among the requests that have asked for a mutex, the one that asked first holds it.

* `holds_unique`: a mutex has at most one holder.
-/

namespace AdmissionControl

/-- A claim on the mutex of a record. -/
structure Lease where
  /-- Tells this lease from all others. -/
  ticket : Nat
  /-- The record. -/
  key : RecordKey
  /-- The mutex that the lease is for. -/
  mutex : Nat
  deriving DecidableEq, Repr

/-- The mutexes in use, with the leases on them. -/
structure RecordLocks where
  /-- The mutex of each record that has one. -/
  entries : Table RecordKey Nat
  /-- The leases that have not been given back. -/
  leases : List Lease
  /-- The tickets of the leases that have asked for their mutex, in the order in which they asked. -/
  line : List Nat
  /-- The number of the next mutex. -/
  nextMutex : Nat
  /-- The number of the next ticket. -/
  nextTicket : Nat

namespace RecordLocks

/-- No record is in use. -/
def empty : RecordLocks := ⟨Table.empty, [], [], 0, 0⟩

/-- The lease with a ticket. -/
def find? (l : RecordLocks) (ticket : Nat) : Option Lease :=
  l.leases.find? fun lease => lease.ticket == ticket

/-- The mutex of a ticket. -/
def mutex? (l : RecordLocks) (ticket : Nat) : Option Nat := (l.find? ticket).map (·.mutex)

/-- Leases the mutex of a record, a new one if the record has none. -/
def lease (l : RecordLocks) (key : RecordKey) : Lease × RecordLocks :=
  match l.entries.get? key with
  | some mutex =>
      let lease : Lease := ⟨l.nextTicket, key, mutex⟩
      (lease, { l with leases := l.leases ++ [lease], nextTicket := l.nextTicket + 1 })
  | none =>
      let lease : Lease := ⟨l.nextTicket, key, l.nextMutex⟩
      (lease,
        { l with
          entries := l.entries.set key l.nextMutex
          leases := l.leases ++ [lease]
          nextMutex := l.nextMutex + 1
          nextTicket := l.nextTicket + 1 })

/-- Asks for the mutex of a lease, once. -/
def ask (l : RecordLocks) (ticket : Nat) : RecordLocks :=
  if (l.find? ticket).isNone ∨ ticket ∈ l.line then l else { l with line := l.line ++ [ticket] }

/-- The ticket that holds a mutex: the first in line for it. -/
def holder? (l : RecordLocks) (mutex : Nat) : Option Nat :=
  l.line.find? fun ticket => l.mutex? ticket == some mutex

/-- Whether a lease holds its mutex. -/
def holds (l : RecordLocks) (ticket : Nat) : Bool :=
  match l.mutex? ticket with
  | some mutex => l.holder? mutex == some ticket
  | none => false

/-- Leaves the line, whether or not the turn had come. -/
def release (l : RecordLocks) (ticket : Nat) : RecordLocks :=
  { l with line := l.line.filter (· != ticket) }

/-- The number of leases on a mutex. -/
def leaseCount (l : RecordLocks) (mutex : Nat) : Nat :=
  (l.leases.filter fun lease => lease.mutex == mutex).length

/-- Gives a lease back.  If it is the last one on its mutex, and the mutex is still that of its record, the
record has no mutex any more. -/
def drop (l : RecordLocks) (ticket : Nat) : RecordLocks :=
  match l.find? ticket with
  | none => l
  | some lease =>
      let isLast := l.entries.get? lease.key == some lease.mutex && l.leaseCount lease.mutex == 1
      { l.release ticket with
        entries := if isLast then l.entries.erase lease.key else l.entries
        leases := l.leases.filter (·.ticket != ticket) }

/-- One step of somebody who uses the locks. -/
inductive Step
  /-- Leases the mutex of a record. -/
  | lease (key : RecordKey)
  /-- Asks for the mutex of a lease. -/
  | ask (ticket : Nat)
  /-- Leaves the line. -/
  | release (ticket : Nat)
  /-- Gives a lease back. -/
  | drop (ticket : Nat)
  deriving DecidableEq, Repr

/-- The locks after a step. -/
def step (l : RecordLocks) : Step → RecordLocks
  | .lease key => (l.lease key).2
  | .ask ticket => l.ask ticket
  | .release ticket => l.release ticket
  | .drop ticket => l.drop ticket

theorem holder?_of_holds {l : RecordLocks} {ticket mutex : Nat} (hm : l.mutex? ticket = some mutex)
    (h : l.holds ticket = true) : l.holder? mutex = some ticket := by
  simpa only [holds, hm, beq_iff_eq] using h

theorem holds_unique {l : RecordLocks} {t u mutex : Nat} (ht : l.mutex? t = some mutex)
    (hu : l.mutex? u = some mutex) (hht : l.holds t = true) (hhu : l.holds u = true) : t = u := by
  have h := (holder?_of_holds ht hht).symm.trans (holder?_of_holds hu hhu)
  exact Option.some.inj h

end RecordLocks
end AdmissionControl
