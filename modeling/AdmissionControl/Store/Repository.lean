import AdmissionControl.Record
import AdmissionControl.Table

/-!
# The repository of records

The repository keeps a record for each client on each endpoint.  A record that nobody has saved yet is made
on the spot, with the standard tier and rate.
-/

namespace AdmissionControl

/-- Where a record is kept: under the identifier of a client and an endpoint. -/
structure RecordKey where
  /-- The identifier of the client. -/
  client : String
  /-- The endpoint. -/
  endpoint : String
  deriving DecidableEq, Repr

/-- The records of clients on endpoints. -/
structure Repository where
  /-- The record under each key. -/
  records : Table RecordKey Record

namespace Repository

/-- The repository without records. -/
def empty : Repository := ⟨Table.empty⟩

/-- The rate of a record that nobody has saved yet. -/
def standardRate : UInt32 := 10

/-- The record of a client of which nothing is kept. -/
def standardRecord (client : String) (now : Nat) : Record :=
  .fresh ⟨client, .standard⟩ (.limited standardRate) now

/-- The number of records. -/
def size (r : Repository) : Nat := r.records.size

/-- The record under a key, and the repository that holds it. -/
def load (r : Repository) (key : RecordKey) (now : Nat) : Record × Repository :=
  match r.records.get? key with
  | some record => (record, r)
  | none =>
      let record := standardRecord key.client now
      (record, ⟨r.records.set key record⟩)

/-- Keeps a record under a key. -/
def save (r : Repository) (key : RecordKey) (record : Record) : Repository :=
  ⟨r.records.set key record⟩

end Repository
end AdmissionControl
