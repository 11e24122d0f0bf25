import AdmissionControl.Naming
import AdmissionControl.Word

/-!
# Clients, policies and accounting records

A record is what the accounts hold about one client: who it is, which policy applies to it, how many of its
requests were admitted, and how much of its quota it has used since the last reset.  Records are values:
each change gives a new one.
-/

namespace AdmissionControl

/-- A caller with its tier. -/
structure Client where
  /-- The identifier under which the client calls. -/
  id : String
  /-- The tier that the client is in. -/
  tier : Tier
  deriving DecidableEq, Repr

/-- How much a client may ask for. -/
inductive Policy
  /-- At most so many requests a second (or a window, as the algorithm has it). -/
  | limited (rate : UInt32)
  /-- As much as it likes. -/
  | unrestricted
  deriving DecidableEq, Repr

namespace Policy

/-- The rate of a policy that has one. -/
def rate? : Policy → Option Nat
  | limited rate => some rate.toNat
  | unrestricted => none

/-- Whether the policy sets no limit. -/
def isUnrestricted : Policy → Bool
  | limited _ => false
  | unrestricted => true

/-- A policy that can be enforced: its rate, if any, is not zero. -/
def isValid : Policy → Bool
  | limited rate => rate != 0
  | unrestricted => true

end Policy

/-- What the accounts hold about one client. -/
structure Record where
  /-- The client that the record is about. -/
  client : Client
  /-- The policy that applies to it. -/
  policy : Policy
  /-- The time, in milliseconds, at which the counts were last set to zero. -/
  lastReset : Nat
  /-- The number of its requests that were admitted. -/
  requests : Nat
  /-- What it has used of its quota since the last reset. -/
  quotaUsed : Nat
  deriving DecidableEq, Repr

namespace Record

/-- A record without requests. -/
def fresh (client : Client) (policy : Policy) (lastReset : Nat) : Record :=
  ⟨client, policy, lastReset, 0, 0⟩

/-- The record with other counts. -/
def withCounts (r : Record) (requests quotaUsed : Nat) : Record :=
  { r with requests := requests, quotaUsed := quotaUsed }

/-- The record with another client and policy, but the same counts. -/
def retarget (r : Record) (client : Client) (policy : Policy) : Record :=
  { r with client := client, policy := policy }

/-- One more request was admitted. -/
def countRequest (r : Record) : Record := { r with requests := Word.saturate (r.requests + 1) }

/-- One more unit of the quota was used. -/
def useQuota (r : Record) : Record := { r with quotaUsed := Word.saturate (r.quotaUsed + 1) }

/-- The quota starts again at `now`. -/
def resetQuota (r : Record) (now : Nat) : Record := { r with quotaUsed := 0, lastReset := now }

/-- The count of requests starts again at `now`. -/
def resetRequests (r : Record) (now : Nat) : Record := { r with requests := 0, lastReset := now }

end Record
end AdmissionControl
