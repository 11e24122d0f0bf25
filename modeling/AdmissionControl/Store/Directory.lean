import AdmissionControl.Record
import AdmissionControl.Table

/-!
# The directory of clients

The directory knows the tier of each client it has met.  A client that it meets for the first time is a
standard one.
-/

namespace AdmissionControl

/-- The tiers of the known clients. -/
structure Directory where
  /-- The tier of each known client. -/
  tiers : Table String Tier

namespace Directory

/-- The directory that has met nobody. -/
def empty : Directory := ⟨Table.empty⟩

/-- The client of an identifier, and the directory that knows it. -/
def identify (d : Directory) (id : String) : Client × Directory :=
  match d.tiers.get? id with
  | some tier => (⟨id, tier⟩, d)
  | none => (⟨id, .standard⟩, ⟨d.tiers.set id .standard⟩)

/-- Moves a client to a tier. -/
def setTier (d : Directory) (id : String) (tier : Tier) : Client × Directory :=
  (⟨id, tier⟩, ⟨d.tiers.set id tier⟩)

/-- Forgets a client. -/
def forget (d : Directory) (id : String) : Directory := ⟨d.tiers.erase id⟩

end Directory
end AdmissionControl
