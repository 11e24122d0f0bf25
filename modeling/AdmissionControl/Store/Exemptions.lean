import AdmissionControl.Record

/-!
# Exempt clients

Clients on this list are not limited at all, whatever their tier.
-/

namespace AdmissionControl

/-- The identifiers of the exempt clients. -/
structure Exemptions where
  /-- The identifiers, each once. -/
  ids : List String
  deriving DecidableEq, Repr

namespace Exemptions

/-- The list without clients. -/
def empty : Exemptions := ⟨[]⟩

/-- Whether a client is exempt. -/
def contains (e : Exemptions) (client : Client) : Bool := client.id ∈ e.ids

/-- Exempts a client. -/
def add (e : Exemptions) (id : String) : Exemptions := if id ∈ e.ids then e else ⟨e.ids ++ [id]⟩

/-- Takes a client off the list, and says whether it was on it. -/
def remove (e : Exemptions) (id : String) : Bool × Exemptions :=
  (decide (id ∈ e.ids), ⟨e.ids.filter (· != id)⟩)

theorem contains_add (e : Exemptions) (id : String) (client : Client) :
    (e.add id).contains client = (e.contains client || client.id == id) := by
  simp only [contains, add]
  by_cases h : id ∈ e.ids <;> by_cases hc : client.id = id <;> simp [h, hc]

theorem contains_remove (e : Exemptions) (id : String) (client : Client) :
    (e.remove id).2.contains client = (e.contains client && client.id != id) := by
  simp only [contains, remove]
  by_cases hc : client.id = id <;> simp [hc]

end Exemptions
end AdmissionControl
