import AdmissionControl.Table

/-!
# Metrics

For each endpoint and client the number of requests that were allowed and of those that were not.  One is added
for each request, so `Word.max` requests do not take a count out of its word.
-/

namespace AdmissionControl

/-- The outcomes of one client on one endpoint. -/
structure Counts where
  /-- The requests that were allowed. -/
  successes : Nat
  /-- The requests that were denied. -/
  exceeded : Nat
  deriving DecidableEq, Repr

/-- Nothing was counted yet. -/
def Counts.zero : Counts := ⟨0, 0⟩

/-- The counts of each endpoint and client. -/
structure Metrics where
  /-- The counts under an endpoint and the identifier of a client. -/
  counts : Table (String × String) Counts

namespace Metrics

/-- Nothing was counted yet. -/
def empty : Metrics := ⟨Table.empty⟩

/-- The counts of a client on an endpoint. -/
def read (m : Metrics) (endpoint id : String) : Counts :=
  (m.counts.get? (endpoint, id)).getD Counts.zero

/-- Counts a request that was allowed. -/
def success (m : Metrics) (endpoint id : String) : Metrics :=
  let c := m.read endpoint id
  ⟨m.counts.set (endpoint, id) { c with successes := c.successes + 1 }⟩

/-- Counts a request that was denied. -/
def exceed (m : Metrics) (endpoint id : String) : Metrics :=
  let c := m.read endpoint id
  ⟨m.counts.set (endpoint, id) { c with exceeded := c.exceeded + 1 }⟩

/-- Counts the outcome of a request. -/
def count (m : Metrics) (endpoint id : String) (isAllowed : Bool) : Metrics :=
  if isAllowed then m.success endpoint id else m.exceed endpoint id

end Metrics
end AdmissionControl
