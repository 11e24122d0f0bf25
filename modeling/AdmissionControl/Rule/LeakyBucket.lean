import AdmissionControl.Verdict

/-!
# Leaky buckets

Each admitted request pours one unit of water into the client's bucket, which leaks at the client's rate per
second.  A request is denied when its unit would not fit.  A bucket that has run dry starts to leak afresh;
otherwise the time up to which it has leaked moves only by as much as the whole units took.

* `drain_level`: draining lowers the level by the whole units that have leaked.
* `fill_le`: a bucket never holds more than its capacity.
-/

namespace AdmissionControl

/-- The rule of leaky buckets. -/
structure LeakyBucket where
  /-- The units that a bucket holds. -/
  capacity : Nat
  deriving DecidableEq, Repr

namespace LeakyBucket

/-- What is kept of one client. -/
structure Bucket where
  /-- The units in the bucket. -/
  level : Nat
  /-- The time up to which water has leaked. -/
  drained : Nat
  deriving DecidableEq, Repr

/-- The bucket of a client that comes at `now`: dry. -/
def Bucket.fresh (now : Nat) : Bucket := ⟨0, now⟩

/-- The whole units that leak during `elapsed` at `rate` units a second. -/
def leaked (elapsed rate : Nat) : Nat := elapsed * max rate 1 / 1000

/-- The time that so many units take to leak. -/
def timeOf (units rate : Nat) : Nat := units * 1000 / max rate 1

namespace Bucket

/-- The level that the bucket would have after leaking until `now`. -/
def projected (b : Bucket) (now rate : Nat) : Nat := b.level - leaked (now - b.drained) rate

/-- The bucket after leaking until `now`. -/
def drain (b : Bucket) (now rate : Nat) : Bucket :=
  let units := leaked (now - b.drained) rate
  let level := b.level - units
  if level = 0 then ⟨0, max now b.drained⟩
  else if 0 < units then ⟨level, Word.saturate (b.drained + Word.saturate (timeOf units rate))⟩
  else ⟨level, b.drained⟩

/-- Pours in one unit, if it fits. -/
def fill (b : Bucket) (capacity : Nat) : Bool × Bucket :=
  if b.level < capacity then (true, { b with level := b.level + 1 }) else (false, b)

theorem drain_level (b : Bucket) (now rate : Nat) :
    (b.drain now rate).level = b.projected now rate := by
  simp only [drain, projected]
  split
  · rename_i h; exact h.symm
  · split <;> rfl

theorem fill_le {b : Bucket} {capacity : Nat} (h : b.level ≤ capacity) :
    (b.fill capacity).2.level ≤ capacity := by
  simp only [fill]
  split
  · rename_i hlt; exact hlt
  · exact h

end Bucket

variable (r : LeakyBucket)

/-- How long until a bucket at `level` has leaked enough for one more unit. -/
def retryAfter (level rate : Nat) : Nat :=
  let excess := Word.saturate (level - r.capacity + 1)
  Word.saturate ((excess * 1000 + max rate 1 - 1) / max rate 1)

/-- The answer to a request at `now` under `rate`, and the bucket after it. -/
def decide (rate now : Nat) (kept : Option Bucket) : Verdict × Bucket :=
  let b := (kept.getD (Bucket.fresh now)).drain now rate
  let (fits, b') := b.fill r.capacity
  if fits then (.allowed, b') else (.denyMillis (r.retryAfter b.level rate), b')

/-- The answer that can be given without changing anything: a denial. -/
def estimate (rate now : Nat) : Option Bucket → Option Verdict
  | none => none
  | some b =>
      let level := b.projected now rate
      if level < r.capacity then none else some (.denyMillis (r.retryAfter level rate))

variable {r}

theorem estimate_eq_some_iff {rate now : Nat} {b : Bucket} {v : Verdict} :
    r.estimate rate now (some b) = some v ↔
      r.capacity ≤ b.projected now rate ∧
        v = .denyMillis (r.retryAfter (b.projected now rate) rate) := by
  simp only [estimate]
  by_cases h : b.projected now rate < r.capacity
  · simp [h, Nat.not_le.2 h]
  · simp [h, Nat.not_lt.1 h, eq_comm]

end LeakyBucket
end AdmissionControl
