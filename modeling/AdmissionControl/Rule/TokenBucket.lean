import AdmissionControl.Verdict

/-!
# Token buckets

Each admitted request takes a token out of the client's bucket, and tokens come in at the client's rate.
Time that has not yet brought a whole token is not lost: the bucket remembers up to which time its tokens
have come in, and this time moves only by as much as the credited tokens took.

* `estimate_eq_some_iff`: what an estimate denies is an empty bucket.
-/

namespace AdmissionControl

/-- The rule of token buckets. -/
structure TokenBucket where
  /-- The tokens of a new bucket. -/
  capacity : Nat
  /-- The time in milliseconds in which a rate's tokens come in. -/
  window : Nat
  deriving DecidableEq, Repr

namespace TokenBucket

/-- The rule for a time of so many milliseconds, but at least one. -/
def ofMillis (capacity window : Nat) : TokenBucket := ⟨capacity, max window 1⟩

/-- What is kept of one client. -/
structure Bucket where
  /-- The tokens in the bucket. -/
  tokens : Nat
  /-- The time up to which tokens have come in. -/
  refilled : Nat
  deriving DecidableEq, Repr

/-- The whole tokens that come in during `elapsed`, at `rate` tokens in each `window`. -/
def accrued (elapsed rate window : Nat) : Nat := elapsed * max rate 1 / max window 1

/-- The time that so many tokens take. -/
def timeOf (tokens rate window : Nat) : Nat := tokens * max window 1 / max rate 1

namespace Bucket

/-- The tokens that the bucket would hold after a refill. -/
def peek (b : Bucket) (now rate window : Nat) : Nat :=
  Word.saturate (b.tokens + Word.saturate (accrued (now - b.refilled) rate window))

/-- The tokens that have come in until `now`, and the bucket that holds them. -/
def refill (b : Bucket) (now rate window : Nat) : Nat × Bucket :=
  let n := accrued (now - b.refilled) rate window
  if 0 < n then
    (Word.saturate n,
      ⟨Word.wrap (b.tokens + Word.saturate n),
        Word.saturate (b.refilled + Word.saturate (timeOf n rate window))⟩)
  else (0, b)

/-- Takes a token, if there is one. -/
def consume (b : Bucket) : Bool × Bucket :=
  if 0 < b.tokens then (true, { b with tokens := b.tokens - 1 }) else (false, b)

/-- How long until the next token comes in, but at least a millisecond. -/
def nextToken (b : Bucket) (now rate window : Nat) : Nat :=
  Word.saturate
    (max ((max window 1 + max rate 1 - 1) / max rate 1 - (now - b.refilled)) 1)

end Bucket

variable (r : TokenBucket)

/-- The answer to a request at `now` under `rate`, and the bucket after it. -/
def decide (rate now : Nat) (kept : Option Bucket) : Verdict × Bucket :=
  let b := ((kept.getD ⟨r.capacity, now⟩).refill now rate r.window).2
  let (taken, b') := b.consume
  if taken then (.allowed, b') else (.denyMillis (b'.nextToken now rate r.window), b')

/-- The answer that can be given without changing anything: a denial. -/
def estimate (rate now : Nat) : Option Bucket → Option Verdict
  | none => none
  | some b =>
      if 0 < b.peek now rate r.window then none
      else some (.denyMillis (b.nextToken now rate r.window))

variable {r}

theorem estimate_eq_some_iff {rate now : Nat} {b : Bucket} {v : Verdict} :
    r.estimate rate now (some b) = some v ↔
      b.peek now rate r.window = 0 ∧ v = .denyMillis (b.nextToken now rate r.window) := by
  simp only [estimate]
  by_cases h : 0 < b.peek now rate r.window
  · simp [h, Nat.pos_iff_ne_zero.1 h]
  · simp [Nat.eq_zero_of_not_pos h, eq_comm]

end TokenBucket
end AdmissionControl
