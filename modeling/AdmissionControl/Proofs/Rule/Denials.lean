import Mathlib.Data.List.Basic
import AdmissionControl.Proofs.Rule.Calls

/-!
# When a rule denies, and what it keeps then

Every rule denies under one condition on what it keeps of the client, and admits otherwise.  This file says
for each rule what the condition is, which hint the denial carries, and what is kept after it.

A denial leaves what is kept almost as it was: a window takes the counted request back, an empty token
bucket has nothing to book, a record with its budget used up is handed back.  A sliding window drops the
times that have left the window, and a leaky bucket books what has leaked.

* `FixedWindow.decide_of_full`, `SlidingWindow.decide_of_full`, `TokenBucket.decide_of_dry`,
  `LeakyBucket.decide_of_full`, `Quota.decide_of_spent` — the denials.
* `FixedWindow.decide_of_room` and its companions — the admissions.
-/

namespace AdmissionControl

/-! ## Fixed windows -/

namespace FixedWindow

variable {w : FixedWindow} {limit now : Nat} {c : Counter}

theorem count_increment (hc : c.count ≤ Policy.maxRate) : c.increment.count = c.count + 1 :=
  Word.wrap_of_le (Nat.le_trans (Nat.succ_le_succ hc) (by decide))

theorem decrement_increment (hc : c.count ≤ Policy.maxRate) : c.increment.decrement = c := by
  have h : c.increment.decrement = { c with count := c.increment.count - 1 } := rfl
  rw [h, count_increment hc, Nat.add_sub_cancel]

/-- A window that counts as many requests as the limit allows denies until it is over. -/
theorem decide_of_full (hc : c.count ≤ Policy.maxRate) (hopen : now - c.start < w.window)
    (hfull : limit ≤ c.count) :
    w.decide limit now (some c) = (.denyMillis (w.remaining c now), c) := by
  have hover : w.isOver c now = false := decide_eq_false (Nat.not_le.2 hopen)
  have hcount : ¬ c.increment.count ≤ limit := by
    rw [count_increment hc]
    omega
  simp only [FixedWindow.decide, Option.getD_some, hover, Bool.false_eq_true, if_false,
    if_neg hcount, decrement_increment hc]

theorem decide_of_room (hc : c.count ≤ Policy.maxRate)
    (hroom : w.window ≤ now - c.start ∨ c.count < limit) :
    (w.decide limit now (some c)).1 = .allowed := by
  by_cases hover : w.isOver c now = true
  · simp only [FixedWindow.decide, Option.getD_some, hover, if_true]
  · have hopen : ¬ w.window ≤ now - c.start := fun h => hover (decide_eq_true h)
    have hcount : c.increment.count ≤ limit := by
      rw [count_increment hc]
      exact hroom.resolve_left hopen
    simp only [FixedWindow.decide, Option.getD_some, hover, Bool.false_eq_true, if_false,
      if_pos hcount]

theorem decide_none (hlimit : 0 < limit) : (w.decide limit now none).1 = .allowed := by
  have hcount : (Counter.fresh now).increment.count ≤ limit := hlimit
  simp only [FixedWindow.decide, Option.getD_none, isOver_fresh, Bool.false_eq_true, if_false,
    if_pos hcount]

end FixedWindow

/-! ## Sliding windows -/

namespace SlidingWindow

variable {w : SlidingWindow} {limit now : Nat} {kept : Option Log}

/-- A log with as many entries in the window as the limit allows denies, and loses what is stale. -/
theorem decide_of_full (hfull : limit ≤ (w.current (kept.getD Log.empty) now).size) :
    w.decide limit now kept =
      (.denyMillis (w.retryAfter (w.current (kept.getD Log.empty) now) now),
        w.current (kept.getD Log.empty) now) := by
  simp only [SlidingWindow.decide, if_neg (Nat.not_lt.2 hfull)]

theorem decide_of_room (hroom : (w.current (kept.getD Log.empty) now).size < limit) :
    (w.decide limit now kept).1 = .allowed := by
  simp only [SlidingWindow.decide, if_pos hroom]

theorem size_current_empty : (w.current Log.empty now).size = 0 := by
  unfold current
  split <;> rfl

end SlidingWindow

/-! ## Token buckets -/

namespace TokenBucket

variable {r : TokenBucket} {rate now : Nat} {b : Bucket}

theorem Bucket.peek_eq_zero_iff {window : Nat} :
    b.peek now rate window = 0 ↔ b.tokens = 0 ∧ accrued (now - b.refilled) rate window = 0 := by
  simp only [Bucket.peek, Word.saturate, Word.max]
  omega

theorem Bucket.refill_of_accrued_eq_zero {window : Nat}
    (h : accrued (now - b.refilled) rate window = 0) : b.refill now rate window = (0, b) := by
  simp only [Bucket.refill, h, Nat.lt_irrefl, if_false]

/-- Refilling never loses tokens as long as the count stays in the word. -/
theorem Bucket.tokens_refill {window : Nat}
    (hfits : b.tokens + Word.saturate (accrued (now - b.refilled) rate window) ≤ Word.max) :
    (b.refill now rate window).2.tokens = b.peek now rate window := by
  rw [Bucket.peek, Word.saturate_of_le hfits, Bucket.refill]
  by_cases h : 0 < accrued (now - b.refilled) rate window
  · simp only [if_pos h, Word.wrap_of_le hfits]
  · simp only [if_neg h]
    simp [Nat.eq_zero_of_not_pos h, Word.saturate]

/-- A bucket without a token that gets none by now denies, and stays as it was. -/
theorem decide_of_dry (hdry : b.peek now rate r.window = 0) :
    r.decide rate now (some b) = (.denyMillis (b.nextToken now rate r.window), b) := by
  obtain ⟨htokens, haccrued⟩ := Bucket.peek_eq_zero_iff.1 hdry
  simp [TokenBucket.decide, Bucket.refill_of_accrued_eq_zero haccrued, Bucket.consume, htokens]

theorem decide_of_token {kept : Option Bucket}
    (h : 0 < ((kept.getD ⟨r.capacity, now⟩).refill now rate r.window).2.tokens) :
    (r.decide rate now kept).1 = .allowed := by
  simp only [TokenBucket.decide, Bucket.consume, if_pos h, if_true]

theorem decide_none (hcapacity : 0 < r.capacity) : (r.decide rate now none).1 = .allowed := by
  refine decide_of_token ?_
  have h : accrued (now - now) rate r.window = 0 := by simp [accrued]
  rw [Option.getD_none, Bucket.refill_of_accrued_eq_zero h]
  exact hcapacity

end TokenBucket

/-! ## Leaky buckets -/

namespace LeakyBucket

variable {r : LeakyBucket} {rate now : Nat} {kept : Option Bucket}

/-- The level at which a request finds the bucket. -/
def levelAt (kept : Option Bucket) (now rate : Nat) : Nat :=
  (kept.getD (Bucket.fresh now)).projected now rate

/-- A bucket that is full when it has leaked until now denies. -/
theorem decide_of_full (hfull : r.capacity ≤ levelAt kept now rate) :
    r.decide rate now kept =
      (.denyMillis (r.retryAfter (levelAt kept now rate) rate),
        (kept.getD (Bucket.fresh now)).drain now rate) := by
  have hlevel : ¬ ((kept.getD (Bucket.fresh now)).drain now rate).level < r.capacity := by
    rw [Bucket.drain_level]
    exact Nat.not_lt.2 hfull
  simp only [LeakyBucket.decide, Bucket.fill, if_neg hlevel, Bool.false_eq_true, if_false]
  rw [Bucket.drain_level, levelAt]

theorem decide_of_room (hroom : levelAt kept now rate < r.capacity) :
    (r.decide rate now kept).1 = .allowed := by
  have hlevel : ((kept.getD (Bucket.fresh now)).drain now rate).level < r.capacity := by
    rw [Bucket.drain_level]
    exact hroom
  simp only [LeakyBucket.decide, Bucket.fill, if_pos hlevel, if_true]

theorem levelAt_none : levelAt none now rate = 0 := by
  simp [levelAt, Bucket.fresh, Bucket.projected]

end LeakyBucket

/-! ## Quotas -/

namespace Quota

variable {q : Quota} {record : Record} {now : Nat}

theorem current_of_running (hrunning : now - record.lastReset < q.period) :
    q.current record now = record := by
  have hover : q.isOver record now = false := decide_eq_false (Nat.not_le.2 hrunning)
  simp only [current, hover, Bool.false_eq_true, if_false]

/-- A budget used up in a running period denies, and the record is handed back. -/
theorem decide_of_spent (hrunning : now - record.lastReset < q.period)
    (hspent : q.limit ≤ record.quotaUsed) :
    q.decide record now = ⟨.denyMillis (q.retryAfter record now), record⟩ := by
  simp only [Quota.decide, current_of_running hrunning, if_pos hspent]

theorem decide_of_budget (hlimit : 0 < q.limit)
    (h : q.period ≤ now - record.lastReset ∨ record.quotaUsed < q.limit) :
    (q.decide record now).verdict = .allowed := by
  have hused : ¬ q.limit ≤ (q.current record now).quotaUsed := by
    by_cases hover : q.period ≤ now - record.lastReset
    · have hc : q.current record now = record.resetQuota now := if_pos (decide_eq_true hover)
      rw [hc]
      exact Nat.not_le.2 hlimit
    · rw [current_of_running (Nat.not_le.1 hover)]
      exact Nat.not_le.2 (h.resolve_left hover)
  simp only [Quota.decide, if_neg hused]

end Quota
end AdmissionControl
