import AdmissionControl.Proofs.Rule.Denials
import AdmissionControl.Proofs.Rule.Ledger

/-!
# How many requests a token bucket admits

A bucket starts with its capacity, and `rate` tokens come in during each `window`.  So one expects that a
client gets no more than the capacity and what the time since its first request brings, however its
requests are spread.  A refill books whole tokens and moves its clock by the time these took — rounded down
to whole milliseconds, so that the cut time is counted once more.

* `admissions_le_credits` — each admission takes a token, and tokens come from the capacity or a refill.
* `ledger_credits` — refills keep the ledger of `Proofs.Rule.Ledger`.
* `tokenBucket_withinRate_iff` — **exactly when the bound holds**: for rates and windows of which one
  divides the other, and for all runs that are shorter than `firstExcess`.
* `tokenBucket_exceeds_rate` — three admissions where two are due.
-/

namespace AdmissionControl

namespace TokenBucket

/-! ## What refills credit -/

namespace Bucket

/-- The tokens that refills at the given times credit, one refill after another. -/
def credits (rate window : Nat) : Bucket → List Nat → Nat
  | _, [] => 0
  | b, now :: rest =>
      (b.refill now rate window).1 + credits rate window (b.refill now rate window).2 rest

variable {rate window now : Nat} {b b' : Bucket}

theorem refill_fst_congr (h : b.refilled = b'.refilled) :
    (b.refill now rate window).1 = (b'.refill now rate window).1 := by
  simp only [refill, h]
  split <;> rfl

theorem refilled_refill_congr (h : b.refilled = b'.refilled) :
    (b.refill now rate window).2.refilled = (b'.refill now rate window).2.refilled := by
  simp only [refill, h]
  split
  · rfl
  · exact h

/-- What is credited depends on the clock of the bucket, and not on its tokens. -/
theorem credits_congr (h : b.refilled = b'.refilled) (times : List Nat) :
    b.credits rate window times = b'.credits rate window times := by
  induction times generalizing b b' with
  | nil => rfl
  | cons now rest ih =>
      rw [credits, credits, refill_fst_congr h, ih (refilled_refill_congr h)]

theorem refill_fst_le : (b.refill now rate window).1 ≤ accrued (now - b.refilled) rate window := by
  simp only [refill]
  split
  · exact Word.saturate_le_self _
  · exact Nat.zero_le _

theorem tokens_refill_le :
    (b.refill now rate window).2.tokens ≤ b.tokens + (b.refill now rate window).1 := by
  simp only [refill]
  split
  · exact Nat.mod_le ..
  · exact Nat.le_add_right ..

theorem accrued_eq (hrate : 0 < rate) (hwindow : 0 < window) (elapsed : Nat) :
    accrued elapsed rate window = elapsed * rate / window := by
  rw [accrued, Nat.max_eq_left hrate, Nat.max_eq_left hwindow]

theorem timeOf_eq (hrate : 0 < rate) (hwindow : 0 < window) (tokens : Nat) :
    timeOf tokens rate window = tokens * window / rate := by
  rw [timeOf, Nat.max_eq_left hrate, Nat.max_eq_left hwindow]

/-- The time that tokens took does not reach beyond the time in which they came in. -/
theorem timeOf_accrued_le (hrate : 0 < rate) (hwindow : 0 < window) (elapsed : Nat) :
    timeOf (accrued elapsed rate window) rate window ≤ elapsed := by
  rw [accrued_eq hrate hwindow, timeOf_eq hrate hwindow]
  exact Ledger.took_le (Nat.div_mul_le_self ..)

/-- A refill moves the clock of the bucket by the time that the tokens took, rounded down. -/
theorem refilled_refill (hrate : 0 < rate) (hwindow : 0 < window) (hb : b.refilled ≤ now)
    (hnow : now ≤ Word.max) :
    (b.refill now rate window).2.refilled =
      b.refilled + timeOf (accrued (now - b.refilled) rate window) rate window := by
  have htime := timeOf_accrued_le hrate hwindow (now - b.refilled)
  simp only [refill]
  split
  · have h1 : Word.saturate (timeOf (accrued (now - b.refilled) rate window) rate window) =
        timeOf (accrued (now - b.refilled) rate window) rate window :=
      Word.saturate_of_le (by omega)
    rw [h1]
    exact Word.saturate_of_le (by omega)
  · rename_i hnone
    rw [Nat.eq_zero_of_not_pos hnone]
    simp [timeOf]

/-- A refill is a booking. -/
theorem ledger_refill (hrate : 0 < rate) (hwindow : 0 < window) {start credited later : Nat}
    (h : Ledger rate window (Aligned rate window) start credited b.refilled now)
    (hlater : now ≤ later) (hword : later ≤ Word.max) :
    Ledger rate window (Aligned rate window) start (credited + (b.refill later rate window).1)
      (b.refill later rate window).2.refilled later := by
  have hb : b.refilled ≤ later := Nat.le_trans h.booked_le hlater
  have htime := timeOf_accrued_le hrate hwindow (later - b.refilled)
  have hunits : (b.refill later rate window).1 ≤ (later - b.refilled) * rate / window := by
    rw [← accrued_eq hrate hwindow]
    exact refill_fst_le
  have hclock := refilled_refill hrate hwindow hb hword
  rw [accrued_eq hrate hwindow, timeOf_eq hrate hwindow] at htime hclock
  refine h.book hlater ?_ ?_ ?_ fun halign => ?_
  · exact Nat.le_trans (Nat.mul_le_mul_right window hunits) (Nat.div_mul_le_self ..)
  · rw [hclock]
    exact Nat.add_le_add_left (Nat.div_le_div_right (Nat.mul_le_mul_right window hunits)) _
  · omega
  · -- no time is cut off, so the clock moves by all that the tokens took
    rw [hclock, Nat.add_sub_cancel_left, Nat.div_mul_cancel (halign.dvd_mul _)]
    exact Nat.mul_le_mul_right window hunits

/-- **Refills keep the ledger.** -/
theorem ledger_credits (hrate : 0 < rate) (hwindow : 0 < window) {start credited : Nat}
    {times : List Nat}
    (h : Ledger rate window (Aligned rate window) start credited b.refilled now)
    (hforward : (now :: times).Pairwise (· ≤ ·)) (hword : ∀ t ∈ times, t ≤ Word.max) :
    ∃ booked, Ledger rate window (Aligned rate window) start
      (credited + b.credits rate window times) booked (times.getLast?.getD now) := by
  induction times generalizing b credited now with
  | nil => exact ⟨_, h⟩
  | cons later rest ih =>
      obtain ⟨hnow, hrest⟩ := List.pairwise_cons.1 hforward
      have hstep := ledger_refill hrate hwindow h (hnow later (List.mem_cons_self ..))
        (hword later (List.mem_cons_self ..))
      obtain ⟨booked, hbooked⟩ := ih hstep hrest fun t ht => hword t (List.mem_cons_of_mem _ ht)
      refine ⟨booked, ?_⟩
      rw [credits, ← Nat.add_assoc, List.getLast?_cons]
      simpa using hbooked

/-- Refills over some time credit no more than that time brings at once, if rate and window are aligned or
the time is short. -/
theorem credits_le (hrate : 0 < rate) (hwindow : 0 < window) {times : List Nat}
    (hforward : (b.refilled :: times).Pairwise (· ≤ ·)) (hword : ∀ t ∈ times, t ≤ Word.max)
    (hshort : Aligned rate window ∨
      times.getLast?.getD b.refilled - b.refilled < firstExcess rate window) :
    b.credits rate window times ≤
      accrued (times.getLast?.getD b.refilled - b.refilled) rate window := by
  obtain ⟨booked, h⟩ := ledger_credits hrate hwindow
    (Ledger.opening rate window (Aligned rate window) b.refilled) hforward hword
  rw [accrued_eq hrate hwindow]
  simpa using h.credited_le hwindow hshort

end Bucket

/-! ## Admissions and credits -/

variable (r : TokenBucket) (rate : Nat)

/-- A decision takes a token for each admission. -/
theorem tokens_decide (now : Nat) (kept : Option Bucket) :
    (r.decide rate now kept).1.isAllowed.toNat + (r.decide rate now kept).2.tokens =
      ((kept.getD ⟨r.capacity, now⟩).refill now rate r.window).2.tokens := by
  simp only [TokenBucket.decide, Bucket.consume]
  split
  · simp
    omega
  · simp

theorem refilled_decide (now : Nat) (kept : Option Bucket) :
    (r.decide rate now kept).2.refilled =
      ((kept.getD ⟨r.capacity, now⟩).refill now rate r.window).2.refilled := by
  simp only [TokenBucket.decide, Bucket.consume]
  split <;> rfl

/-- Each admission takes a token, and tokens are there from the start or have been credited. -/
theorem admissions_le_credits (times : List Nat) (b : Bucket) :
    admissions (r.decide rate) times (some b) ≤ b.tokens + b.credits rate r.window times := by
  induction times generalizing b with
  | nil => exact Nat.zero_le _
  | cons now rest ih =>
      have htoken := tokens_decide r rate now (some b)
      have hrefill : (b.refill now rate r.window).2.tokens ≤
          b.tokens + (b.refill now rate r.window).1 := Bucket.tokens_refill_le
      have hrest := ih (r.decide rate now (some b)).2
      have hcredits : (r.decide rate now (some b)).2.credits rate r.window rest =
          (b.refill now rate r.window).2.credits rate r.window rest :=
        Bucket.credits_congr (refilled_decide r rate now (some b)) rest
      rw [Option.getD_some] at htoken
      rw [admissions, Bucket.credits]
      omega

/-! ## The greedy run -/

variable {r rate}

theorem decide_some_zero (tokens : Nat) :
    r.decide rate 0 (some ⟨tokens, 0⟩) =
      if 0 < tokens then (.allowed, ⟨tokens - 1, 0⟩)
      else (.denyMillis (Bucket.nextToken ⟨tokens, 0⟩ 0 rate r.window), ⟨tokens, 0⟩) := by
  have hrefill : Bucket.refill ⟨tokens, 0⟩ 0 rate r.window = (0, ⟨tokens, 0⟩) :=
    Bucket.refill_of_accrued_eq_zero (by simp [accrued])
  simp only [TokenBucket.decide, Option.getD_some, hrefill, Bucket.consume]
  by_cases h : 0 < tokens
  · simp only [if_pos h, if_true]
  · simp only [if_neg h, Bool.false_eq_true, if_false]

/-- Requests at the very start empty the bucket. -/
theorem crowd_at_start (r : TokenBucket) (rate crowd tokens : Nat) :
    keptAfter (r.decide rate) (List.replicate crowd 0) (some ⟨tokens, 0⟩) =
        some ⟨tokens - crowd, 0⟩ ∧
      admissions (r.decide rate) (List.replicate crowd 0) (some ⟨tokens, 0⟩) =
        min crowd tokens := by
  induction crowd generalizing tokens with
  | zero => simp [keptAfter, admissions]
  | succ crowd ih =>
      obtain ⟨hkept, hadmitted⟩ := ih (tokens - 1)
      rw [List.replicate_succ, keptAfter, List.foldl_cons, ← keptAfter, admissions,
        decide_some_zero]
      by_cases htokens : 0 < tokens
      · rw [if_pos htokens, hkept, hadmitted]
        refine ⟨by rw [Nat.sub_sub, Nat.add_comm 1 crowd], ?_⟩
        simp only [Verdict.isAllowed_allowed, Bool.toNat_true]
        omega
      · obtain rfl := Nat.eq_zero_of_not_pos htokens
        rw [if_neg htokens]
        rw [Nat.zero_sub] at hkept hadmitted
        rw [hkept, hadmitted]
        simp

/-- A bucket that is asked again just when the next token has come in admits, and forgets nothing of the
time that was cut off. -/
theorem greedy_step (hwindow : 0 < r.window) (halign : ¬ Aligned rate r.window)
    (hmax : rate ≤ Policy.maxRate) {units : Nat} (hunits : units ≤ rate)
    (hword : (units + 1) * (r.window / rate) + 1 ≤ Word.max) {tokens : Nat}
    (htokens : tokens = units * ((r.window / rate + 1) * rate / r.window - 1)) :
    r.decide rate ((units + 1) * (r.window / rate) + 1)
        (some ⟨tokens, units * (r.window / rate)⟩) =
      (.allowed, ⟨(units + 1) * ((r.window / rate + 1) * rate / r.window - 1),
        (units + 1) * (r.window / rate)⟩) := by
  obtain ⟨hpos, htook, hfew⟩ := greedy_units hwindow halign
  have hrate := pos_of_not_aligned halign
  set f := r.window / rate with hf
  set n := (f + 1) * rate / r.window with hn
  have helapsed : (units + 1) * f + 1 - units * f = f + 1 := by
    rw [Nat.add_mul]
    omega
  have haccrued : accrued ((units + 1) * f + 1 - units * f) rate r.window = n := by
    rw [helapsed, Bucket.accrued_eq hrate hwindow]
  -- all counts stay far below the largest word
  have hsmall : tokens + n ≤ Word.max := by
    have h1 : tokens + n ≤ rate * rate := by
      rw [htokens]
      calc units * (n - 1) + n ≤ rate * (n - 1) + rate :=
            Nat.add_le_add (Nat.mul_le_mul_right _ hunits) hfew
        _ = rate * n := by rw [Nat.mul_sub_one, Nat.sub_add_cancel (Nat.le_mul_of_pos_right _ hpos)]
        _ ≤ rate * rate := Nat.mul_le_mul_left _ hfew
    have h2 : rate * rate ≤ Policy.maxRate * Policy.maxRate := Nat.mul_le_mul hmax hmax
    exact Nat.le_trans h1 (Nat.le_trans h2 (by decide))
  have hrefill : Bucket.refill ⟨tokens, units * f⟩ ((units + 1) * f + 1) rate r.window =
      (n, ⟨tokens + n, (units + 1) * f⟩) := by
    have hclock : units * f + f = (units + 1) * f := by rw [Nat.add_mul, Nat.one_mul]
    simp only [Bucket.refill, haccrued, if_pos hpos, Bucket.timeOf_eq hrate hwindow, htook]
    rw [Word.saturate_of_le (show n ≤ Word.max by omega), Word.wrap_of_le hsmall,
      Word.saturate_of_le (show f ≤ Word.max by omega), hclock,
      Word.saturate_of_le (show (units + 1) * f ≤ Word.max by omega)]
  have hleft : tokens + n - 1 = (units + 1) * (n - 1) := by
    rw [htokens, Nat.add_mul, Nat.one_mul]
    omega
  have hsome : 0 < tokens + n := by omega
  simp only [TokenBucket.decide, Option.getD_some, hrefill, Bucket.consume, if_pos hsome, if_true,
    hleft]

/-- **The greedy run**: every request after the start is admitted. -/
theorem greedy_run (hwindow : 0 < r.window) (halign : ¬ Aligned rate r.window)
    (hmax : rate ≤ Policy.maxRate) (units : Nat) (hunits : units ≤ rate + 1)
    (hword : units * (r.window / rate) + 1 ≤ Word.max) :
    keptAfter (r.decide rate) (greedyTimes rate r.window (r.capacity + 1) units) none =
        some ⟨units * ((r.window / rate + 1) * rate / r.window - 1),
          units * (r.window / rate)⟩ ∧
      admissions (r.decide rate) (greedyTimes rate r.window (r.capacity + 1) units) none =
        r.capacity + units := by
  induction units with
  | zero =>
      -- the first request makes the bucket, and is decided as if it had been there
      obtain ⟨hkept, hadmitted⟩ := crowd_at_start r rate (r.capacity + 1) r.capacity
      rw [Nat.sub_eq_zero_of_le (Nat.le_succ _)] at hkept
      rw [Nat.min_eq_right (Nat.le_succ _)] at hadmitted
      simp only [greedyTimes, List.range_zero, List.map_nil, List.append_nil, Nat.zero_mul,
        Nat.add_zero]
      exact ⟨hkept, hadmitted⟩
  | succ units ih =>
      have hless : units * (r.window / rate) ≤ (units + 1) * (r.window / rate) :=
        Nat.mul_le_mul_right _ (Nat.le_succ units)
      obtain ⟨hkept, hadmitted⟩ := ih (by omega) (by omega)
      have hstep := greedy_step hwindow halign hmax (Nat.le_of_succ_le_succ hunits) hword rfl
      rw [greedyTimes_succ, keptAfter_append, admissions_append, hkept, hadmitted, keptAfter,
        admissions, admissions, List.foldl_cons, List.foldl_nil, hstep]
      exact ⟨rfl, rfl⟩

/-- The greedy run lasts for `firstExcess` and admits more than that time brings. -/
theorem lt_admissions_greedy (hwindow : 0 < r.window) (halign : ¬ Aligned rate r.window)
    (hmax : rate ≤ Policy.maxRate) (hword : firstExcess rate r.window ≤ Word.max) :
    r.capacity + firstExcess rate r.window * rate / r.window <
      admissions (r.decide rate) (greedyTimes rate r.window (r.capacity + 1)
        (rate / (r.window % rate) + 1)) none := by
  have hm := mod_pos_of_not_aligned halign
  have hmany : rate / (r.window % rate) + 1 ≤ rate + 1 := Nat.succ_le_succ (Nat.div_le_self ..)
  rw [(greedy_run hwindow halign hmax _ hmany hword).2]
  exact Nat.add_lt_add_left (lt_units_of_firstExcess hwindow hm) _

/-! ## Exactly when the bound holds -/

/-- Refills spread over no more than `horizon` credit no more than that time brings at once. -/
def SplitsFairly (window rate horizon : Nat) : Prop :=
  ∀ (b : Bucket) (refills : List Nat), (b.refilled :: refills).Pairwise (· ≤ ·) →
    (∀ now ∈ refills, now ≤ Word.max) →
    refills.getLast?.getD b.refilled - b.refilled ≤ horizon →
    b.credits rate window refills ≤
      accrued (refills.getLast?.getD b.refilled - b.refilled) rate window

theorem splitsFairly_of_short {window : Nat} (horizon : Nat) (hwindow : 0 < window) (hrate : 0 < rate)
    (h : Aligned rate window ∨ horizon < firstExcess rate window) :
    SplitsFairly window rate horizon := by
  intro b refills hforward hword hspan
  exact Bucket.credits_le hrate hwindow hforward hword
    (h.imp_right fun hshort => Nat.lt_of_le_of_lt hspan hshort)

/-- A client's first request makes its bucket, which then holds the capacity. -/
theorem admissions_none (now : Nat) (rest : List Nat) :
    admissions (r.decide rate) (now :: rest) none =
      admissions (r.decide rate) (now :: rest) (some ⟨r.capacity, now⟩) := rfl

theorem admissions_le {horizon : Nat} (hfair : SplitsFairly r.window rate horizon)
    (hwindow : 0 < r.window) (hrate : 0 < rate) {times : List Nat}
    (hforward : times.Pairwise (· ≤ ·)) (hword : ∀ now ∈ times, now ≤ Word.max)
    (hspan : span times ≤ horizon) :
    admissions (r.decide rate) times none ≤ r.capacity + span times * rate / r.window := by
  cases times with
  | nil => exact Nat.zero_le _
  | cons first rest =>
      have hopen := forward_cons_self hforward
      rw [span_cons] at hspan ⊢
      have hcredits := hfair ⟨r.capacity, first⟩ (first :: rest) hopen hword hspan
      rw [Bucket.accrued_eq hrate hwindow] at hcredits
      rw [admissions_none]
      exact Nat.le_trans (admissions_le_credits r rate _ _) (Nat.add_le_add_left hcredits _)

end TokenBucket

namespace Algorithm

theorem withinRate_of_splitsFairly {capacity window : Nat} (hwindow : 0 < window) {rate : UInt32}
    (hrate : 0 < rate.toNat) {horizon : Nat}
    (hfair : TokenBucket.SplitsFairly window rate.toNat horizon) :
    (ofRule (.tokenBucket ⟨capacity, window⟩)).WithinRate capacity window rate horizon :=
  withinRate_of_admissions_le (.tokenBucket _) (d := TokenBucket.decide _) (fun _ _ _ => rfl)
    fun _ hforward hword hspan => TokenBucket.admissions_le hfair hwindow hrate hforward hword hspan

/-- The greedy run breaks the bound as soon as there is time for it. -/
theorem short_of_withinRate (capacity : Nat) {window : Nat} (hwindow : 0 < window) {rate : UInt32}
    {horizon : Nat} (hhorizon : horizon ≤ Word.max)
    (h : (ofRule (.tokenBucket ⟨capacity, window⟩)).WithinRate capacity window rate horizon) :
    Aligned rate.toNat window ∨ horizon < firstExcess rate.toNat window := by
  by_contra hlong
  obtain ⟨halign, hlong⟩ := not_or.1 hlong
  have hlast : firstExcess rate.toNat window ≤ horizon := Nat.not_lt.1 hlong
  have hbound := h.admissions_greedy_le (.tokenBucket _) (d := TokenBucket.decide _)
    (fun _ _ _ => rfl) hlast hhorizon capacity
  have hexcess := TokenBucket.lt_admissions_greedy (r := ⟨capacity, window⟩) hwindow halign
    (Nat.le_of_lt_succ rate.toNat_lt) (Nat.le_trans hlast hhorizon)
  exact absurd hbound (Nat.not_le.2 hexcess)

/-- **Exactly when a token bucket keeps to its rate.**  A client gets no more than the capacity and what the
time since its first request brings if rate and window divide one another, or if that time is shorter than
`firstExcess`; otherwise some run gets more.  Under the same condition, and no other, the refills over a
time credit no more tokens than one refill over the whole time. -/
theorem tokenBucket_withinRate_iff (capacity : Nat) {window : Nat} (hwindow : 1 ≤ window)
    {rate : UInt32} (hrate : 1 ≤ rate.toNat) {horizon : Nat} (hhorizon : horizon ≤ Word.max) :
    ((ofRule (.tokenBucket (.ofMillis capacity window))).WithinRate capacity window rate horizon ↔
        Aligned rate.toNat window ∨ horizon < firstExcess rate.toNat window) ∧
      (TokenBucket.SplitsFairly window rate.toNat horizon ↔
        Aligned rate.toNat window ∨ horizon < firstExcess rate.toNat window) := by
  have hrule : TokenBucket.ofMillis capacity window = ⟨capacity, window⟩ := by
    rw [TokenBucket.ofMillis, Nat.max_eq_left hwindow]
  have hfair := TokenBucket.splitsFairly_of_short horizon hwindow hrate
  rw [hrule]
  refine ⟨⟨short_of_withinRate capacity hwindow hhorizon, fun h => ?_⟩, fun h => ?_, hfair⟩
  · exact withinRate_of_splitsFairly hwindow hrate (hfair h)
  · exact short_of_withinRate capacity hwindow hhorizon
      (withinRate_of_splitsFairly hwindow hrate h)

/-- Three tokens a second for a bucket of five: each token takes 333 milliseconds and a third, of which the
refill books 333.  Four such refills give a token too many, not a millisecond earlier. -/
theorem tokenBucket_three_a_second :
    (ofRule (.tokenBucket (.ofMillis 5 1000))).WithinRate 5 1000 3 1332 ∧
      ¬ (ofRule (.tokenBucket (.ofMillis 5 1000))).WithinRate 5 1000 3 1333 := by
  have hexcess : firstExcess (3 : UInt32).toNat 1000 = 1333 := by decide
  have halign : ¬ Aligned (3 : UInt32).toNat 1000 := by
    rintro (h | h) <;> revert h <;> decide
  constructor
  · refine (tokenBucket_withinRate_iff 5 (by decide) (by decide) (by decide)).1.2 (.inr ?_)
    rw [hexcess]
    decide
  · intro h
    rcases (tokenBucket_withinRate_iff 5 (by decide) (by decide) (by decide)).1.1 h with h | h
    · exact halign h
    · rw [hexcess] at h
      exact absurd h (by decide)

/-- **Three admissions where two are due.**  At 1500 a second a millisecond brings one token and a half.  A
bucket of one token that is asked at 0, 1 and 1 admits all three requests: the token that comes in at 1
takes two thirds of a millisecond, of which the refill books none, so that it comes in twice. -/
theorem tokenBucket_exceeds_rate :
    Steady "c1" 1500 (requests (Record.fresh ⟨"c1", .standard⟩ (.limited 1500) 0) [0, 1, 1]) ∧
      (ofRule (.tokenBucket (.ofMillis 1 1000))).admitted
        (requests (Record.fresh ⟨"c1", .standard⟩ (.limited 1500) 0) [0, 1, 1]) = 3 ∧
      ¬ 3 ≤ 1 + span [0, 1, 1] * 1500 / 1000 ∧
      TokenBucket.accrued (1 - 0) 1500 1000 <
        TokenBucket.Bucket.credits 1500 1000 ⟨1, 0⟩ [1, 1] := by
  refine ⟨?_, by decide, by decide, by decide⟩
  exact steady_requests (Record.fresh ⟨"c1", .standard⟩ (.limited 1500) 0) rfl (by decide)
    (by decide)

end Algorithm
end AdmissionControl
