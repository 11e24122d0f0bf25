import AdmissionControl.Proofs.Rule.Denials
import AdmissionControl.Proofs.Rule.Ledger

/-!
# How many requests a leaky bucket admits

Each admitted request pours a unit into the bucket, which leaks `rate` units a second.  So one expects that
a client gets no more than the capacity and what leaks in the time since its first request.  Leaking books
whole units and moves its clock by the time these took — rounded down to whole milliseconds, as the refill
of a token bucket does, and with the same effect.  Only where every leak runs the bucket dry, and the clock
starts afresh, the rounding is harmless.

* `admissions_ledger` — what was admitted is in the bucket or has leaked, and leaks keep the ledger of
  `Proofs.Rule.Ledger`.
* `greedy_run` — the run that gains the most by rounding.
* `leakyBucket_withinRate_iff` — **exactly when the bound holds.**
* `leakyBucket_exceeds_rate` — four admissions where three are due.
-/

namespace AdmissionControl
namespace LeakyBucket

/-- No leak cuts time off: a second and the rate divide one another, or a leak, which takes at least one
unit and at least what a millisecond brings, always runs the bucket dry. -/
def LeaksExactly (capacity rate : Nat) : Prop := Aligned rate 1000 ∨ capacity ≤ max 1 (rate / 1000)

/-! ## One leak -/

namespace Bucket

variable {rate now level drained : Nat}

theorem leaked_eq (hrate : 0 < rate) (elapsed : Nat) :
    leaked elapsed rate = elapsed * rate / 1000 := by
  rw [leaked, Nat.max_eq_left hrate]

theorem leaked_mul_le (hrate : 0 < rate) (elapsed : Nat) :
    leaked elapsed rate * 1000 ≤ elapsed * rate := by
  rw [leaked_eq hrate]
  exact Nat.div_mul_le_self ..

theorem drain_of_dry (h : level ≤ leaked (now - drained) rate) :
    Bucket.drain ⟨level, drained⟩ now rate = ⟨0, max now drained⟩ := by
  simp only [drain, if_pos (Nat.sub_eq_zero_of_le h)]

/-- A leak that leaves water moves the clock by the time that the units took, rounded down. -/
theorem drain_of_wet (hrate : 0 < rate) (hdrained : drained ≤ now) (hnow : now ≤ Word.max)
    (h : leaked (now - drained) rate < level) :
    Bucket.drain ⟨level, drained⟩ now rate = ⟨level - leaked (now - drained) rate,
      drained + leaked (now - drained) rate * 1000 / rate⟩ := by
  have hle := Ledger.took_le (leaked_mul_le hrate (now - drained))
  have htime : Word.saturate (timeOf (leaked (now - drained) rate) rate) =
      leaked (now - drained) rate * 1000 / rate := by
    rw [timeOf, Nat.max_eq_left hrate]
    exact Word.saturate_of_le (by omega)
  simp only [drain, if_neg (Nat.sub_ne_zero_of_lt h)]
  split
  · rw [htime, Word.saturate_of_le (by omega)]
  · rename_i hnone
    rw [Nat.eq_zero_of_not_pos hnone, Nat.zero_mul, Nat.zero_div, Nat.add_zero]

/-- A bucket that is too small to stay wet when something leaks. -/
theorem leaked_eq_zero_of_wet {capacity elapsed : Nat} (hrate : 0 < rate)
    (hsmall : capacity ≤ max 1 (rate / 1000)) (hwet : leaked elapsed rate < capacity) :
    leaked elapsed rate = 0 := by
  by_contra hsome
  have helapsed : 0 < elapsed := by
    refine Nat.pos_of_ne_zero ?_
    rintro rfl
    exact hsome (by simp [leaked])
  have hmany : rate / 1000 ≤ leaked elapsed rate := by
    rw [leaked_eq hrate]
    exact Nat.div_le_div_right (Nat.le_mul_of_pos_left rate helapsed)
  omega

/-- A leak is a booking. -/
theorem ledger_drain {b : Bucket} {capacity : Nat} (hrate : 0 < rate) {start credited before : Nat}
    (h : Ledger rate 1000 (LeaksExactly capacity rate) start credited b.drained before)
    (hlevel : b.level ≤ capacity) (hbefore : before ≤ now) (hword : now ≤ Word.max) :
    Ledger rate 1000 (LeaksExactly capacity rate) start
      (credited + (b.level - (b.drain now rate).level)) (b.drain now rate).drained now := by
  obtain ⟨level, drained⟩ := b
  have hdrained : drained ≤ now := Nat.le_trans h.booked_le hbefore
  have hcame := leaked_mul_le hrate (now - drained)
  rcases Nat.lt_or_ge (leaked (now - drained) rate) level with hwet | hdry
  · have hupTo : drained + leaked (now - drained) rate * 1000 / rate ≤ now := by
      have htook := Ledger.took_le hcame
      omega
    rw [drain_of_wet hrate hdrained hword hwet, Nat.sub_sub_self (Nat.le_of_lt hwet)]
    refine h.book hbefore hcame (Nat.le_refl _) hupTo fun hexact => ?_
    rw [Nat.add_sub_cancel_left]
    rcases hexact with halign | hsmall
    · -- no time is cut off
      rw [leaked_eq hrate, Nat.div_mul_cancel (halign.dvd_mul _)]
    · rw [leaked_eq_zero_of_wet hrate hsmall (Nat.lt_of_lt_of_le hwet hlevel), Nat.zero_mul]
      exact Nat.zero_le _
  · have hunits : level * 1000 ≤ (now - drained) * rate :=
      Nat.le_trans (Nat.mul_le_mul_right 1000 hdry) hcame
    have hupTo : drained + level * 1000 / rate ≤ now := by
      have htook := Ledger.took_le hunits
      omega
    rw [drain_of_dry hdry, Nat.sub_zero, Nat.max_eq_left hdrained]
    exact h.book hbefore hunits hupTo (Nat.le_refl _) fun _ => hunits

end Bucket

/-! ## Admissions and leaks -/

variable (r : LeakyBucket) (rate now : Nat)

/-- A decision pours in a unit for each admission. -/
theorem level_decide (b : Bucket) :
    (r.decide rate now (some b)).2.level =
      (b.drain now rate).level + (r.decide rate now (some b)).1.isAllowed.toNat := by
  simp only [LeakyBucket.decide, Option.getD_some, Bucket.fill]
  split
  · simp
  · simp

theorem drained_decide (b : Bucket) :
    (r.decide rate now (some b)).2.drained = (b.drain now rate).drained := by
  simp only [LeakyBucket.decide, Option.getD_some, Bucket.fill]
  split
  · rfl
  · rfl

variable {r rate now}

/-- **What was admitted is in the bucket or has leaked**, and what has leaked is in the ledger. -/
theorem admissions_ledger (hrate : 0 < rate) {start credited : Nat} {b : Bucket} {times : List Nat}
    (h : Ledger rate 1000 (LeaksExactly r.capacity rate) start credited b.drained now)
    (hlevel : b.level ≤ r.capacity) (hforward : (now :: times).Pairwise (· ≤ ·))
    (hword : ∀ t ∈ times, t ≤ Word.max) :
    ∃ total booked, Ledger rate 1000 (LeaksExactly r.capacity rate) start total booked
        (times.getLast?.getD now) ∧
      admissions (r.decide rate) times (some b) + b.level + credited ≤ r.capacity + total := by
  induction times generalizing b credited now with
  | nil =>
      refine ⟨credited, b.drained, h, ?_⟩
      rw [admissions, Nat.zero_add]
      exact Nat.add_le_add_right hlevel _
  | cons later rest ih =>
      obtain ⟨hnow, hrest⟩ := List.pairwise_cons.1 hforward
      have hstep := Bucket.ledger_drain hrate h hlevel (hnow later (List.mem_cons_self ..))
        (hword later (List.mem_cons_self ..))
      rw [← drained_decide r] at hstep
      have hnext : (r.decide rate later (some b)).2.level ≤ r.capacity :=
        level_decide_le fun _ hb => Option.some.inj hb ▸ hlevel
      obtain ⟨total, booked, hledger, hcount⟩ :=
        ih hstep hnext hrest fun t ht => hword t (List.mem_cons_of_mem _ ht)
      have hpoured := level_decide r rate later b
      have hlowered : (b.drain later rate).level ≤ b.level := by
        rw [Bucket.drain_level]
        exact Nat.sub_le ..
      refine ⟨total, booked, ?_, ?_⟩
      · rw [List.getLast?_cons]
        simpa using hledger
      · rw [admissions]
        omega

/-- A client's first request makes its bucket, which then is dry. -/
theorem admissions_none (now : Nat) (rest : List Nat) :
    admissions (r.decide rate) (now :: rest) none =
      admissions (r.decide rate) (now :: rest) (some (Bucket.fresh now)) := rfl

theorem admissions_le {horizon : Nat} (hrate : 0 < rate)
    (hshort : LeaksExactly r.capacity rate ∨ horizon < firstExcess rate 1000) {times : List Nat}
    (hforward : times.Pairwise (· ≤ ·)) (hword : ∀ t ∈ times, t ≤ Word.max)
    (hspan : span times ≤ horizon) :
    admissions (r.decide rate) times none ≤ r.capacity + span times * rate / 1000 := by
  cases times with
  | nil => exact Nat.zero_le _
  | cons first rest =>
      have hopen := forward_cons_self hforward
      rw [span_cons] at hspan ⊢
      obtain ⟨total, booked, hledger, hcount⟩ := admissions_ledger (r := r) (b := .fresh first)
        hrate (Ledger.opening rate 1000 (LeaksExactly r.capacity rate) first) (Nat.zero_le _) hopen
        hword
      have htotal := hledger.credited_le (by decide)
        (hshort.imp_right fun hlt => Nat.lt_of_le_of_lt hspan hlt)
      rw [Nat.add_zero] at hcount
      rw [admissions_none]
      exact Nat.le_trans (Nat.le_trans (Nat.le_add_right ..) hcount)
        (Nat.add_le_add_left htotal _)

/-! ## The greedy run -/

variable (r) in
theorem decide_some_zero (rate level : Nat) :
    r.decide rate 0 (some ⟨level, 0⟩) =
      if level < r.capacity then (.allowed, ⟨level + 1, 0⟩)
      else (.denyMillis (r.retryAfter level rate), ⟨level, 0⟩) := by
  have hdrain : Bucket.drain ⟨level, 0⟩ 0 rate = ⟨level, 0⟩ := by
    simp only [Bucket.drain, leaked, Nat.sub_self, Nat.zero_mul, Nat.zero_div, Nat.sub_zero,
      Nat.lt_irrefl, if_false, Nat.max_self]
    split
    · rename_i hzero
      rw [hzero]
    · rfl
  simp only [LeakyBucket.decide, Option.getD_some, hdrain, Bucket.fill]
  by_cases h : level < r.capacity
  · simp only [if_pos h, if_true]
  · simp only [if_neg h, Bool.false_eq_true, if_false]

/-- Requests at the very start fill the bucket. -/
theorem crowd_at_start (r : LeakyBucket) (rate crowd : Nat) {level : Nat}
    (hlevel : level ≤ r.capacity) :
    keptAfter (r.decide rate) (List.replicate crowd 0) (some ⟨level, 0⟩) =
        some ⟨min (level + crowd) r.capacity, 0⟩ ∧
      admissions (r.decide rate) (List.replicate crowd 0) (some ⟨level, 0⟩) =
        min crowd (r.capacity - level) := by
  induction crowd generalizing level with
  | zero => simp [keptAfter, admissions, Nat.min_eq_left hlevel]
  | succ crowd ih =>
      rw [List.replicate_succ, keptAfter, List.foldl_cons, ← keptAfter, admissions,
        decide_some_zero]
      by_cases hroom : level < r.capacity
      · obtain ⟨hkept, hadmitted⟩ := ih (Nat.succ_le_of_lt hroom)
        rw [if_pos hroom, hkept, hadmitted]
        refine ⟨by rw [Nat.succ_add_eq_add_succ], ?_⟩
        simp only [Verdict.isAllowed_allowed, Bool.toNat_true]
        omega
      · obtain ⟨hkept, hadmitted⟩ := ih hlevel
        obtain rfl : level = r.capacity := Nat.le_antisymm hlevel (Nat.not_lt.1 hroom)
        rw [if_neg hroom, hkept, hadmitted]
        simp

/-- What the greedy run has left of the bucket after `count` requests: a bucket whose clock is behind by
all that was cut off, or one that has run dry, when a millisecond brings more than one unit. -/
inductive Behind (r : LeakyBucket) (rate count : Nat) : Bucket → Prop
  /-- All leaks were cut. -/
  | cut {level : Nat} (hlevel : level ≤ r.capacity)
      (hfull : 0 < 1000 / rate → level = r.capacity) : Behind r rate count ⟨level, count * (1000 / rate)⟩
  /-- A leak ran the bucket dry, and what is in it has come since. -/
  | dry {level : Nat} (hfast : 1000 / rate = 0) (hlevel : level ≤ count) :
      Behind r rate count ⟨level, 1⟩

theorem decide_of_dry {level drained : Nat} (hcapacity : 0 < r.capacity)
    (h : level ≤ leaked (now - drained) rate) :
    r.decide rate now (some ⟨level, drained⟩) = (.allowed, ⟨1, max now drained⟩) := by
  simp only [LeakyBucket.decide, Option.getD_some, Bucket.drain_of_dry h, Bucket.fill,
    if_pos hcapacity, if_true]

theorem decide_of_wet {level drained : Nat} (hrate : 0 < rate) (hdrained : drained ≤ now)
    (hnow : now ≤ Word.max) (h : leaked (now - drained) rate < level)
    (hroom : level - leaked (now - drained) rate < r.capacity) :
    r.decide rate now (some ⟨level, drained⟩) =
      (.allowed, ⟨level - leaked (now - drained) rate + 1,
        drained + leaked (now - drained) rate * 1000 / rate⟩) := by
  simp only [LeakyBucket.decide, Option.getD_some, Bucket.drain_of_wet hrate hdrained hnow h,
    Bucket.fill, if_pos hroom, if_true]

/-- At rates below one unit a millisecond, one unit leaks between two requests of the greedy run. -/
theorem leaked_of_slow (halign : ¬ Aligned rate 1000) (hslow : 0 < 1000 / rate) :
    leaked (1000 / rate + 1) rate = 1 := by
  obtain ⟨hpos, -, -⟩ := greedy_units (by decide) halign
  obtain ⟨hrate, hle⟩ := Nat.div_pos_iff.1 hslow
  have hless : rate < 1000 := by
    refine Nat.lt_of_le_of_ne hle ?_
    rintro rfl
    exact halign (.inl (Nat.dvd_refl _))
  have hwhole : 1000 / rate * rate ≤ 1000 := Nat.div_mul_le_self ..
  have htwo : (1000 / rate + 1) * rate / 1000 < 2 := by
    refine Nat.div_lt_of_lt_mul ?_
    rw [Nat.add_mul]
    omega
  rw [Bucket.leaked_eq hrate]
  omega

/-- A bucket that is behind admits the next request of the greedy run, and is behind after it. -/
theorem Behind.decide (halign : ¬ Aligned rate 1000) (hlarge : max 1 (rate / 1000) < r.capacity)
    {count : Nat} (hcount : count ≤ rate / (1000 % rate))
    (hword : (count + 1) * (1000 / rate) + 1 ≤ Word.max) {b : Bucket} (h : Behind r rate count b) :
    (r.decide rate ((count + 1) * (1000 / rate) + 1) (some b)).1 = .allowed ∧
      Behind r rate (count + 1) (r.decide rate ((count + 1) * (1000 / rate) + 1) (some b)).2 := by
  obtain ⟨hpos, htook, -⟩ := greedy_units (by decide) halign
  have hrate := pos_of_not_aligned halign
  have hcapacity : 0 < r.capacity := Nat.lt_of_le_of_lt (Nat.zero_le _) hlarge
  rw [← Bucket.leaked_eq hrate] at hpos htook
  have hclock : (count + 1) * (1000 / rate) = count * (1000 / rate) + 1000 / rate :=
    Nat.succ_mul ..
  have helapsed : (count + 1) * (1000 / rate) + 1 - count * (1000 / rate) = 1000 / rate + 1 := by
    rw [hclock, Nat.add_assoc, Nat.add_sub_cancel_left]
  cases h with
  | @cut level hlevel hfull =>
      rw [← helapsed] at hpos htook
      rcases Nat.lt_or_ge (leaked ((count + 1) * (1000 / rate) + 1 - count * (1000 / rate)) rate)
        level with hwet | hdry
      · have hbehind : count * (1000 / rate) ≤ (count + 1) * (1000 / rate) + 1 :=
          Nat.le_succ_of_le (Nat.mul_le_mul_right _ (Nat.le_succ count))
        rw [decide_of_wet hrate hbehind hword hwet (by omega), htook, ← hclock]
        refine ⟨rfl, .cut (by omega) fun hslow => ?_⟩
        rw [helapsed, leaked_of_slow halign hslow, hfull hslow]
        exact Nat.sub_add_cancel hcapacity
      · -- only a fast leak empties the bucket
        have hfast : 1000 / rate = 0 := by
          by_contra hslow
          rw [helapsed, leaked_of_slow halign (Nat.pos_of_ne_zero hslow),
            hfull (Nat.pos_of_ne_zero hslow)] at hdry
          omega
        rw [decide_of_dry hcapacity hdry, hfast]
        exact ⟨rfl, .dry hfast (Nat.succ_le_succ (Nat.zero_le _))⟩
  | @dry level hfast hlevel =>
      have hmod : 1000 % rate = 1000 := by
        have hsplit := Nat.div_add_mod 1000 rate
        rw [hfast, Nat.mul_zero, Nat.zero_add] at hsplit
        exact hsplit
      have hroom : level < r.capacity := by
        rw [hmod] at hcount
        omega
      have hnone : leaked (1 - 1) rate = 0 := by simp [leaked]
      rw [hfast, Nat.mul_zero, Nat.zero_add]
      rcases Nat.eq_zero_or_pos level with rfl | hwet
      · rw [decide_of_dry hcapacity (Nat.zero_le _)]
        exact ⟨rfl, .dry hfast (Nat.succ_le_succ hlevel)⟩
      · rw [decide_of_wet hrate (Nat.le_refl 1) (by decide) (by rw [hnone]; exact hwet)
          (by rw [hnone]; exact hroom), hnone, Nat.zero_mul, Nat.zero_div]
        exact ⟨rfl, .dry hfast (Nat.succ_le_succ hlevel)⟩

/-- **The greedy run**: every request after the start is admitted. -/
theorem greedy_run (halign : ¬ Aligned rate 1000) (hlarge : max 1 (rate / 1000) < r.capacity)
    (units : Nat) (hunits : units ≤ rate / (1000 % rate) + 1)
    (hword : units * (1000 / rate) + 1 ≤ Word.max) :
    ∃ b, keptAfter (r.decide rate) (greedyTimes rate 1000 (r.capacity + 1) units) none = some b ∧
      Behind r rate units b ∧
      admissions (r.decide rate) (greedyTimes rate 1000 (r.capacity + 1) units) none =
        r.capacity + units := by
  induction units with
  | zero =>
      -- the first request makes the bucket, and is decided as if it had been there
      obtain ⟨hkept, hadmitted⟩ := crowd_at_start r rate (r.capacity + 1) (Nat.zero_le _)
      rw [Nat.min_eq_right (by omega)] at hkept hadmitted
      have hcrowd : greedyTimes rate 1000 (r.capacity + 1) 0 =
          List.replicate (r.capacity + 1) 0 := List.append_nil _
      have hbehind : Behind r rate 0 ⟨r.capacity, 0 * (1000 / rate)⟩ :=
        .cut (Nat.le_refl _) fun _ => rfl
      rw [Nat.zero_mul] at hbehind
      rw [hcrowd]
      exact ⟨⟨r.capacity, 0⟩, hkept, hbehind, hadmitted⟩
  | succ units ih =>
      have hless : units * (1000 / rate) ≤ (units + 1) * (1000 / rate) :=
        Nat.mul_le_mul_right _ (Nat.le_succ units)
      obtain ⟨b, hkept, hbehind, hadmitted⟩ := ih (by omega) (by omega)
      obtain ⟨hallowed, hnext⟩ :=
        hbehind.decide halign hlarge (Nat.le_of_succ_le_succ hunits) hword
      refine ⟨_, ?_, hnext, ?_⟩
      · rw [greedyTimes_succ, keptAfter_append, hkept]
        rfl
      · rw [greedyTimes_succ, admissions_append, hkept, hadmitted, admissions, admissions, hallowed]
        rfl

/-- The greedy run lasts for `firstExcess` and admits more than that time brings. -/
theorem lt_admissions_greedy (halign : ¬ Aligned rate 1000)
    (hlarge : max 1 (rate / 1000) < r.capacity) (hword : firstExcess rate 1000 ≤ Word.max) :
    r.capacity + firstExcess rate 1000 * rate / 1000 <
      admissions (r.decide rate) (greedyTimes rate 1000 (r.capacity + 1)
        (rate / (1000 % rate) + 1)) none := by
  have hm := mod_pos_of_not_aligned halign
  obtain ⟨b, -, -, hadmitted⟩ := greedy_run halign hlarge _ (Nat.le_refl _) hword
  rw [hadmitted]
  exact Nat.add_lt_add_left (lt_units_of_firstExcess (by decide) hm) _

end LeakyBucket

/-! ## Exactly when the bound holds -/

namespace Algorithm

/-- **Exactly when a leaky bucket keeps to its rate.**  A client gets no more than the capacity and what
leaks in the time since its first request if a second and the rate divide one another, if every leak runs
the bucket dry, or if that time is shorter than `firstExcess`; otherwise some run gets more. -/
theorem leakyBucket_withinRate_iff (capacity : Nat) {rate : UInt32} (hrate : 1 ≤ rate.toNat)
    {horizon : Nat} (hhorizon : horizon ≤ Word.max) :
    (ofRule (.leakyBucket ⟨capacity⟩)).WithinRate capacity 1000 rate horizon ↔
      LeakyBucket.LeaksExactly capacity rate.toNat ∨ horizon < firstExcess rate.toNat 1000 := by
  constructor
  · intro h
    by_contra hlong
    obtain ⟨hexact, hlong⟩ := not_or.1 hlong
    obtain ⟨halign, hlarge⟩ := not_or.1 hexact
    have hlast : firstExcess rate.toNat 1000 ≤ horizon := Nat.not_lt.1 hlong
    have hbound := h.admissions_greedy_le (.leakyBucket _) (d := LeakyBucket.decide _)
      (fun _ _ _ => rfl) hlast hhorizon capacity
    have hexcess := LeakyBucket.lt_admissions_greedy (r := ⟨capacity⟩) halign
      (Nat.not_le.1 hlarge) (Nat.le_trans hlast hhorizon)
    exact absurd hbound (Nat.not_le.2 hexcess)
  · intro h
    refine withinRate_of_admissions_le (.leakyBucket _) (d := LeakyBucket.decide _)
      (fun _ _ _ => rfl) fun times hforward hword hspan => ?_
    exact LeakyBucket.admissions_le (r := ⟨capacity⟩) hrate h hforward hword hspan

/-- Three units a second out of a bucket of two: each takes 333 milliseconds and a third, of which a leak
books 333.  Four such leaks give a unit too many, not a millisecond earlier. -/
theorem leakyBucket_three_a_second :
    (ofRule (.leakyBucket ⟨2⟩)).WithinRate 2 1000 3 1332 ∧
      ¬ (ofRule (.leakyBucket ⟨2⟩)).WithinRate 2 1000 3 1333 := by
  have hexcess : firstExcess (3 : UInt32).toNat 1000 = 1333 := by decide
  have hcut : ¬ LeakyBucket.LeaksExactly 2 (3 : UInt32).toNat := by
    rintro ((h | h) | h) <;> revert h <;> decide
  constructor
  · refine (leakyBucket_withinRate_iff 2 (by decide) (by decide)).2 (.inr ?_)
    rw [hexcess]
    decide
  · intro h
    rcases (leakyBucket_withinRate_iff 2 (by decide) (by decide)).1 h with h | h
    · exact hcut h
    · rw [hexcess] at h
      exact absurd h (by decide)

/-- **Four admissions where three are due.**  At 1500 a second a millisecond lets out one unit and a half.  A
bucket of two that is asked at 0, 0, 1 and 1 admits all four requests: the unit that leaks at 1 takes two
thirds of a millisecond, of which the leak books none, so that it leaks twice. -/
theorem leakyBucket_exceeds_rate :
    Steady "c1" 1500 (requests (Record.fresh ⟨"c1", .standard⟩ (.limited 1500) 0) [0, 0, 1, 1]) ∧
      (ofRule (.leakyBucket ⟨2⟩)).admitted
        (requests (Record.fresh ⟨"c1", .standard⟩ (.limited 1500) 0) [0, 0, 1, 1]) = 4 ∧
      ¬ 4 ≤ 2 + span [0, 0, 1, 1] * 1500 / 1000 := by
  refine ⟨?_, by decide, by decide⟩
  exact steady_requests (Record.fresh ⟨"c1", .standard⟩ (.limited 1500) 0) rfl (by decide)
    (by decide)

end Algorithm
end AdmissionControl
