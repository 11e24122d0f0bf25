import Mathlib.Data.Nat.Init
import Mathlib.Tactic.Linarith
import Mathlib.Tactic.Ring
import AdmissionControl.Proofs.Rule.Calls

/-!
# Units that come in with time, and what rounding does to them

Two rules turn time into whole units: tokens come in, and water leaks, at `rate` units in each `window`.
Both remember the time up to which units have been booked, and move it, when they book some units, by the
time that these units took, *rounded down*.  What is cut off is not lost: it is counted again at the next
booking.  So over many bookings more units can be booked than the whole time brings.

A `Ledger` says how far this can go.  It holds for whatever is booked, call after call, and gives the bound
of a single booking over the whole time in two cases:

* no booking is cut (`exact`);
* the time is short: before `firstExcess rate window` the cuts have not added up to a unit.

`Ledger.credited_le` is that bound; `Ledger.book` is the step that carries it through a run.  Beyond it
`greedyTimes` are the times of a run that uses every cut.  `Algorithm.WithinRate` states the bound for the
admissions of an algorithm.

The bound from below has no exceptions: rounding down only ever counts time twice.  `Covered` says that the
units are worth the time up to which they are booked, and `Covered.due_le` that no time is lost.
-/

namespace AdmissionControl

/-- The time after which rounding can have brought one unit too many.  A booking of a single unit gives away
`window % rate` parts of a millisecond, so that many bookings give away a whole one. -/
def firstExcess (rate window : Nat) : Nat :=
  (rate / (window % rate) + 1) * (window / rate) + 1

/-- The rate and the window divide one another, so that the units of any time take whole
milliseconds. -/
def Aligned (rate window : Nat) : Prop := rate ∣ window ∨ window ∣ rate

theorem Aligned.dvd_mul {rate window : Nat} (h : Aligned rate window) (elapsed : Nat) :
    rate ∣ elapsed * rate / window * window := by
  rcases h with h | h
  · exact Dvd.dvd.mul_left h _
  · rw [Nat.div_mul_cancel (Dvd.dvd.mul_left h elapsed)]
    exact Nat.dvd_mul_left rate elapsed

theorem Aligned.of_mod_eq_zero {rate window : Nat} (h : window % rate = 0) :
    Aligned rate window :=
  .inl (Nat.dvd_of_mod_eq_zero h)

theorem mod_pos_of_not_aligned {rate window : Nat} (h : ¬ Aligned rate window) :
    0 < window % rate :=
  Nat.pos_of_ne_zero fun hm => h (.of_mod_eq_zero hm)

theorem pos_of_not_aligned {rate window : Nat} (h : ¬ Aligned rate window) : 0 < rate := by
  refine Nat.pos_of_ne_zero ?_
  rintro rfl
  exact h (.inr (Nat.dvd_zero _))

/-- What is known of the units that have come in from `start` until `now`, when units are booked up to
`booked`; `exact` says that no booking cuts time off. -/
structure Ledger (rate window : Nat) (exact : Prop) (start credited booked now : Nat) : Prop where
  /-- Nothing is booked ahead of time. -/
  booked_le : booked ≤ now
  /-- Each unit was booked with at least the whole milliseconds of its time. -/
  start_add_le : start + credited * (window / rate) ≤ booked
  /-- A unit that takes a fraction of a millisecond has come in only when that millisecond was over. -/
  lt_now : 0 < window % rate → 0 < credited → start + credited * (window / rate) < now
  /-- Where nothing is cut off, the booked time pays for the units. -/
  paid : exact → credited * window ≤ (booked - start) * rate

namespace Ledger

variable {rate window start credited booked now : Nat} {exact : Prop}

theorem opening (rate window : Nat) (exact : Prop) (start : Nat) :
    Ledger rate window exact start 0 start start :=
  ⟨Nat.le_refl _, by simp, fun _ h => absurd h (Nat.lt_irrefl 0), fun _ => by simp⟩

/-- Units that have come in within `elapsed` took no longer, as they are booked. -/
theorem took_le {units elapsed : Nat} (hcame : units * window ≤ elapsed * rate) :
    units * window / rate ≤ elapsed := by
  refine Nat.div_le_of_le_mul ?_
  rw [Nat.mul_comm rate]
  exact hcame

theorem mul_div_lt {units elapsed : Nat} (hm : 0 < window % rate) (hunits : 0 < units)
    (hcame : units * window ≤ elapsed * rate) : units * (window / rate) < elapsed := by
  have hsplit : units * window = units * (window / rate) * rate + units * (window % rate) := by
    conv_lhs => rw [← Nat.div_add_mod window rate]
    ring
  have hpos : 0 < units * (window % rate) := Nat.mul_pos hunits hm
  exact Nat.lt_of_mul_lt_mul_right (a := rate) (by omega)

/-- **One booking.**  Units that have come in since the last booking are booked, and the time up to which
they are booked moves by at least the time that they took, rounded down. -/
theorem book (h : Ledger rate window exact start credited booked now) {later units upTo : Nat}
    (hlater : now ≤ later) (hcame : units * window ≤ (later - booked) * rate)
    (hupTo : booked + units * window / rate ≤ upTo) (hle : upTo ≤ later)
    (hexact : exact → units * window ≤ (upTo - booked) * rate) :
    Ledger rate window exact start (credited + units) upTo later := by
  have hwhole : units * (window / rate) ≤ units * window / rate := Nat.mul_div_le_mul_div_assoc ..
  have hstart := h.start_add_le
  refine ⟨hle, ?_, fun hm _ => ?_, fun he => ?_⟩
  · rw [Nat.add_mul]
    omega
  · rcases Nat.eq_zero_or_pos units with rfl | hunits
    · exact Nat.lt_of_lt_of_le (h.lt_now hm (by omega)) hlater
    · have hlt := mul_div_lt hm hunits hcame
      rw [Nat.add_mul]
      omega
  · have hsplit : upTo - start = (booked - start) + (upTo - booked) := by omega
    rw [Nat.add_mul, hsplit, Nat.add_mul]
    exact Nat.add_le_add (h.paid he) (hexact he)

/-- **No more comes in than the whole time brings**, if no booking is cut or the time is short. -/
theorem credited_mul_le (h : Ledger rate window exact start credited booked now)
    (hshort : exact ∨ now - start < firstExcess rate window) :
    credited * window ≤ (now - start) * rate := by
  have hstart := h.start_add_le
  have hbooked := h.booked_le
  rcases hshort with he | hshort
  · exact Nat.le_trans (h.paid he) (Nat.mul_le_mul_right rate (by omega))
  · have hsplit : credited * window =
        credited * (window / rate) * rate + credited * (window % rate) := by
      conv_lhs => rw [← Nat.div_add_mod window rate]
      ring
    rcases Nat.eq_zero_or_pos (window % rate) with hm | hm
    · -- every unit takes whole milliseconds
      rw [hsplit, hm, Nat.mul_zero, Nat.add_zero]
      exact Nat.mul_le_mul_right rate (by omega)
    · rcases Nat.eq_zero_or_pos credited with rfl | hc
      · simp
      · by_contra hexcess
        have hlt := h.lt_now hm hc
        have htime : (credited * (window / rate) + 1) * rate ≤ (now - start) * rate :=
          Nat.mul_le_mul_right rate (by omega)
        rw [Nat.add_mul, Nat.one_mul] at htime
        -- the cuts of all units add up to more than a millisecond
        have hcuts : rate < credited * (window % rate) := by omega
        have hmany : rate / (window % rate) + 1 ≤ credited :=
          (Nat.div_lt_iff_lt_mul hm).2 hcuts
        have hlong : firstExcess rate window ≤ credited * (window / rate) + 1 :=
          Nat.succ_le_succ (Nat.mul_le_mul_right (window / rate) hmany)
        omega

theorem credited_le (h : Ledger rate window exact start credited booked now) (hwindow : 0 < window)
    (hshort : exact ∨ now - start < firstExcess rate window) :
    credited ≤ (now - start) * rate / window :=
  (Nat.le_div_iff_mul_le hwindow).2 (h.credited_mul_le hshort)

end Ledger

/-! ## Nothing of the time is lost -/

/-- The units that were credited from `start` on are worth the time up to which they are booked. -/
def Covered (rate window start credited booked : Nat) : Prop :=
  (booked - start) * rate ≤ credited * window

namespace Covered

variable {rate window start credited booked : Nat}

theorem opening (rate window start : Nat) : Covered rate window start 0 start := by
  simp [Covered]

/-- **One booking loses nothing** if it moves the clock by no more than its units took. -/
theorem book (h : Covered rate window start credited booked) {units took upTo : Nat}
    (htook : took * rate ≤ units * window) (hupTo : upTo ≤ booked + took) :
    Covered rate window start (credited + units) upTo := by
  calc (upTo - start) * rate
      ≤ (booked - start + took) * rate := Nat.mul_le_mul_right rate (by omega)
    _ = (booked - start) * rate + took * rate := Nat.add_mul ..
    _ ≤ credited * window + units * window := Nat.add_le_add h htook
    _ = (credited + units) * window := (Nat.add_mul ..).symm

/-- **What the time since `start` brings** was credited, or comes in with the next booking. -/
theorem due_le (h : Covered rate window start credited booked) (hwindow : 0 < window) (now : Nat) :
    (now - start) * rate / window ≤ credited + (now - booked) * rate / window := by
  have htime : (now - start) * rate ≤ credited * window + (now - booked) * rate := by
    calc (now - start) * rate
        ≤ (booked - start + (now - booked)) * rate := Nat.mul_le_mul_right rate (by omega)
      _ = (booked - start) * rate + (now - booked) * rate := Nat.add_mul ..
      _ ≤ credited * window + (now - booked) * rate := Nat.add_le_add_right h _
  calc (now - start) * rate / window
      ≤ (credited * window + (now - booked) * rate) / window := Nat.div_le_div_right htime
    _ = credited + (now - booked) * rate / window := by
        rw [Nat.add_comm, Nat.add_mul_div_right _ _ hwindow, Nat.add_comm]

end Covered

/-! ## The run that gives away the most

A bucket that is asked again just when its next unit has come in books that unit alone each time, and loses
nothing of the time that is cut off.
-/

/-- The times of such a run: `crowd` requests at the very start, and then `units` requests, each in the
millisecond in which the next unit has come in. -/
def greedyTimes (rate window crowd units : Nat) : List Nat :=
  List.replicate crowd 0 ++ (List.range units).map fun k => (k + 1) * (window / rate) + 1

theorem greedyTimes_succ (rate window crowd units : Nat) :
    greedyTimes rate window crowd (units + 1) =
      greedyTimes rate window crowd units ++ [(units + 1) * (window / rate) + 1] := by
  simp only [greedyTimes, List.range_succ, List.map_append, List.map_cons, List.map_nil,
    List.append_assoc]

theorem greedyTimes_forward (rate window crowd units : Nat) :
    (greedyTimes rate window crowd units).Pairwise (· ≤ ·) := by
  refine List.pairwise_append.2 ⟨List.pairwise_replicate.2 (.inr (Nat.le_refl 0)), ?_, ?_⟩
  · refine List.pairwise_map.2 (List.pairwise_lt_range.imp fun {a b} hab => ?_)
    exact Nat.succ_le_succ (Nat.mul_le_mul_right _ (by omega))
  · intro a ha b _
    rw [List.eq_of_mem_replicate ha]
    exact Nat.zero_le b

theorem le_of_mem_greedyTimes {rate window crowd units now : Nat}
    (h : now ∈ greedyTimes rate window crowd units) : now ≤ units * (window / rate) + 1 := by
  rcases List.mem_append.1 h with h | h
  · rw [List.eq_of_mem_replicate h]
    exact Nat.zero_le _
  · obtain ⟨k, hk, rfl⟩ := List.mem_map.1 h
    exact Nat.succ_le_succ (Nat.mul_le_mul_right _ (List.mem_range.1 hk))

theorem span_greedyTimes (rate window crowd units : Nat) :
    span (greedyTimes rate window (crowd + 1) (units + 1)) =
      (units + 1) * (window / rate) + 1 := by
  have hhead : (greedyTimes rate window (crowd + 1) (units + 1)).head? = some 0 := by
    simp [greedyTimes, List.replicate_succ]
  have hlast : (greedyTimes rate window (crowd + 1) (units + 1)).getLast? =
      some ((units + 1) * (window / rate) + 1) := by
    rw [greedyTimes_succ, List.getLast?_append]
    rfl
  rw [span, hhead, hlast]
  rfl

/-- Between two of these requests `window / rate + 1` milliseconds pass.  They bring at least one unit, and
unless the rate and the window are aligned the units take only `window / rate` of them. -/
theorem greedy_units {rate window : Nat} (hwindow : 0 < window) (h : ¬ Aligned rate window) :
    0 < (window / rate + 1) * rate / window ∧
      (window / rate + 1) * rate / window * window / rate = window / rate ∧
      (window / rate + 1) * rate / window ≤ rate := by
  have hm := mod_pos_of_not_aligned h
  have hmod := Nat.mod_lt window (pos_of_not_aligned h)
  have hsplit := Nat.div_add_mod window rate
  set f := window / rate with hf
  set n := (f + 1) * rate / window with hn
  have hnle : n * window ≤ (f + 1) * rate := Nat.div_mul_le_self ..
  have hpos : 0 < n := Nat.div_pos (by rw [← hsplit]; nlinarith) hwindow
  refine ⟨hpos, ?_, ?_⟩
  · refine Nat.div_eq_of_lt_le ?_ (Nat.lt_of_le_of_ne hnle fun heq => ?_)
    · calc f * rate ≤ window := Nat.div_mul_le_self ..
        _ ≤ n * window := Nat.le_mul_of_pos_left window hpos
    · -- an exact fit would align the rate and the window
      rcases Nat.eq_zero_or_pos f with hzero | hfpos
      · exact h (.inr ⟨n, by rw [Nat.mul_comm]; simpa [hzero] using heq.symm⟩)
      · have hone : n = 1 := by
          by_contra hne
          have htwo : 2 * window ≤ n * window := Nat.mul_le_mul_right window (by omega)
          nlinarith
        rw [hone, Nat.one_mul] at heq
        exact h (.inl ⟨f + 1, by rw [heq, Nat.mul_comm]⟩)
  · refine Nat.div_le_of_le_mul (Nat.mul_le_mul_right rate ?_)
    rw [← hsplit]
    nlinarith

/-- As many units as `firstExcess` is about are more than that time brings. -/
theorem lt_units_of_firstExcess {rate window : Nat} (hwindow : 0 < window)
    (hm : 0 < window % rate) :
    firstExcess rate window * rate / window < rate / (window % rate) + 1 := by
  have hcuts : rate < (rate / (window % rate) + 1) * (window % rate) :=
    Nat.lt_mul_of_div_lt (Nat.lt_succ_self _) hm
  rw [Nat.div_lt_iff_lt_mul hwindow]
  calc firstExcess rate window * rate
      = (rate / (window % rate) + 1) * (window / rate) * rate + rate := by
        rw [firstExcess]; ring
    _ < (rate / (window % rate) + 1) * (window / rate) * rate
          + (rate / (window % rate) + 1) * (window % rate) := Nat.add_lt_add_left hcuts _
    _ = (rate / (window % rate) + 1) * (rate * (window / rate) + window % rate) := by ring
    _ = (rate / (window % rate) + 1) * window := by rw [Nat.div_add_mod]

/-! ## The bound on admissions -/

namespace Algorithm

/-- In runs of steady requests no longer than `horizon`, a client gets no more than `capacity` and what the
time since its first request brings at `rate` in each `window`. -/
def WithinRate (a : Algorithm) (capacity window : Nat) (rate : UInt32) (horizon : Nat) : Prop :=
  ∀ client calls, Steady client rate calls → span (times calls) ≤ horizon →
    a.admitted calls ≤ capacity + span (times calls) * rate.toNat / window

variable {capacity window horizon : Nat} {rate : UInt32} (rule : Rule)
  {d : Nat → Nat → Option rule.Kept → Verdict × rule.Kept}

theorem withinRate_of_admissions_le
    (hd : ∀ record now kept, rule.decide record now kept = Rule.meter (d · now) record kept)
    (h : ∀ times : List Nat, times.Pairwise (· ≤ ·) → (∀ now ∈ times, now ≤ Word.max) →
      span times ≤ horizon →
      admissions (d rate.toNat) times none ≤ capacity + span times * rate.toNat / window) :
    (ofRule rule).WithinRate capacity window rate horizon := by
  intro client calls hsteady hspan
  rw [ofRule, admitted_eq_admissions rule hd hsteady Table.empty]
  exact h (times calls) hsteady.forward hsteady.times_le hspan

/-- Within the bound, also the greedy run of `firstExcess` is, if there is time for it. -/
theorem WithinRate.admissions_greedy_le
    (h : (ofRule rule).WithinRate capacity window rate horizon)
    (hd : ∀ record now kept, rule.decide record now kept = Rule.meter (d · now) record kept)
    (hlast : firstExcess rate.toNat window ≤ horizon) (hhorizon : horizon ≤ Word.max)
    (crowd : Nat) :
    admissions (d rate.toNat) (greedyTimes rate.toNat window (crowd + 1)
        (rate.toNat / (window % rate.toNat) + 1)) none ≤
      capacity + firstExcess rate.toNat window * rate.toNat / window := by
  let ts := greedyTimes rate.toNat window (crowd + 1) (rate.toNat / (window % rate.toNat) + 1)
  let record := Record.fresh ⟨"c1", .standard⟩ (.limited rate) 0
  have hword : ∀ t ∈ ts, t ≤ Word.max := fun t ht =>
    Nat.le_trans (le_of_mem_greedyTimes ht) (Nat.le_trans hlast hhorizon)
  have hsteady : Steady record.client.id rate (requests record ts) :=
    steady_requests record rfl (greedyTimes_forward ..) hword
  have hspan : span (times (requests record ts)) = firstExcess rate.toNat window := by
    rw [times_requests]
    exact span_greedyTimes ..
  have hbound := h _ _ hsteady (by rw [hspan]; exact hlast)
  rw [ofRule, admitted_eq_admissions rule hd hsteady Table.empty, hspan, times_requests] at hbound
  exact hbound

end Algorithm
end AdmissionControl
