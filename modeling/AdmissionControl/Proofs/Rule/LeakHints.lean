import AdmissionControl.Proofs.Rule.Agreement
import AdmissionControl.Proofs.Rule.Hints

/-!
# A leaky bucket hints at a whole unit

A full bucket has room again as soon as one unit has leaked since the time up to which it is drained.  The hint of a
denial is the time of a whole unit from now on: it leaves out what has leaked of the unit already.

* `LeakyBucket.exists_of_denied` — what a denial finds: a full bucket of which no whole unit has leaked.
* `LeakyBucket.isAllowed_iff` — when such a bucket has room again.
* `Algorithm.leakyBucket_hint_covers` — **after every run the hint is long enough**, and too long by less than the time
  of a unit.
-/

namespace AdmissionControl

namespace LeakyBucket

variable {r : LeakyBucket} {rate now : Nat} {b : Bucket} {kept : Option Bucket} {hint : Duration}

theorem leaked_pos_iff {elapsed : Nat} : 0 < leaked elapsed rate ↔ unitTime (max rate 1) 1000 ≤ elapsed :=
  units_pos_iff (pos_max_one rate) (by decide)

/-- The hint of a bucket that is full, and not more than that, is the time of a unit. -/
theorem retryAfter_capacity (r : LeakyBucket) (rate : Nat) :
    r.retryAfter r.capacity rate = unitTime (max rate 1) 1000 := by
  have hone : Word.saturate (r.capacity - r.capacity + 1) = 1 := by
    rw [Nat.sub_self]
    rfl
  have hword : unitTime (max rate 1) 1000 ≤ Word.max :=
    Nat.le_trans (unitTime_le (pos_max_one rate)) (by decide)
  rw [retryAfter, hone, Nat.one_mul]
  exact Word.saturate_of_le hword

/-- A denial finds a full bucket of which no whole unit has leaked, and leaves it as it is. -/
theorem exists_of_denied (hcapacity : 0 < r.capacity) (hkept : ∀ b ∈ kept, b.level ≤ r.capacity)
    (h : (r.decide rate now kept).1 = .denied hint) :
    ∃ b, b.level = r.capacity ∧ kept = some b ∧ now - b.drained < unitTime (max rate 1) 1000 ∧
      hint = .ofMillis (unitTime (max rate 1) 1000) ∧ (r.decide rate now kept).2 = b := by
  have hfull : r.capacity ≤ levelAt kept now rate := by
    by_contra hroom
    rw [decide_of_room (Nat.not_le.1 hroom)] at h
    cases h
  cases kept with
  | none =>
      rw [levelAt_none] at hfull
      exact absurd hcapacity (Nat.not_lt.2 hfull)
  | some b =>
      have hlevel : b.level ≤ r.capacity := hkept b rfl
      have hprojected : levelAt (some b) now rate = b.level - leaked (now - b.drained) rate := rfl
      have hnone : leaked (now - b.drained) rate = 0 := by omega
      have hexact : levelAt (some b) now rate = r.capacity := by omega
      rw [decide_of_full hfull, hexact, retryAfter_capacity] at h
      have hpos := unitTime_pos (pos_max_one rate) (show 0 < 1000 by decide)
      refine ⟨b, by omega, rfl, ?_, Verdict.eq_ofMillis_of_denyMillis hpos h.symm, ?_⟩
      · by_contra hunit
        exact Nat.ne_of_gt (leaked_pos_iff.2 (Nat.not_lt.1 hunit)) hnone
      · rw [decide_of_full hfull]
        exact drain_of_full hcapacity hlevel hfull

/-- A full bucket has room as soon as one unit has leaked, and from then on. -/
theorem isAllowed_iff (hcapacity : 0 < r.capacity) (hfull : b.level = r.capacity) (rate now : Nat) :
    (r.decide rate now (some b)).1.isAllowed = true ↔ unitTime (max rate 1) 1000 ≤ now - b.drained := by
  rw [← leaked_pos_iff]
  have hlevel : levelAt (some b) now rate = r.capacity - leaked (now - b.drained) rate := by
    rw [← hfull]
    rfl
  by_cases hsome : 0 < leaked (now - b.drained) rate
  · rw [decide_of_room (by omega)]
    exact iff_of_true rfl hsome
  · rw [decide_of_full (by omega)]
    exact iff_of_false Bool.false_ne_true hsome

end LeakyBucket

namespace Algorithm

theorem decide_leakyBucket {r : LeakyBucket} {table : Table String LeakyBucket.Bucket} {record : Record}
    {rate : UInt32} (hpolicy : record.policy = .limited rate) (now : Nat) :
    (⟨.leakyBucket r, table⟩ : Algorithm).decide record now =
      (⟨(r.decide rate.toNat now (table.get? record.client.id)).1, record⟩,
        ⟨.leakyBucket r, table.put record.client.id
          (some (r.decide rate.toNat now (table.get? record.client.id)).2)⟩) :=
  decide_metered (.leakyBucket r) r.decide (fun _ _ _ => rfl) hpolicy now

/-- **The hint of a leaky bucket is long enough, and nearly exact.**  After any run of a clock that does not go back —
over any clients, under any rates, with evictions — a denied request is admitted when its hint is over.  There is a
wait from which on it is admitted, and before which it is not; the hint is no shorter, and longer by less than the
time in which one unit leaks. -/
theorem leakyBucket_hint_covers (r : LeakyBucket) (hcapacity : 1 ≤ r.capacity) (calls : List Call) (record : Record)
    (rate : UInt32) (hpolicy : record.policy = .limited rate) (hrate : 1 ≤ rate.toNat) (now : Nat) (hint : Duration)
    (hforward : (times calls ++ [now]).Pairwise (· ≤ ·))
    (hdenied : (((ofRule (.leakyBucket r)).run calls).decide record now).1.verdict = .denied hint) :
    hint = .ofMillis hint.millis ∧
      ((((ofRule (.leakyBucket r)).run calls).decide record now).2.decide record
        (now + hint.millis)).1.isAllowed = true ∧
      ∃ wait,
        (∀ later, ((((ofRule (.leakyBucket r)).run calls).decide record now).2.decide record
          (now + later)).1.isAllowed = true ↔ wait ≤ later) ∧
        wait ≤ hint.millis ∧ hint.millis < wait + unitTime rate.toNat 1000 := by
  obtain ⟨table, hrun⟩ := exists_run_eq (.leakyBucket r) calls
  have hrates : AsksAt record.client.id (fun _ => True) calls := fun _ _ _ _ _ _ => trivial
  have hkept := r.invariant_inRange.of_run hrun (fun _ _ _ => rfl) hrates hforward
  rw [hrun, decide_leakyBucket hpolicy] at hdenied
  obtain ⟨b, hfull, hsome, hearly, rfl, hafter⟩ :=
    LeakyBucket.exists_of_denied hcapacity (fun b hb => (hkept b hb).1) hdenied
  have hdrained : b.drained ≤ now := (hkept b hsome).2
  rw [Nat.max_eq_left hrate] at hearly
  have hadmitted : ∀ later, ((((ofRule (.leakyBucket r)).run calls).decide record now).2.decide record
      (now + later)).1.isAllowed = true ↔ unitTime rate.toNat 1000 - (now - b.drained) ≤ later := by
    intro later
    rw [hrun, decide_leakyBucket hpolicy, decide_leakyBucket hpolicy, Table.get?_put, if_pos rfl, hafter]
    have hiff := LeakyBucket.isAllowed_iff hcapacity hfull rate.toNat (now + later)
    rw [Nat.max_eq_left hrate] at hiff
    refine hiff.trans ?_
    omega
  rw [Nat.max_eq_left hrate, Duration.millis_ofMillis]
  refine ⟨rfl, (hadmitted _).2 (Nat.sub_le ..), _, hadmitted, Nat.sub_le .., ?_⟩
  omega

/-- A bucket of one unit, three of which leak a second: a client that is denied a millisecond before its unit has
leaked is told to wait for a whole one. -/
theorem leakyBucket_hint_at_333 :
    (((ofRule (.leakyBucket ⟨1⟩)).run (requests (.fresh ⟨"c1", .standard⟩ (.limited 3) 0) [0])).decide
        (.fresh ⟨"c1", .standard⟩ (.limited 3) 0) 333).1.verdict = .denied (.ofMillis 334) ∧
      ∃ wait,
        (∀ later, ((((ofRule (.leakyBucket ⟨1⟩)).run
          (requests (.fresh ⟨"c1", .standard⟩ (.limited 3) 0) [0])).decide
            (.fresh ⟨"c1", .standard⟩ (.limited 3) 0) 333).2.decide
              (.fresh ⟨"c1", .standard⟩ (.limited 3) 0) (333 + later)).1.isAllowed = true ↔ wait ≤ later) ∧
        wait ≤ 334 ∧ 334 < wait + 334 := by
  refine ⟨rfl, ?_⟩
  obtain ⟨-, -, hwait⟩ := leakyBucket_hint_covers ⟨1⟩ (Nat.le_refl 1)
    (requests (.fresh ⟨"c1", .standard⟩ (.limited 3) 0) [0]) (.fresh ⟨"c1", .standard⟩ (.limited 3) 0) 3 rfl
    (by decide) 333 (.ofMillis 334) (by decide) rfl
  exact hwait

end Algorithm
end AdmissionControl
