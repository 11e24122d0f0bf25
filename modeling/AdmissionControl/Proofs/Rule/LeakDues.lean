import AdmissionControl.Proofs.Rule.Invariants
import AdmissionControl.Proofs.Rule.LeakHints
import AdmissionControl.Proofs.Rule.LeakRate

/-!
# A leaky bucket denies bursts only

A bucket that has run dry leaks afresh, so the time since the first request of a client says little about what
has leaked: a client that comes after a break gets nothing for it.  What counts is the time since the bucket was
last dry.  The admission that found it so begins a `Burst`, and from there on every admission is a unit in the
bucket, or one that has leaked.

* `Burst` — the admissions since the bucket was last dry, and what has leaked of them.
* `Burst.due_le_length` — **a full bucket comes from a burst** that is as large as the capacity and what leaks in its
  time.
* `invariant_inBurst` — a decision goes on with the burst of its client or begins another one.
* `Algorithm.leakyBucket_denies_bursts` — so does a denial, after every run of a clock that does not go back.
-/

namespace AdmissionControl

namespace LeakyBucket

variable {r : LeakyBucket} {rate now start : Nat} {b : Bucket} {kept : Option Bucket} {burst past : List Nat}

/-! ## One decision -/

/-- A leak that leaves water moves the clock by no more than its units took. -/
theorem Bucket.drained_drain_le_add (hwet : b.projected now rate ≠ 0) :
    (b.drain now rate).drained ≤ b.drained + timeOf (leaked (now - b.drained) rate) rate := by
  have hlevel : b.level - leaked (now - b.drained) rate ≠ 0 := hwet
  simp only [drain, if_neg hlevel]
  split
  · apply Nat.le_trans (Word.saturate_le_self _)
    exact Nat.add_le_add_left (Word.saturate_le_self _) _
  · exact Nat.le_add_right ..

/-- A request that fits pours in its unit. -/
theorem decide_fills (hroom : b.projected now rate < r.capacity) :
    r.decide rate now (some b) = (.allowed, ⟨(b.drain now rate).level + 1, (b.drain now rate).drained⟩) := by
  rw [← Bucket.drain_level] at hroom
  simp [LeakyBucket.decide, Bucket.fill, hroom]

theorem decide_none_eq (hcapacity : 0 < r.capacity) : r.decide rate now none = (.allowed, ⟨1, now⟩) := by
  have hdry : r.decide rate now (some (Bucket.fresh now)) = (.allowed, ⟨1, max now now⟩) :=
    decide_of_dry hcapacity (Nat.zero_le _)
  rw [Nat.max_self] at hdry
  exact hdry

/-! ## Bursts -/

/-- The admissions `burst` came since the bucket was dry at `start`.  They are in the bucket or have leaked, and those
that have leaked are worth the time up to which the bucket has leaked since then. -/
structure Burst (rate : Nat) (b : Bucket) (start : Nat) (burst : List Nat) : Prop where
  /-- None of them came before. -/
  since : ∀ t ∈ burst, start ≤ t
  /-- There is no other water in the bucket. -/
  level_le : b.level ≤ burst.length
  /-- No time is lost in leaks. -/
  covered : Covered (max rate 1) 1000 start (burst.length - b.level) b.drained

namespace Burst

/-- A request that finds the bucket dry begins a burst. -/
theorem opening (rate now : Nat) : Burst rate ⟨1, now⟩ now [now] :=
  ⟨by simp, Nat.le_refl 1, Covered.opening (max rate 1) 1000 now⟩

/-- A leak that does not run the bucket dry does not end the burst. -/
theorem drain (h : Burst rate b start burst) (hwet : b.projected now rate ≠ 0) :
    Burst rate (b.drain now rate) start burst := by
  have hlevel := h.level_le
  have hcovered := h.covered.book (Nat.div_mul_le_self ..) (Bucket.drained_drain_le_add hwet)
  have hprojected : b.projected now rate = b.level - leaked (now - b.drained) rate := rfl
  have hleaked : burst.length - b.projected now rate =
      burst.length - b.level + leaked (now - b.drained) rate := by omega
  refine ⟨h.since, ?_, ?_⟩
  · rw [Bucket.drain_level]
    omega
  · rw [Bucket.drain_level, hleaked]
    exact hcovered

/-- One more admission is one more unit in the bucket. -/
theorem fill (h : Burst rate b start burst) (hnow : start ≤ now) :
    Burst rate ⟨b.level + 1, b.drained⟩ start (burst ++ [now]) := by
  have hlength : (burst ++ [now]).length = burst.length + 1 := by simp
  refine ⟨fun t ht => ?_, ?_, ?_⟩
  · rcases List.mem_append.1 ht with ht | ht
    · exact h.since t ht
    · exact (List.mem_singleton.1 ht).symm ▸ hnow
  · rw [hlength]
    exact Nat.succ_le_succ h.level_le
  · rw [hlength, Nat.add_sub_add_right]
    exact h.covered

/-- **A bucket that is full comes from a burst** of as many admissions as it holds and as have leaked by then. -/
theorem due_le_length (h : Burst rate b start burst) (hcapacity : 0 < r.capacity)
    (hfull : r.capacity ≤ b.projected now rate) :
    r.capacity + (now - start) * rate / 1000 ≤ burst.length := by
  have hlevel := h.level_le
  have hprojected : b.projected now rate = b.level - leaked (now - b.drained) rate := rfl
  have hdue : (now - start) * max rate 1 / 1000 ≤ burst.length - b.level + leaked (now - b.drained) rate :=
    h.covered.due_le (by decide) now
  have hrate : (now - start) * rate / 1000 ≤ (now - start) * max rate 1 / 1000 :=
    Nat.div_le_div_right (Nat.mul_le_mul_left _ (Nat.le_max_left ..))
  omega

end Burst

/-! ## The burst that a client is in -/

/-- The last admissions of a client are those of a burst, which its bucket stands for. -/
structure InBurst (rate now : Nat) (past : List Nat) (kept : Option Bucket) : Prop where
  /-- Nothing in the log is later than `now`. -/
  recent : ∀ t ∈ past, t ≤ now
  /-- The bucket has leaked until `now` at the latest. -/
  drained_le : ∀ b ∈ kept, b.drained ≤ now
  /-- The burst is at the end of the log, and its first admission came when it began. -/
  burst : ∀ b ∈ kept, ∃ old start rest, past = old ++ start :: rest ∧ Burst rate b start (start :: rest)

namespace InBurst

/-- A request that finds the bucket dry begins another burst. -/
theorem begins (h : InBurst rate now past kept) : InBurst rate now (past ++ [now]) (some ⟨1, now⟩) where
  recent := recent_snoc h.recent
  drained_le := by simp
  burst := by
    rintro b ⟨⟩
    exact ⟨past, now, [], rfl, Burst.opening rate now⟩

/-- A leak that leaves water leaves the client in its burst. -/
theorem drain (h : InBurst rate now past (some b)) (hwet : b.projected now rate ≠ 0) :
    InBurst rate now past (some (b.drain now rate)) where
  recent := h.recent
  drained_le := by
    rintro b' ⟨⟩
    exact drained_drain_le (h.drained_le b rfl) (Nat.le_refl now)
  burst := by
    rintro b' ⟨⟩
    obtain ⟨old, start, rest, rfl, hburst⟩ := h.burst b rfl
    exact ⟨old, start, rest, rfl, hburst.drain hwet⟩

/-- An admission goes on with the burst. -/
theorem fill (h : InBurst rate now past (some b)) :
    InBurst rate now (past ++ [now]) (some ⟨b.level + 1, b.drained⟩) where
  recent := recent_snoc h.recent
  drained_le := by
    rintro b' ⟨⟩
    exact h.drained_le b rfl
  burst := by
    rintro b' ⟨⟩
    obtain ⟨old, start, rest, rfl, hburst⟩ := h.burst b rfl
    have hstart : start ≤ now := h.recent start (by simp)
    exact ⟨old, start, rest ++ [now], by simp, hburst.fill hstart⟩

end InBurst

/-- **A decision keeps a client in its burst**, or begins another one. -/
theorem invariant_inBurst (r : LeakyBucket) (hcapacity : 0 < r.capacity) (rate : Nat) :
    Rule.Invariant r.decide (· = rate) (InBurst rate) where
  start := fun _ => ⟨by simp, by simp, by simp⟩
  later h hle :=
    ⟨fun t ht => Nat.le_trans (h.recent t ht) hle, fun b hb => Nat.le_trans (h.drained_le b hb) hle, h.burst⟩
  decides := by
    rintro rate now past kept rfl h
    cases kept with
    | none =>
        rw [decide_none_eq hcapacity]
        exact h.begins
    | some b =>
        rcases Nat.lt_or_ge (b.projected now rate) r.capacity with hroom | hfull
        · by_cases hdry : b.projected now rate = 0
          · have hnow : max now b.drained = now := Nat.max_eq_left (h.drained_le b rfl)
            rw [decide_of_dry hcapacity (Nat.le_of_sub_eq_zero hdry), hnow]
            exact h.begins
          · rw [decide_fills hroom]
            exact (h.drain hdry).fill
        · rw [decide_of_full hfull]
          exact h.drain (Nat.ne_of_gt (Nat.lt_of_lt_of_le hcapacity hfull))

end LeakyBucket

/-! ## After every run -/

namespace Algorithm

/-- **A leaky bucket stays in range and denies bursts only.**  Whatever the calls are, no bucket holds more than its
capacity.  If the clock does not go back and a client asks at one rate, then a denial of it comes after a burst: since
some admission, or the denied request itself, it was admitted as often as the capacity and what leaks in that time
allow. -/
theorem leakyBucket_denies_bursts (r : LeakyBucket) :
    (∀ calls, ∃ table, (ofRule (.leakyBucket r)).run calls = ⟨.leakyBucket r, table⟩ ∧
      ∀ client, ∀ b ∈ table.get? client, b.level ≤ r.capacity) ∧
    ∀ (calls : List Call) (record : Record) (rate : UInt32) (now : Nat),
      (times calls ++ [now]).Pairwise (· ≤ ·) → record.policy = .limited rate →
      AsksAt record.client.id (· = rate.toNat) calls →
      (((ofRule (.leakyBucket r)).run calls).decide record now).1.isAllowed = false →
      ∃ start ∈ now :: (ofRule (.leakyBucket r)).admittedSince record.client.id [] calls, start ≤ now ∧
        r.capacity + (now - start) * rate.toNat / 1000 ≤
          (((ofRule (.leakyBucket r)).admittedSince record.client.id [] calls).filter
            fun t => start ≤ t ∧ t ≤ now).length := by
  constructor
  · intro calls
    obtain ⟨table, hrun⟩ := exists_run_eq (.leakyBucket r) calls
    refine ⟨table, hrun, fun client => ?_⟩
    have hsound := sound_run (sound_ofRule (.leakyBucket r)) calls client
    rw [hrun] at hsound
    exact hsound
  · intro calls record rate now hforward hpolicy hrates hdenied
    generalize hpast : (ofRule (.leakyBucket r)).admittedSince record.client.id [] calls = past
    rcases Nat.eq_zero_or_pos r.capacity with hnone | hcapacity
    · exact ⟨now, List.mem_cons_self, Nat.le_refl now, by simp [hnone]⟩
    · obtain ⟨table, hrun⟩ := exists_run_eq (.leakyBucket r) calls
      have hin := (r.invariant_inBurst hcapacity rate.toNat).of_run hrun (fun _ _ _ => rfl) hrates hforward
      rw [hpast] at hin
      rw [hrun, decide_leakyBucket hpolicy] at hdenied
      cases hkept : table.get? record.client.id with
      | none =>
          rw [hkept, LeakyBucket.decide_none_eq hcapacity] at hdenied
          cases hdenied
      | some b =>
          rw [hkept] at hin hdenied
          obtain ⟨old, start, rest, rfl, hburst⟩ := hin.burst b rfl
          have hfull : r.capacity ≤ b.projected now rate.toNat := by
            by_contra hroom
            rw [LeakyBucket.decide_fills (Nat.not_le.1 hroom)] at hdenied
            cases hdenied
          refine ⟨start, by simp, hin.recent start (by simp), ?_⟩
          -- the burst is in the stretch of time as a whole
          have hall : (start :: rest).filter (fun t => start ≤ t ∧ t ≤ now) = start :: rest := by
            refine List.filter_eq_self.2 fun t ht => decide_eq_true ?_
            exact ⟨hburst.since t ht, hin.recent t (List.mem_append_right old ht)⟩
          calc r.capacity + (now - start) * rate.toNat / 1000
              ≤ (start :: rest).length := hburst.due_le_length hcapacity hfull
            _ ≤ ((old ++ start :: rest).filter fun t => start ≤ t ∧ t ≤ now).length := by
                rw [List.filter_append, hall, List.length_append]
                exact Nat.le_add_left ..

/-- Three units a second for a bucket of two, which has run dry by 5000.  The denial at 5500 comes after three
admissions since then: one of the units has leaked. -/
theorem leakyBucket_bursts_at_5500 :
    (((ofRule (.leakyBucket ⟨2⟩)).run
        (requests (.fresh ⟨"c1", .standard⟩ (.limited 3) 0) [0, 5000, 5000, 5400])).decide
          (.fresh ⟨"c1", .standard⟩ (.limited 3) 0) 5500).1.isAllowed = false ∧
      ∃ start ∈ [5500, 0, 5000, 5000, 5400], start ≤ 5500 ∧
        2 + (5500 - start) * 3 / 1000 ≤
          (List.filter (fun t => start ≤ t ∧ t ≤ 5500) [0, 5000, 5000, 5400]).length := by
  refine ⟨by decide, ?_⟩
  have hrates : AsksAt "c1" (· = UInt32.toNat 3)
      (requests (.fresh ⟨"c1", .standard⟩ (.limited 3) 0) [0, 5000, 5000, 5400]) :=
    asksAt_requests rfl (by rfl) "c1" _
  exact (leakyBucket_denies_bursts ⟨2⟩).2 (requests (.fresh ⟨"c1", .standard⟩ (.limited 3) 0) [0, 5000, 5000, 5400])
    (.fresh ⟨"c1", .standard⟩ (.limited 3) 0) 3 5500 (by decide) rfl hrates (by decide)

end Algorithm
end AdmissionControl
