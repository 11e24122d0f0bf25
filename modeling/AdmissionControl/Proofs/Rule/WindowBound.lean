import AdmissionControl.Proofs.Rule.Invariants

/-!
# How much a fixed window lets through

The windows of a client have no fixed places: one starts with the first request after the one before is over.  A
stretch of time as long as a window meets two of them at most, and if it meets two, then the first admission of the
earlier one was before it.

* `FixedWindow.Tallies` — the invariant: what a counter says about the full log of its client.
* `FixedWindow.invariant_tallies` — a decision keeps it, whether it opens a window, counts or denies.
* `Algorithm.fixedWindow_bounded` — **a stretch as long as a window holds fewer than twice as many admissions as the
  limit allows, and nobody is denied who has not had as many as the limit allows.**
-/

namespace AdmissionControl

namespace FixedWindow

variable {w : FixedWindow} {limit now later : Nat} {past : List Nat} {kept : Option Counter} {c : Counter}

/-- The sliding window of the same length. -/
def sliding (w : FixedWindow) : SlidingWindow := ⟨w.window, w.window_pos⟩

/-- The times in the stretch of the length of a window that begins at `first`. -/
def stretch (w : FixedWindow) (first : Nat) (times : List Nat) : List Nat :=
  times.filter fun t => first ≤ t ∧ t < first + w.window

theorem stretch_eq_within (w : FixedWindow) (first : Nat) (times : List Nat) :
    w.stretch first times = w.sliding.within (first + w.window - 1) times := by
  have hpos := w.window_pos
  have hlength : w.sliding.window = w.window := rfl
  rw [stretch, SlidingWindow.within]
  refine List.filter_congr fun t _ => decide_eq_decide.2 ?_
  omega

/-- A request that finds room in a running window is counted. -/
theorem decide_of_open (hc : c.count ≤ Policy.maxRate) (hopen : now - c.start < w.window) (hroom : c.count < limit) :
    w.decide limit now (some c) = (.allowed, ⟨c.count + 1, c.start⟩) := by
  have hover : w.isOver c now = false := decide_eq_false (Nat.not_le.2 hopen)
  have hcount : c.increment = ⟨c.count + 1, c.start⟩ :=
    congrArg (fun n => (⟨n, c.start⟩ : Counter)) (count_increment hc)
  unfold FixedWindow.decide
  simp only [Option.getD_some, hover, Bool.false_eq_true, if_false, hcount]
  exact if_pos hroom

/-! ## The counter and the full log -/

/-- A counter stands for the admissions `c.start :: rest`, which came after those in `old`. -/
structure Tally (w : FixedWindow) (limit : Nat) (c : Counter) (old rest : List Nat) : Prop where
  /-- They are counted. -/
  count_eq : c.count = rest.length + 1
  /-- There are no more of them than the limit allows. -/
  count_le : c.count ≤ limit
  /-- The old ones came before the window. -/
  before : ∀ t ∈ old, t ≤ c.start
  /-- The others are not older than the window. -/
  since : ∀ t ∈ rest, c.start ≤ t
  /-- Fewer of the old ones than the limit allows are still in the window that ends where this one starts. -/
  few : (w.sliding.within c.start old).length < limit

/-- What is kept of a client says about its full log. -/
structure Tallies (w : FixedWindow) (limit now : Nat) (past : List Nat) (kept : Option Counter) : Prop where
  /-- Nothing in the log is later than `now`. -/
  recent : ∀ t ∈ past, t ≤ now
  /-- No stretch as long as a window holds twice as many admissions as the limit allows. -/
  bounded : ∀ t, (w.sliding.within t past).length < 2 * limit
  /-- Without a counter there are no admissions. -/
  nothing : kept = none → past = []
  /-- A counter stands for the last of them. -/
  counted : ∀ c ∈ kept, ∃ old rest, past = old ++ c.start :: rest ∧ w.Tally limit c old rest

namespace Tallies

theorem nil (w : FixedWindow) (hlimit : 0 < limit) (now : Nat) : w.Tallies limit now [] none := by
  refine ⟨by simp, fun t => ?_, fun _ => rfl, by simp⟩
  exact Nat.mul_pos Nat.two_pos hlimit

theorem mono (h : w.Tallies limit now past kept) (hle : now ≤ later) : w.Tallies limit later past kept :=
  ⟨fun t ht => Nat.le_trans (h.recent t ht) hle, h.bounded, h.nothing, h.counted⟩

/-- One more admission is in the stretches that end at it or later only. -/
theorem bounded_snoc (h : w.Tallies limit now past kept)
    (hlate : ∀ t, now ≤ t → (w.sliding.within t (past ++ [now])).length < 2 * limit) (t : Nat) :
    (w.sliding.within t (past ++ [now])).length < 2 * limit := by
  by_cases hnow : now ≤ t
  · exact hlate t hnow
  · have hnone : w.sliding.within t [now] = [] :=
      List.filter_eq_nil_iff.2 fun x hx => by simp [List.mem_singleton.1 hx, hnow]
    rw [SlidingWindow.within_append, hnone, List.append_nil]
    exact h.bounded t

/-- When a window is over, its first admission has left the window that ends now. -/
theorem few_of_over (h : w.Tallies limit now past kept) (hlimit : 0 < limit)
    (hover : ∀ c ∈ kept, w.window ≤ now - c.start) : (w.sliding.within now past).length < limit := by
  cases kept with
  | none =>
      rw [h.nothing rfl]
      exact hlimit
  | some c =>
      obtain ⟨old, rest, rfl, htally⟩ := h.counted c rfl
      have hleft : ∀ t ∈ old ++ [c.start], t + w.sliding.window ≤ now := by
        have hlength : w.sliding.window = w.window := rfl
        have hpos := w.window_pos
        have hpassed := hover c rfl
        intro t ht
        have hstart : t ≤ c.start := by
          rcases List.mem_append.1 ht with ht | ht
          · exact htally.before t ht
          · exact Nat.le_of_eq (List.mem_singleton.1 ht)
        omega
      have hrest : (w.sliding.within now rest).length ≤ rest.length := List.length_filter_le ..
      have hcount := htally.count_eq
      have hle := htally.count_le
      rw [List.append_cons, SlidingWindow.within_append, SlidingWindow.within_of_left hleft, List.nil_append]
      omega

/-- A request after the window is over opens the next one. -/
theorem opens (h : w.Tallies limit now past kept) (hlimit : 0 < limit)
    (hover : ∀ c ∈ kept, w.window ≤ now - c.start) : w.Tallies limit now (past ++ [now]) (some ⟨1, now⟩) := by
  have hfew := h.few_of_over hlimit hover
  refine ⟨recent_snoc h.recent, h.bounded_snoc fun t hnow => ?_, by simp, ?_⟩
  · have hmono := SlidingWindow.length_within_mono (w := w.sliding) h.recent hnow
    have hone : (w.sliding.within t [now]).length ≤ 1 := List.length_filter_le ..
    rw [SlidingWindow.within_append, List.length_append]
    omega
  · rintro c ⟨⟩
    exact ⟨past, [], rfl, rfl, hlimit, h.recent, by simp, hfew⟩

/-- A request that finds room in the window is one more of its admissions. -/
theorem counts (h : w.Tallies limit now past (some c)) (hroom : c.count < limit) :
    w.Tallies limit now (past ++ [now]) (some ⟨c.count + 1, c.start⟩) := by
  obtain ⟨old, rest, hpast, htally⟩ := h.counted c rfl
  have hstart : c.start ≤ now := h.recent c.start (hpast ▸ List.mem_append_right old List.mem_cons_self)
  have hcount := htally.count_eq
  have hsnoc : past ++ [now] = old ++ c.start :: (rest ++ [now]) := by
    rw [hpast, List.append_assoc, List.cons_append]
  refine ⟨recent_snoc h.recent, h.bounded_snoc fun t hnow => ?_, by simp, ?_⟩
  · have hfew := htally.few
    have hold := SlidingWindow.length_within_mono (w := w.sliding) htally.before (Nat.le_trans hstart hnow)
    have hnew : (w.sliding.within t (c.start :: (rest ++ [now]))).length ≤ (c.start :: (rest ++ [now])).length :=
      List.length_filter_le ..
    rw [List.length_cons, List.length_append, List.length_singleton] at hnew
    rw [hsnoc, SlidingWindow.within_append, List.length_append]
    omega
  · rintro c' ⟨⟩
    refine ⟨old, rest ++ [now], hsnoc, by simp [hcount], hroom, htally.before, fun t ht => ?_, htally.few⟩
    rcases List.mem_append.1 ht with ht | ht
    · exact htally.since t ht
    · rw [List.mem_singleton.1 ht]
      exact hstart

/-- A full window that is not over holds as many admissions as the limit allows, all of them in the window that ends
now. -/
theorem le_length_within (h : w.Tallies limit now past (some c)) (hopen : now - c.start < w.window)
    (hfull : limit ≤ c.count) : limit ≤ (w.sliding.within now past).length := by
  obtain ⟨old, rest, rfl, htally⟩ := h.counted c rfl
  have hall : w.sliding.within now (c.start :: rest) = c.start :: rest := by
    have hlength : w.sliding.window = w.window := rfl
    refine SlidingWindow.within_eq_self fun t ht => ?_
    have hrecent := h.recent t (List.mem_append_right old ht)
    have hstart : c.start ≤ t := by
      rcases List.mem_cons.1 ht with rfl | ht
      · exact Nat.le_refl _
      · exact htally.since t ht
    omega
  have hcount := htally.count_eq
  have hlast : (w.sliding.within now (c.start :: rest)).length ≤
      (w.sliding.within now (old ++ c.start :: rest)).length := SlidingWindow.length_within_le_append ..
  rw [hall, List.length_cons] at hlast
  omega

end Tallies

/-- Every decision under the limit keeps the tallies: it opens a window, or counts in it, or denies. -/
theorem invariant_tallies (w : FixedWindow) (hlimit : 0 < limit) (hmax : limit ≤ Policy.maxRate) :
    Rule.Invariant w.decide (· = limit) fun now past kept => w.Tallies limit now past kept where
  start := .nil w hlimit
  later h hle := h.mono hle
  decides := by
    rintro limit now past kept rfl h
    by_cases hover : ∀ c ∈ kept, w.window ≤ now - c.start
    · rw [decide_of_over hlimit hover]
      exact h.opens hlimit hover
    · obtain ⟨c, rfl, hopen⟩ : ∃ c, kept = some c ∧ now - c.start < w.window := by
        simpa using hover
      obtain ⟨old, rest, -, htally⟩ := h.counted c rfl
      have hcount : c.count ≤ Policy.maxRate := Nat.le_trans htally.count_le hmax
      by_cases hroom : c.count < limit
      · rw [decide_of_open hcount hopen hroom]
        exact h.counts hroom
      · rw [decide_of_full hcount hopen (Nat.not_lt.1 hroom)]
        exact h

/-- Who is denied has had as many admissions in the window that ends now as the limit allows. -/
theorem Tallies.le_length_within_of_denied (h : w.Tallies limit now past kept) (hlimit : 0 < limit)
    (hmax : limit ≤ Policy.maxRate) (hdenied : (w.decide limit now kept).1.isAllowed = false) :
    limit ≤ (w.sliding.within now past).length := by
  by_cases hover : ∀ c ∈ kept, w.window ≤ now - c.start
  · rw [decide_of_over hlimit hover] at hdenied
    exact absurd hdenied (by simp)
  · obtain ⟨c, rfl, hopen⟩ : ∃ c, kept = some c ∧ now - c.start < w.window := by
      simpa using hover
    refine h.le_length_within hopen (Nat.not_lt.1 fun hroom => ?_)
    obtain ⟨old, rest, -, htally⟩ := h.counted c rfl
    rw [decide_of_open (Nat.le_trans htally.count_le hmax) hopen hroom] at hdenied
    exact absurd hdenied (by simp)

end FixedWindow

/-! ## After every run -/

namespace Algorithm

variable {w : FixedWindow} {client : String} {rate : UInt32} {calls : List Call} {now : Nat}

/-- After a run under one limit, the counter of the client says about its full log. -/
theorem tallies_run (hrate : 1 ≤ rate.toNat) (hlimit : UnderLimit client rate calls)
    (hforward : (times calls ++ [now]).Pairwise (· ≤ ·)) {table : Table String FixedWindow.Counter}
    (hrun : (ofRule (.fixedWindow w)).run calls = ⟨.fixedWindow w, table⟩) :
    w.Tallies rate.toNat now ((ofRule (.fixedWindow w)).admittedSince client [] calls) (table.get? client) :=
  (w.invariant_tallies hrate (Nat.le_of_lt_succ rate.toNat_lt)).of_run hrun (fun _ _ _ => rfl) hlimit.asksAt hforward

/-- **A fixed window is bounded on both sides.**  Whatever else happens in a run of a clock that does not go back, a
client that asks under one limit and is not evicted gets fewer than twice as many admissions as the limit allows in
any stretch as long as a window, wherever it begins; and it is denied only if it has had as many as the limit allows
in the window that ends then. -/
theorem fixedWindow_bounded (w : FixedWindow) (client : String) (rate : UInt32) (hrate : 1 ≤ rate.toNat)
    (calls : List Call) (hforward : (times calls).Pairwise (· ≤ ·)) (hlimit : UnderLimit client rate calls) :
    (∀ first, (w.stretch first ((ofRule (.fixedWindow w)).admittedSince client [] calls)).length <
        2 * rate.toNat) ∧
      ∀ early record now late, calls = early ++ .decide record now :: late → record.client.id = client →
        (((ofRule (.fixedWindow w)).run early).decide record now).1.isAllowed = false →
          rate.toNat ≤ (((ofRule (.fixedWindow w)).admittedSince client [] early).filter fun t =>
            t ≤ now ∧ now < t + w.window).length := by
  constructor
  · intro first
    have hafter : (times calls ++ [(times calls).max?.getD 0]).Pairwise (· ≤ ·) := by
      refine List.pairwise_append.2 ⟨hforward, List.pairwise_singleton .., fun t ht t' ht' => ?_⟩
      rw [List.mem_singleton.1 ht']
      exact List.le_max?_getD_of_mem ht
    obtain ⟨table, hrun⟩ := exists_run_eq (.fixedWindow w) calls
    rw [FixedWindow.stretch_eq_within]
    exact (tallies_run hrate hlimit hafter hrun).bounded _
  · rintro early record now late rfl rfl hdenied
    have hunder : UnderLimit record.client.id rate early := fun call hcall =>
      hlimit call (List.mem_append_left _ hcall)
    obtain ⟨record', now', hcall, hpolicy⟩ := hlimit _ (List.mem_append_right early List.mem_cons_self) rfl
    obtain ⟨rfl, rfl⟩ := Call.decide.inj hcall
    obtain ⟨table, hrun⟩ := exists_run_eq (.fixedWindow w) early
    rw [hrun, decide_metered (.fixedWindow w) w.decide (fun _ _ _ => rfl) hpolicy] at hdenied
    exact (tallies_run hrate hunder (forward_until hforward) hrun).le_length_within_of_denied hrate
      (Nat.le_of_lt_succ rate.toNat_lt) hdenied

/-- Two visits in ten milliseconds: windows start at 0 and at 10, and the stretch from 9 on meets both of them.  It
holds three admissions, one less than two windows; the second visit at 9 is denied after two. -/
theorem fixedWindow_bounded_at_turn :
    (ofRule (.fixedWindow (.ofMillis 10))).admittedSince "c1" []
        (requests (.fresh ⟨"c1", .standard⟩ (.limited 2) 0) [0, 9, 9, 10, 11]) = [0, 9, 10, 11] ∧
      ((FixedWindow.ofMillis 10).stretch 9 ((ofRule (.fixedWindow (.ofMillis 10))).admittedSince "c1" []
        (requests (.fresh ⟨"c1", .standard⟩ (.limited 2) 0) [0, 9, 9, 10, 11]))).length < 2 * 2 ∧
      2 ≤ (((ofRule (.fixedWindow (.ofMillis 10))).admittedSince "c1" []
        (requests (.fresh ⟨"c1", .standard⟩ (.limited 2) 0) [0, 9])).filter fun t => t ≤ 9 ∧ 9 < t + 10).length := by
  have hlimit : UnderLimit "c1" 2 (requests (.fresh ⟨"c1", .standard⟩ (.limited 2) 0) [0, 9, 9, 10, 11]) := by
    intro call hcall _
    obtain ⟨t, -, rfl⟩ := List.mem_map.1 hcall
    exact ⟨_, t, rfl, rfl⟩
  obtain ⟨hstretches, hdenials⟩ := fixedWindow_bounded (.ofMillis 10) "c1" 2 (by decide)
    (requests (.fresh ⟨"c1", .standard⟩ (.limited 2) 0) [0, 9, 9, 10, 11]) (by decide) hlimit
  refine ⟨by decide, hstretches 9, ?_⟩
  exact hdenials (requests (.fresh ⟨"c1", .standard⟩ (.limited 2) 0) [0, 9]) _ 9
    (requests (.fresh ⟨"c1", .standard⟩ (.limited 2) 0) [10, 11]) rfl rfl (by decide)

end Algorithm
end AdmissionControl
