import AdmissionControl.Proofs.Rule.Hints

/-!
# Hints of a sliding window after a limit has changed

A client may have had a larger limit before, and then its log holds more entries than the present one allows.  The
hint tells when the first entry of the log leaves; the decision counts all of them.

* `Algorithm.slidingWindow_honoured_iff` — one denial: its hint is honoured if and only if the entries that are later
  than the first one leave room.
* `Algorithm.slidingWindow_honoursHints_iff` — **all denials**: they are honoured if and only if the client's limit was
  never larger, or a window takes a single millisecond.
* `Algorithm.slidingWindow_breaks_hint` — a client that was moved to a lower limit, turned away at the moment at which
  it was told to come back.
-/

namespace AdmissionControl

namespace SlidingWindow

variable {w : SlidingWindow}

/-- Times in one window of a millisecond are all the same. -/
theorem afterFirst_eq_nil (hwindow : w.window = 1) (now : Nat) (past : List Nat) : w.afterFirst now past = [] := by
  have hsame : ∀ t ∈ w.within now past, t = now := by
    intro t ht
    have hin := of_decide_eq_true (List.mem_filter.1 ht).2
    omega
  unfold afterFirst
  split
  · rfl
  · rename_i first rest hwithin
    rw [hwithin] at hsame
    refine List.filter_eq_nil_iff.2 fun t ht => ?_
    rw [hsame t (List.mem_cons_of_mem _ ht), hsame first List.mem_cons_self]
    simp

end SlidingWindow

namespace Algorithm

variable {w : SlidingWindow} {calls : List Call} {record : Record} {rate : UInt32} {now : Nat} {hint : Duration}

/-- **When a hint is honoured.**  A request that is denied under a limit is admitted when the hint is over if and only
if fewer admissions in the window than that are later than the first one. -/
theorem slidingWindow_honoured_iff (hrate : 1 ≤ rate.toNat) (hpolicy : record.policy = .limited rate)
    (hforward : (times calls ++ [now]).Pairwise (· ≤ ·))
    (hdenied : (((ofRule (.slidingWindow w)).run calls).decide record now).1.verdict = .denied hint) :
    ((((ofRule (.slidingWindow w)).run calls).decide record now).2.decide record
        (now + hint.millis)).1.isAllowed = true ↔
      (w.afterFirst now ((ofRule (.slidingWindow w)).admittedSince record.client.id [] calls)).length <
        rate.toNat := by
  obtain ⟨table, hrun, hsuffices⟩ := suffices_of_forward w record.client.id calls hforward
  rw [hrun, decide_slidingWindow hpolicy] at hdenied ⊢
  rw [decide_slidingWindow hpolicy, Table.get?_put, if_pos rfl]
  exact SlidingWindow.isAllowed_of_denied hsuffices hrate hdenied

/-- Whatever has happened to a client under limits of at most `most`, a denial under `rate` tells it a time at which
it is admitted. -/
def HonoursHints (w : SlidingWindow) (most rate : UInt32) : Prop :=
  ∀ (calls : List Call) (record : Record) (now : Nat) (hint : Duration), record.policy = .limited rate →
    (times calls ++ [now]).Pairwise (· ≤ ·) →
    AsksAt record.client.id (fun limit => 1 ≤ limit ∧ limit ≤ most.toNat) calls →
    (((ofRule (.slidingWindow w)).run calls).decide record now).1.verdict = .denied hint →
      ((((ofRule (.slidingWindow w)).run calls).decide record now).2.decide record
        (now + hint.millis)).1.isAllowed = true

theorem honoursHints_of_window_eq_one {most : UInt32} (hrate : 1 ≤ rate.toNat) (hwindow : w.window = 1) :
    HonoursHints w most rate := by
  intro calls record now hint hpolicy hforward _ hdenied
  rw [slidingWindow_honoured_iff hrate hpolicy hforward hdenied, SlidingWindow.afterFirst_eq_nil hwindow]
  exact hrate

theorem honoursHints_of_le {most : UInt32} (hrate : 1 ≤ rate.toNat) (hmost : most.toNat ≤ rate.toNat) :
    HonoursHints w most rate := by
  intro calls record now hint hpolicy hforward hlimits hdenied
  obtain ⟨table, hrun⟩ := exists_run_eq (.slidingWindow w) calls
  obtain ⟨hsuffices, hsize⟩ := (w.invariant_bounded rate.toNat).of_run hrun (fun _ _ _ => rfl)
    (fun record now hmem hclient limit hlimit =>
      Nat.le_trans (hlimits record now hmem hclient limit hlimit).2 hmost) hforward
  rw [hrun, decide_slidingWindow hpolicy] at hdenied ⊢
  obtain ⟨next, hadmitted⟩ := (SlidingWindow.exactHint hsuffices hrate hsize hdenied).admits
  rw [decide_slidingWindow hpolicy, Table.get?_put, if_pos rfl]
  exact congrArg (fun answer => answer.1.isAllowed) hadmitted

/-! ## A log that is too long -/

/-- A window with as many admissions as the limit allows turns a request away. -/
theorem slidingWindow_denied_of_full (hpolicy : record.policy = .limited rate)
    (hforward : (times calls ++ [now]).Pairwise (· ≤ ·))
    (hfull : rate.toNat ≤
      (w.within now ((ofRule (.slidingWindow w)).admittedSince record.client.id [] calls)).length) :
    ∃ hint, (((ofRule (.slidingWindow w)).run calls).decide record now).1.verdict = .denied hint := by
  have hiff := (suffices_of_forward w record.client.id calls hforward).isAllowed_decide hpolicy
  cases hverdict : (((ofRule (.slidingWindow w)).run calls).decide record now).1.verdict with
  | allowed =>
      have hroom := hiff.1 (by rw [Admission.isAllowed, hverdict]; rfl)
      exact absurd hroom (Nat.not_lt.2 hfull)
  | denied hint => exact ⟨hint, rfl⟩

/-- As many requests as a limit allows are all admitted. -/
theorem admittedSince_requests (w : SlidingWindow) (record : Record) (hpolicy : record.policy = .limited rate)
    {ts : List Nat} (hforward : ts.Pairwise (· ≤ ·)) (hfew : ts.length ≤ rate.toNat) :
    (ofRule (.slidingWindow w)).admittedSince record.client.id [] (requests record ts) = ts := by
  -- from the end: the last request finds the ones before it in the full log
  induction ts using List.reverseRecOn with
  | nil => rfl
  | append_singleton ts t ih =>
      rw [List.length_append, List.length_singleton] at hfew
      have hpast := ih (List.pairwise_append.1 hforward).1 (by omega)
      have hsuffices := suffices_of_forward w record.client.id (requests record ts)
        (by rw [times_requests]; exact hforward)
      rw [hpast] at hsuffices
      have hroom : (w.within t ts).length < rate.toNat :=
        Nat.lt_of_le_of_lt (List.length_filter_le ..) hfew
      have hadmitted := (hsuffices.isAllowed_decide hpolicy).2 hroom
      have hcalls : requests record (ts ++ [t]) = requests record ts ++ [.decide record t] := by
        simp [requests]
      rw [hcalls, admittedSince_append, hpast]
      simp [admittedSince, noted, hpolicy, Policy.isUnrestricted, hadmitted]

/-- The record of a client whose limit changes. -/
def guest (rate : UInt32) : Record := .fresh ⟨"c1", .standard⟩ (.limited rate) 0

/-- The times of a client that comes at 0 and then again and again at 1. -/
def burst (rate : Nat) : List Nat := 0 :: List.replicate rate 1

theorem forward_burst (rate : Nat) : (burst rate ++ [1]).Pairwise (· ≤ ·) := by
  simp [burst, List.pairwise_append, List.pairwise_replicate]

theorem within_burst (hwindow : 2 ≤ w.window) (rate : Nat) : w.within 1 (burst rate) = burst rate := by
  refine SlidingWindow.within_eq_self fun t ht => ?_
  rcases List.mem_cons.1 ht with rfl | ht
  · omega
  · rw [List.eq_of_mem_replicate ht]
    omega

/-- The first entry of a burst leaves the window a millisecond before all the others. -/
theorem length_afterFirst_burst (hwindow : 2 ≤ w.window) (rate : Nat) :
    (w.afterFirst 1 (burst rate)).length = rate := by
  rw [SlidingWindow.afterFirst, within_burst hwindow]
  simp [burst]

/-- A burst under a limit of one more leaves so much in a window that the hint of the next denial is too short. -/
theorem not_honoursHints {most : UInt32} (hrate : 1 ≤ rate.toNat) (hmost : rate.toNat < most.toNat)
    (hwindow : 2 ≤ w.window) : ¬ HonoursHints w most rate := by
  intro hhonours
  have hsucc : (rate + 1).toNat = rate.toNat + 1 := by
    have hword := most.toNat_lt
    rw [UInt32.toNat_add]
    exact Nat.mod_eq_of_lt (by simp only [UInt32.toNat_one]; omega)
  have hforward : (times (requests (guest (rate + 1)) (burst rate.toNat)) ++ [1]).Pairwise (· ≤ ·) := by
    rw [times_requests]
    exact forward_burst rate.toNat
  have hlog : (ofRule (.slidingWindow w)).admittedSince (guest rate).client.id []
      (requests (guest (rate + 1)) (burst rate.toNat)) = burst rate.toNat := by
    refine admittedSince_requests w (guest (rate + 1)) rfl (List.pairwise_append.1 (forward_burst _)).1 ?_
    simp [burst, hsucc]
  obtain ⟨hint, hdenied⟩ : ∃ hint, (((ofRule (.slidingWindow w)).run
      (requests (guest (rate + 1)) (burst rate.toNat))).decide (guest rate) 1).1.verdict = .denied hint := by
    refine slidingWindow_denied_of_full rfl hforward ?_
    rw [hlog, within_burst hwindow]
    simp [burst]
  have hlimits : AsksAt (guest rate).client.id (fun limit => 1 ≤ limit ∧ limit ≤ most.toNat)
      (requests (guest (rate + 1)) (burst rate.toNat)) := asksAt_requests rfl (by omega) _ _
  have hadmitted := hhonours _ (guest rate) 1 hint rfl hforward hlimits hdenied
  rw [slidingWindow_honoured_iff hrate rfl hforward hdenied, hlog, length_afterFirst_burst hwindow] at hadmitted
  exact Nat.lt_irrefl _ hadmitted

/-- **Exactly when the hints of a sliding window are honoured.**  A denied request is admitted when its hint is over
if and only if the admissions in the window that are later than the first one leave room for it.  So a limit keeps
all its promises if and only if the client never had a larger one, or no two different times are in one window. -/
theorem slidingWindow_honoursHints_iff (w : SlidingWindow) {most : UInt32} (hrate : 1 ≤ rate.toNat) :
    (∀ (calls : List Call) (record : Record) (now : Nat) (hint : Duration), record.policy = .limited rate →
      (times calls ++ [now]).Pairwise (· ≤ ·) →
      (((ofRule (.slidingWindow w)).run calls).decide record now).1.verdict = .denied hint →
        (((((ofRule (.slidingWindow w)).run calls).decide record now).2.decide record
            (now + hint.millis)).1.isAllowed = true ↔
          (w.afterFirst now ((ofRule (.slidingWindow w)).admittedSince record.client.id [] calls)).length <
            rate.toNat)) ∧
      (HonoursHints w most rate ↔ most.toNat ≤ rate.toNat ∨ w.window = 1) := by
  refine ⟨fun calls record now hint hpolicy => slidingWindow_honoured_iff hrate hpolicy, fun h => ?_, ?_⟩
  · by_contra hbad
    obtain ⟨hmost, hwindow⟩ := not_or.1 hbad
    have hpos := w.window_pos
    exact not_honoursHints hrate (Nat.not_le.1 hmost) (by omega) h
  · rintro (hmost | hwindow)
    · exact honoursHints_of_le hrate hmost
    · exact honoursHints_of_window_eq_one hrate hwindow

/-- A limit of one after a limit of two: not all hints are honoured at a window of ten, but all are at a window of
one, and all are for a client that never had more than the one. -/
theorem slidingWindow_honours_one :
    ¬ HonoursHints (.ofMillis 10) 2 1 ∧ HonoursHints (.ofMillis 1) 2 1 ∧ HonoursHints (.ofMillis 10) 1 1 := by
  have hrate : 1 ≤ (1 : UInt32).toNat := Nat.le_refl 1
  refine ⟨fun h => ?_, ?_, ?_⟩
  · exact absurd ((slidingWindow_honoursHints_iff (.ofMillis 10) hrate).2.1 h) (by decide)
  · exact (slidingWindow_honoursHints_iff (.ofMillis 1) hrate).2.2 (.inr rfl)
  · exact (slidingWindow_honoursHints_iff (.ofMillis 10) hrate).2.2 (.inl (Nat.le_refl 1))

/-- **Turned away at the appointed time.**  A client is admitted twice in ten milliseconds, at 0 and at 5, and is
then moved to a limit of one.  At 5 it is told to come back in 5 milliseconds, when the first of the two has left;
at 10 the other one is still in the window. -/
theorem slidingWindow_breaks_hint :
    (times (requests (guest 2) [0, 5]) ++ [5]).Pairwise (· ≤ ·) ∧
      (((ofRule (.slidingWindow (.ofMillis 10))).run (requests (guest 2) [0, 5])).decide
        (guest 1) 5).1.verdict = .denied (.ofMillis 5) ∧
      ((((ofRule (.slidingWindow (.ofMillis 10))).run (requests (guest 2) [0, 5])).decide
        (guest 1) 5).2.decide (guest 1) (5 + 5)).1.verdict = .denied (.ofMillis 5) := by
  decide

end Algorithm
end AdmissionControl
