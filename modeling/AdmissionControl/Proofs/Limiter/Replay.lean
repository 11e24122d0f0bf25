import AdmissionControl.Proofs.Limiter.Locks

/-!
# Checks that meet are answered as if they came one after another

The answers of a limiter are those of one algorithm that is asked the same requests in the order in which
their answers were fixed, whatever ran inside the checks, and that forgets the clients that were swept where
they were swept.

The limiter's own algorithm and the one that is asked in order keep different things: an estimate that was
accepted left no trace in the one and was a decision in the other.  They agree (`Algorithm.Agrees`) on every
client whose lock is free.  A client whose lock is held may be asked for an earlier time than the clock shows
by then, and the frame of the lock says that nothing happened to it in between.

* `Station.Tracks` — the invariant that carries the proof.
* `History.replays` — every history of a clock that does not go back keeps it and replays.
* `Replays.filter` — the moments of one client replay on their own.
* `checks_linearizable` — **every run replays**, as a whole and client by client.
-/

namespace AdmissionControl
namespace Limiter

open Algorithm (Agrees SameFor)

/-! ## Replaying moments -/

/-- What the algorithm's calls among some moments were answered in the run. -/
def answers (moments : List Moment) : List (Option Admission) := moments.filterMap Moment.reply?

/-- An algorithm that is asked one call after another gives the answers of the run. -/
def Replays (a : Algorithm) (moments : List Moment) : Prop :=
  a.replies (calls moments) = answers moments

/-- The clock shows `now`, and never goes back. -/
def Forward (now : Nat) (moments : List Moment) : Prop := (now :: ticks moments).Pairwise (· ≤ ·)

instance (now : Nat) (moments : List Moment) : Decidable (Forward now moments) :=
  inferInstanceAs (Decidable ((now :: ticks moments).Pairwise (· ≤ ·)))

variable {a : Algorithm} {now : Nat} {early late moments : List Moment}

theorem replays_nil (a : Algorithm) : Replays a [] := rfl

theorem Replays.append (h : Replays a early) (h' : Replays (a.run (calls early)) late) :
    Replays a (early ++ late) := by
  rw [Replays, calls_append, Algorithm.replies_append, h, h', answers, answers, answers,
    List.filterMap_append]

theorem replays_decision {record : Record} {time : Nat} {admission : Admission}
    (h : (a.decide record time).1 = admission) :
    Replays a [.decision record time admission] := by
  rw [← h]
  rfl

/-- Evictions have no answers, so that they always replay. -/
theorem replays_evictions (a : Algorithm) (clients : List String) :
    Replays a (clients.map .eviction) := by
  induction clients generalizing a with
  | nil => rfl
  | cons client rest ih =>
      have hrest := ih (a.evict client)
      have hfirst : Replays a [.eviction client] := rfl
      exact hfirst.append hrest

theorem Forward.left (h : Forward now (early ++ late)) : Forward now early := by
  rw [Forward, ticks, List.filterMap_append, ← List.cons_append] at h
  exact (List.pairwise_append.1 h).1

/-- After some moments the clock shows a time from which on it still never goes back. -/
theorem Forward.right {later : Nat} (h : Forward now (early ++ late))
    (hlater : later ∈ now :: ticks early) : Forward later late := by
  rw [Forward, ticks, List.filterMap_append, ← List.cons_append] at h
  obtain ⟨-, hlate, hcross⟩ := List.pairwise_append.1 h
  exact List.pairwise_cons.2 ⟨hcross later hlater, hlate⟩

theorem Forward.le {later : Nat} (h : Forward now moments) (hlater : later ∈ now :: ticks moments) :
    now ≤ later := by
  rcases List.mem_cons.1 hlater with rfl | hlater
  · exact Nat.le_refl _
  · exact (List.pairwise_cons.1 h).1 later hlater

theorem ticks_evictions (clients : List String) : ticks (clients.map Moment.eviction) = [] := by
  rw [ticks, List.filterMap_map]
  exact List.filterMap_eq_nil_iff.2 fun _ _ => rfl

/-- The clock shows the time to which it was last moved. -/
theorem History.clock_mem {s s' : Station} (h : History s moments s') :
    s'.clock.now ∈ s.clock.now :: ticks moments := by
  induction h with
  | quiet hlimiter hclock =>
      rw [hclock]
      exact List.mem_cons_self ..
  | seq h h' ih ih' =>
      rw [ticks, List.filterMap_append, ← List.cons_append]
      rcases List.mem_cons.1 ih' with hmid | hlate
      · rw [hmid]
        exact List.mem_append_left _ ih
      · exact List.mem_append_right _ hlate
  | look s client => exact List.mem_cons_self ..
  | sweep s =>
      rw [ticks_evictions]
      exact List.mem_cons_self ..
  | move s m => exact List.mem_cons_of_mem _ (List.mem_cons_self ..)
  | estimate hfree h => exact List.mem_cons_self ..
  | locked henter h ih =>
      rw [ticks, List.filterMap_append, ← List.cons_append]
      exact List.mem_append_left _ ih

/-! ## The invariant -/

/-- An algorithm that was asked in order agrees with that of the station on every client whose lock is
free. -/
def Station.Tracks (s : Station) (a : Algorithm) : Prop :=
  ∀ client, s.limiter.isHeld client = false → Agrees s.clock.now client s.limiter.algorithm a

theorem Agrees.evictions {client : String} {b : Algorithm} (h : Agrees now client a b)
    (clients : List String) :
    Agrees now client (a.run (calls (clients.map .eviction)))
      (b.run (calls (clients.map .eviction))) := by
  rw [calls_evictions]
  induction clients generalizing a b with
  | nil => exact h
  | cons x rest ih => exact ih (h.evict x)

namespace Station.Tracks

variable {s s' : Station} {record : Record} {l : Limiter}

theorem congr (h : s.Tracks a) (halgorithm : s'.limiter.algorithm = s.limiter.algorithm)
    (hheld : ∀ client, s'.limiter.isHeld client = s.limiter.isHeld client)
    (hclock : s.clock.now ≤ s'.clock.now) : s'.Tracks a := by
  intro client hfree
  rw [hheld] at hfree
  rw [halgorithm]
  exact (h client hfree).mono hclock

/-- An estimate that is accepted is a decision of the algorithm that is asked in order. -/
theorem estimate (h : s.Tracks a) (hfree : s.limiter.isHeld record.client.id = false)
    {admission : Admission}
    (hestimate : s.limiter.algorithm.estimate record s.clock.now = some admission) :
    (a.decide record s.clock.now).1 = admission ∧ s.Tracks (a.decide record s.clock.now).2 := by
  obtain ⟨hanswer, hagrees⟩ := (h record.client.id hfree).estimate (Nat.le_refl _) hestimate
  refine ⟨hanswer, fun client hclient => ?_⟩
  by_cases hsame : record.client.id = client
  · rw [← hsame]
    exact hagrees
  · have hcall : (Algorithm.Call.decide record s.clock.now).client ≠ client := hsame
    exact (h client hclient).congr (.refl ..) (Algorithm.sameFor_after hcall)

/-- Taking a lock only makes less to show. -/
theorem enter (h : s.Tracks a) (henter : s.limiter.enter record.client.id = some l) :
    Station.Tracks { s with limiter := l } a := by
  obtain ⟨-, hheld, hothers, halgorithm⟩ := isHeld_of_enter henter
  intro client hfree
  have hne : client ≠ record.client.id := by
    rintro rfl
    exact Bool.false_ne_true (hfree.symm.trans hheld)
  have hclient := h client (by rw [← hothers client hne]; exact hfree)
  rw [← halgorithm] at hclient
  exact hclient

/-- Both algorithms decide for the time at which the lock was taken: what they keep of the client has not
changed since, whatever others did. -/
theorem decide (h : s.Tracks a) (henter : s.limiter.enter record.client.id = some l)
    (hwithin : History { s with limiter := l } moments s')
    (h' : s'.Tracks (a.run (calls moments))) (hclock : s.clock.now ≤ s'.clock.now) :
    ((a.run (calls moments)).decide record s.clock.now).1 =
        (s'.limiter.decide record s.clock.now).1 ∧
      Station.Tracks
        { s' with limiter := (s'.limiter.decide record s.clock.now).2.leave record.client.id }
        ((a.run (calls moments)).decide record s.clock.now).2 := by
  obtain ⟨hfree, hheld, -, halgorithm⟩ := isHeld_of_enter henter
  obtain ⟨-, hsame, hothers⟩ := hwithin.frame hheld
  have hsame' := Algorithm.sameFor_run (client_ne_of_not_concerns hothers) a
  rw [halgorithm] at hsame
  have hagrees := (h record.client.id hfree).congr hsame hsame'
  obtain ⟨hanswer, hafter⟩ := hagrees.decide (Nat.le_refl _)
  refine ⟨hanswer.symm, fun client hclient => ?_⟩
  rw [algorithm_leave]
  by_cases hself : client = record.client.id
  · subst hself
    exact hafter.mono hclock
  · have hcall : (Algorithm.Call.decide record s.clock.now).client ≠ client := Ne.symm hself
    rw [isHeld_leave_of_ne hself] at hclient
    exact (h' client hclient).congr (Algorithm.sameFor_after hcall) (Algorithm.sameFor_after hcall)

end Station.Tracks

theorem tracks_ofRule (rule : Rule) (locking : Locking) (inactivity : Duration) (breaker : Breaker)
    (clock : Clock) (book : Table String Record) :
    Station.Tracks ⟨ofRule rule locking inactivity, breaker, clock, book⟩ (Algorithm.ofRule rule) :=
  fun client _ => Algorithm.agrees_ofRule rule clock.now client

/-! ## Every history replays -/

/-- **A history of a clock that does not go back replays**, and leaves an algorithm that agrees again. -/
theorem History.replays {s s' : Station} (h : History s moments s')
    (hforward : Forward s.clock.now moments) (htracks : s.Tracks a) :
    Replays a moments ∧ s'.Tracks (a.run (calls moments)) := by
  induction h generalizing a with
  | quiet hlimiter hclock =>
      refine ⟨replays_nil a, htracks.congr ?_ ?_ (Nat.le_of_eq ?_)⟩
      · rw [hlimiter]
      · intro client
        rw [hlimiter]
      · rw [hclock]
  | seq h h' ih ih' =>
      obtain ⟨hearly, hmid⟩ := ih hforward.left htracks
      obtain ⟨hlate, hend⟩ := ih' (hforward.right h.clock_mem) hmid
      refine ⟨hearly.append hlate, ?_⟩
      rw [calls_append, Algorithm.run_append]
      exact hend
  | look s client =>
      exact ⟨replays_nil a, htracks.congr (algorithm_look ..) (isHeld_look _ _ _) (Nat.le_refl _)⟩
  | sweep s =>
      refine ⟨replays_evictions a _, fun client hfree => ?_⟩
      rw [isHeld_sweep] at hfree
      rw [algorithm_sweep]
      exact Agrees.evictions (htracks client hfree) _
  | move s m =>
      have hclock : s.clock.now ≤ (s.clock.move m).now :=
        hforward.le (List.mem_cons_of_mem _ (List.mem_cons_self ..))
      exact ⟨rfl, htracks.congr rfl (fun _ => rfl) hclock⟩
  | estimate hfree hestimate =>
      obtain ⟨hanswer, hend⟩ := htracks.estimate hfree hestimate
      exact ⟨replays_decision hanswer, hend⟩
  | locked henter hwithin ih =>
      obtain ⟨hearly, hmid⟩ := ih hforward.left (htracks.enter henter)
      obtain ⟨hanswer, hend⟩ :=
        htracks.decide henter hwithin hmid (hforward.left.le hwithin.clock_mem)
      refine ⟨hearly.append (replays_decision hanswer), ?_⟩
      rw [calls_append, Algorithm.run_append]
      exact hend

/-! ## One client's moments -/

theorem replays_cons {m : Moment} {call : Algorithm.Call} (hcall : m.call? = some call) :
    Replays a (m :: moments) ↔
      m.reply? = some (a.reply? call) ∧ Replays (a.after call) moments := by
  cases m with
  | decision record time admission =>
      obtain rfl := Option.some.inj hcall
      refine List.cons_eq_cons.trans (and_congr_left fun _ => ?_)
      rw [Moment.reply?, Option.some_inj, eq_comm]
  | eviction client =>
      obtain rfl := Option.some.inj hcall
      refine List.cons_eq_cons.trans (and_congr_left fun _ => ?_)
      rw [Moment.reply?, Option.some_inj, eq_comm]
  | tick time => exact absurd hcall (by simp [Moment.call?])

/-- **The moments of one client replay on their own**: no answer depends on what came for other
clients. -/
theorem Replays.filter {client : String} {b : Algorithm} (h : Replays a moments)
    (hsame : SameFor client a b) : Replays b (moments.filter (·.concerns client)) := by
  induction moments generalizing a b with
  | nil => exact replays_nil b
  | cons m rest ih =>
      cases hcall : m.call? with
      | none =>
          have hdrop : ¬ m.concerns client = true := by
            rw [Moment.concerns, hcall]
            exact Bool.false_ne_true
          have hrest : Replays a rest := by
            cases m with
            | decision record time admission => exact absurd hcall (by simp [Moment.call?])
            | eviction client => exact absurd hcall (by simp [Moment.call?])
            | tick time => exact h
          rw [List.filter_cons_of_neg hdrop]
          exact ih hrest hsame
      | some call =>
          obtain ⟨hreply, hrest⟩ := (replays_cons hcall).1 h
          have hconcerns : m.concerns client = Decidable.decide (call.client = client) := by
            rw [Moment.concerns, hcall, Option.any_some]
          by_cases hself : call.client = client
          · have hkeep : m.concerns client = true := hconcerns.trans (decide_eq_true hself)
            rw [List.filter_cons_of_pos hkeep]
            refine (replays_cons hcall).2 ⟨?_, ih hrest (hsame.after hself)⟩
            rw [hreply, SameFor.reply?_eq (hself ▸ hsame)]
          · have hdrop : ¬ m.concerns client = true := by
              rw [hconcerns]
              exact fun hself' => hself (of_decide_eq_true hself')
            rw [List.filter_cons_of_neg hdrop]
            exact ih hrest ((Algorithm.sameFor_after hself).symm.trans hsame)

/-! ## Every run replays -/

/-- **Checks are linearizable.**  Whatever the rule, however checks, sweeps, clock and breaker steps nest,
and to any depth: if the clock never goes back, then the answers that were fixed by estimates and decisions,
in the order in which they were fixed, are the answers of one algorithm that decides for the same records at
the same times and forgets clients where they were swept.  The same holds of the moments of each client by
themselves. -/
theorem checks_linearizable (rule : Rule) (locking : Locking) (inactivity : Duration)
    (breaker : Breaker) (clock : Clock) (book : Table String Record) (steps : List Step)
    (hforward : Forward clock.now
      (momentsOf (runAll steps ⟨ofRule rule locking inactivity, breaker, clock, book⟩).1)) :
    Replays (Algorithm.ofRule rule)
        (momentsOf (runAll steps ⟨ofRule rule locking inactivity, breaker, clock, book⟩).1) ∧
      ∀ client, Replays (Algorithm.ofRule rule)
        ((momentsOf (runAll steps ⟨ofRule rule locking inactivity, breaker, clock, book⟩).1).filter
          (·.concerns client)) := by
  have htracks := tracks_ofRule rule locking inactivity breaker clock book
  obtain ⟨hreplays, -⟩ := (history_runAll steps _).replays hforward htracks
  exact ⟨hreplays, fun client => hreplays.filter (.refl client _)⟩

/-- A check for a client with one request in each window. -/
def checkOnce (client : String) (inside within : List Step) : Step :=
  .check (.given (.fresh ⟨client, .standard⟩ (.limited 1) 0)) true inside within

/-- Two clients meet: while the first one's estimate is out, the second is decided; while the first one's
lock is held, the second is forgotten and decided again, and the clock moves on. -/
def meeting : List Step :=
  [checkOnce "c1" [] [],
    checkOnce "c1" [.move (.set 4), checkOnce "c2" [] []] [],
    .move (.set 12),
    checkOnce "c1" [] [.sweep, checkOnce "c2" [] [], .move (.set 13)]]

/-- The meeting at a sliding window of ten milliseconds, with clients that are forgotten after five. -/
def meetingPlace : Station :=
  ⟨ofRule (.slidingWindow (.ofMillis 10)) .standard (.ofMillis 5), .fresh ⟨5, .ofMillis 1000⟩, ⟨0⟩,
    Table.empty⟩

/-- The meeting in order: the estimated denial stands before what ran inside its check, and the decision for
the time at which the lock was taken stands last. -/
theorem meeting_replays :
    momentsOf (runAll meeting meetingPlace).1 =
        [.decision (.fresh ⟨"c1", .standard⟩ (.limited 1) 0) 0
            ⟨.allowed, .fresh ⟨"c1", .standard⟩ (.limited 1) 0⟩,
          .decision (.fresh ⟨"c1", .standard⟩ (.limited 1) 0) 0
            ⟨.denyMillis 10, .fresh ⟨"c1", .standard⟩ (.limited 1) 0⟩,
          .tick 4,
          .decision (.fresh ⟨"c2", .standard⟩ (.limited 1) 0) 4
            ⟨.allowed, .fresh ⟨"c2", .standard⟩ (.limited 1) 0⟩,
          .tick 12, .eviction "c2",
          .decision (.fresh ⟨"c2", .standard⟩ (.limited 1) 0) 12
            ⟨.allowed, .fresh ⟨"c2", .standard⟩ (.limited 1) 0⟩,
          .tick 13,
          .decision (.fresh ⟨"c1", .standard⟩ (.limited 1) 0) 12
            ⟨.allowed, .fresh ⟨"c1", .standard⟩ (.limited 1) 0⟩] ∧
      Forward 0 (momentsOf (runAll meeting meetingPlace).1) ∧
      Replays (Algorithm.ofRule (.slidingWindow (.ofMillis 10)))
        (momentsOf (runAll meeting meetingPlace).1) := by
  have hforward : Forward 0 (momentsOf (runAll meeting meetingPlace).1) := by decide +kernel
  refine ⟨by decide +kernel, hforward, ?_⟩
  exact (checks_linearizable _ _ _ _ _ _ meeting hforward).1

end Limiter
end AdmissionControl
