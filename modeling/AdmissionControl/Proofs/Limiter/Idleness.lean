import AdmissionControl.Proofs.Limiter.Alignment
import AdmissionControl.Proofs.Limiter.Replay

/-!
# Whose state a sweep discards

A client is idle if it has not asked for longer than the limiter's time.  A check stamps its client's slot when it
asks, and the algorithm decides later, at another reading of the clock if time passes while the check waits for its
lock.  Only a check whose slot is gone by then stamps the new one with the later reading.

* `Deed`, `deedsOf` — the decisions of a run, with the reading at which the client asked and the one at which the
  algorithm decided, and the states that its sweeps discard, in order.
* `Seen` — since a client asked, its slot is live and stamped at least as late, or the limiter's time has passed;
  every history of a clock that does not go back keeps it.
* `Heeds`, `heeds_runAll` — **a sweep discards no state of a client that has asked in the limiter's time**.
* `discards_iff` — so a client that was decided within some time is spared exactly if this time and the longest
  wait of a decision fit into the limiter's time together.
-/

namespace AdmissionControl
namespace Limiter

/-! ## Deeds -/

/-- The clients whose state a sweep at `now` discards. -/
def discards (l : Limiter) (now : Nat) : List String := (l.idleClients now).filter l.hasState

/-- What a run does to the state of clients. -/
inductive Deed
  /-- The algorithm decides for a client that asked at one reading of the clock, with another reading. -/
  | decides (client : String) (asked time : Nat)
  /-- A sweep discards the state of clients. -/
  | sweeps (now : Nat) (discarded : List String)
  deriving DecidableEq, Repr

/-- Where one deed decides for a client and the other is a sweep that discards its state, `p` holds of the times at
which the client asked, was decided and was discarded. -/
def Deed.OnlyIf (p : Nat → Nat → Nat → Prop) : Deed → Deed → Prop
  | decides client asked time, sweeps now discarded => client ∈ discarded → p asked time now
  | decides .., decides .. | sweeps .., decides .. | sweeps .., sweeps .. => True

/-- When the slot on which a check is decided was stamped for it: when the check started, or when it took a new
slot because that one was gone. -/
def Station.askedAt (s : Station) (record : Record) (inside : List Step) : Nat :=
  if (s.pastEstimate record inside).limiter.isLive record.client.id (s.slotOf record) then s.clock.now
  else (s.pastEstimate record inside).clock.now

mutual

/-- The deeds of one step, with those of the steps inside it. -/
def Step.deeds : Step → Station → List Deed
  | .check subject keeps inside within, s =>
      let report := (Step.check subject keeps inside within).run s
      match subject.resolve s.book with
      | .error _ => []
      | .ok record =>
          (if report.ranInside then deedsOf inside (s.pastGate record) else []) ++
            if report.ranWithin then
              deedsOf within (s.pastLock record inside) ++
                [.decides record.client.id (s.askedAt record inside) (s.pastEstimate record inside).clock.now]
            else []
  | .sweep, s => [.sweeps s.clock.now (s.limiter.discards s.clock.now)]
  | .move _, _ => []
  | .breaker _, _ => []

/-- The deeds of steps one after another. -/
def deedsOf : List Step → Station → List Deed
  | [], _ => []
  | step :: rest, s => step.deeds s ++ deedsOf rest (step.run s).after

end

/-! ## Stamps -/

/-- Every slot of the one limiter is a slot of the other, and stamped there at least as late. -/
def Touched (l l' : Limiter) : Prop :=
  ∀ client slot, l.slots.get? client = some slot →
    ∃ slot', l'.slots.get? client = some slot' ∧ slot.lastAccess ≤ slot'.lastAccess

namespace Touched

variable {l l' l'' : Limiter}

theorem of_slots (h : l'.slots = l.slots) : Touched l l' := by
  intro client slot hslot
  rw [h]
  exact ⟨slot, hslot, Nat.le_refl _⟩

theorem trans (h : Touched l l') (h' : Touched l' l'') : Touched l l'' := by
  intro client slot hslot
  obtain ⟨slot', hslot', hle⟩ := h client slot hslot
  obtain ⟨slot'', hslot'', hle'⟩ := h' client slot' hslot'
  exact ⟨slot'', hslot'', Nat.le_trans hle hle'⟩

theorem set {client : String} {old new : Slot} (hold : l.slots.get? client = some old)
    (hle : old.lastAccess ≤ new.lastAccess) : Touched l { l with slots := l.slots.set client new } := by
  intro x slot hslot
  by_cases hx : x = client
  · subst hx
    obtain rfl := Option.some.inj (hold.symm.trans hslot)
    exact ⟨new, (Table.get?_set ..).trans (if_pos rfl), hle⟩
  · exact ⟨slot, (Table.get?_set ..).trans ((if_neg hx).trans hslot), Nat.le_refl _⟩

theorem look (l : Limiter) (client : String) (now : Nat) : Touched l (l.look client now).2 := by
  unfold Limiter.look
  split
  · rename_i slot hslot
    exact set hslot (Nat.le_max_left ..)
  · rename_i hnone
    intro x slot hslot
    have hx : x ≠ client := by
      rintro rfl
      exact absurd (hnone.symm.trans hslot) (by simp)
    exact ⟨slot, (Table.get?_set ..).trans ((if_neg hx).trans hslot), Nat.le_refl _⟩

theorem renew (l : Limiter) (client : String) (slot : Slot) (now : Nat) :
    Touched l (l.renew client slot now) := by
  unfold Limiter.renew
  split
  · exact of_slots rfl
  · exact look l client now

theorem enter {client : String} (h : l.enter client = some l') : Touched l l' := by
  obtain ⟨slot, hslot, -, rfl⟩ := slots_of_enter h
  exact set hslot (Nat.le_refl _)

theorem leave (l : Limiter) (client : String) : Touched l (l.leave client) := by
  rcases leave_eq l client with hsame | ⟨slot, hslot, hleave⟩
  · rw [hsame]
    exact of_slots rfl
  · rw [hleave]
    exact set hslot (Nat.le_refl _)

end Touched

theorem le_lastAccess_look (l : Limiter) (client : String) (now : Nat) :
    now ≤ (l.look client now).1.lastAccess := by
  unfold look
  split
  · exact Nat.le_max_right ..
  · exact Nat.le_refl _

/-! ## Clients that were seen -/

/-- A client was seen at a time: its slot is live and stamped at least as late, or more than `threshold` has
passed since. -/
def Seen (threshold : Nat) (client : String) (asked : Nat) (s : Station) : Prop :=
  threshold < s.clock.now - asked ∨
    ∃ slot, s.limiter.slots.get? client = some slot ∧ asked ≤ slot.lastAccess

namespace Seen

variable {threshold asked : Nat} {client : String} {s s' : Station}

theorem congr (h : Seen threshold client asked s) (hslots : Touched s.limiter s'.limiter)
    (hclock : s.clock.now ≤ s'.clock.now) : Seen threshold client asked s' := by
  rcases h with hpassed | ⟨slot, hslot, hle⟩
  · left
    omega
  · right
    obtain ⟨slot', hslot', hle'⟩ := hslots client slot hslot
    exact ⟨slot', hslot', Nat.le_trans hle hle'⟩

/-- Who asks is seen. -/
theorem look (s : Station) (client : String) :
    Seen threshold client s.clock.now { s with limiter := (s.limiter.look client s.clock.now).2 } :=
  Or.inr ⟨_, get?_look s.limiter client s.clock.now, le_lastAccess_look s.limiter client s.clock.now⟩

/-- A sweep that forgets a client comes when the limiter's time has passed. -/
theorem lt_of_idle (h : Seen s.limiter.threshold client asked s)
    (hidle : client ∈ s.limiter.idleClients s.clock.now) : s.limiter.threshold < s.clock.now - asked := by
  rcases h with hpassed | ⟨slot, hslot, hle⟩
  · exact hpassed
  · obtain ⟨slot', hslot', hidle⟩ := mem_idleClients_iff.1 hidle
    obtain rfl := Option.some.inj (hslot.symm.trans hslot')
    unfold Slot.isIdle at hidle
    rw [Bool.and_eq_true, decide_eq_true_iff] at hidle
    have hlong := hidle.1
    omega

theorem sweep (h : Seen s.limiter.threshold client asked s) :
    Seen s.limiter.threshold client asked { s with limiter := s.limiter.sweep s.clock.now } := by
  by_cases hidle : client ∈ s.limiter.idleClients s.clock.now
  · exact Or.inl (h.lt_of_idle hidle)
  · rcases h with hpassed | ⟨slot, hslot, hle⟩
    · exact Or.inl hpassed
    · right
      refine ⟨slot, ?_, hle⟩
      show (s.limiter.sweep s.clock.now).slots.get? client = some slot
      rw [slots_sweep, if_neg hidle]
      exact hslot

end Seen

/-! ## Every run heeds who was seen -/

/-- The deeds on the way from one station to another: who was seen before them or is decided by them has been seen
after them, and no sweep among them discards the state of such a client before `threshold` has passed. -/
structure Heeds (threshold : Nat) (s : Station) (deeds : List Deed) (s' : Station) : Prop where
  /-- The clock does not go back. -/
  clock_le : s.clock.now ≤ s'.clock.now
  /-- The sweeps are over. -/
  sweeps_le : ∀ now discarded, .sweeps now discarded ∈ deeds → now ≤ s'.clock.now
  /-- Who was seen has been seen. -/
  keeps : ∀ client asked, Seen threshold client asked s → Seen threshold client asked s'
  /-- Who was seen is spared. -/
  spares : ∀ client asked, Seen threshold client asked s → ∀ now discarded, .sweeps now discarded ∈ deeds →
    client ∈ discarded → threshold < now - asked
  /-- Who is decided has been seen. -/
  seen : ∀ client asked time, .decides client asked time ∈ deeds → Seen threshold client asked s'
  /-- Who is decided is spared. -/
  pairwise : deeds.Pairwise (Deed.OnlyIf fun asked _ now => threshold < now - asked)

namespace Heeds

variable {threshold : Nat} {s s' s'' : Station} {early late : List Deed}

theorem nil (hslots : Touched s.limiter s'.limiter) (hclock : s.clock.now ≤ s'.clock.now) :
    Heeds threshold s [] s' where
  clock_le := hclock
  sweeps_le := fun _ _ hsweeps => absurd hsweeps List.not_mem_nil
  keeps := fun _ _ h => h.congr hslots hclock
  spares := fun _ _ _ _ _ hsweeps => absurd hsweeps List.not_mem_nil
  seen := fun _ _ _ hdecides => absurd hdecides List.not_mem_nil
  pairwise := .nil

theorem append (h : Heeds threshold s early s') (h' : Heeds threshold s' late s'') :
    Heeds threshold s (early ++ late) s'' where
  clock_le := Nat.le_trans h.clock_le h'.clock_le
  sweeps_le := by
    intro now discarded hsweeps
    rcases List.mem_append.1 hsweeps with hearly | hlate
    · exact Nat.le_trans (h.sweeps_le now discarded hearly) h'.clock_le
    · exact h'.sweeps_le now discarded hlate
  keeps := fun client asked hseen => h'.keeps client asked (h.keeps client asked hseen)
  spares := by
    intro client asked hseen now discarded hsweeps
    rcases List.mem_append.1 hsweeps with hearly | hlate
    · exact h.spares client asked hseen now discarded hearly
    · exact h'.spares client asked (h.keeps client asked hseen) now discarded hlate
  seen := by
    intro client asked time hdecides
    rcases List.mem_append.1 hdecides with hearly | hlate
    · exact h'.keeps client asked (h.seen client asked time hearly)
    · exact h'.seen client asked time hlate
  pairwise := by
    refine List.pairwise_append.2 ⟨h.pairwise, h'.pairwise, ?_⟩
    intro first hfirst second hsecond
    cases first with
    | sweeps now discarded => cases second <;> trivial
    | decides client asked time =>
        cases second with
        | decides client' asked' time' => trivial
        | sweeps now discarded =>
            exact h'.spares client asked (h.seen client asked time hfirst) now discarded hsecond

theorem sweep (s : Station) :
    Heeds s.limiter.threshold s [.sweeps s.clock.now (s.limiter.discards s.clock.now)]
      { s with limiter := s.limiter.sweep s.clock.now } where
  clock_le := Nat.le_refl _
  sweeps_le := by
    intro now discarded hsweeps
    obtain ⟨rfl, -⟩ := Deed.sweeps.inj (List.mem_singleton.1 hsweeps)
    exact Nat.le_refl _
  keeps := fun _ _ h => h.sweep
  spares := by
    intro client asked hseen now discarded hsweeps hdiscarded
    obtain ⟨rfl, rfl⟩ := Deed.sweeps.inj (List.mem_singleton.1 hsweeps)
    exact hseen.lt_of_idle (List.mem_filter.1 hdiscarded).1
  seen := fun _ _ _ hdecides => absurd (List.mem_singleton.1 hdecides) Deed.noConfusion
  pairwise := List.pairwise_singleton ..

/-- A decision for a client that was seen when it asked. -/
theorem decides {client : String} {asked time : Nat} (hseen : Seen threshold client asked s)
    (hslots : Touched s.limiter s'.limiter) (hclock : s.clock.now ≤ s'.clock.now) :
    Heeds threshold s [.decides client asked time] s' where
  clock_le := hclock
  sweeps_le := fun _ _ hsweeps => absurd (List.mem_singleton.1 hsweeps) Deed.noConfusion
  keeps := fun _ _ h => h.congr hslots hclock
  spares := fun _ _ _ _ _ hsweeps => absurd (List.mem_singleton.1 hsweeps) Deed.noConfusion
  seen := by
    intro client' asked' time' hdecides
    obtain ⟨rfl, rfl, -⟩ := Deed.decides.inj (List.mem_singleton.1 hdecides)
    exact hseen.congr hslots hclock
  pairwise := List.pairwise_singleton ..

end Heeds

section Checks

variable {threshold : Nat} {s s' : Station} {early : List Deed} {record : Record} {l : Limiter}
  {inside within : List Step}

theorem heeds_pastEstimate
    (hinside : ∀ s, s.limiter.threshold = threshold → Forward s.clock.now (momentsOf (runAll inside s).1) →
      Heeds threshold s (deedsOf inside s) (runAll inside s).2)
    (hthreshold : s.limiter.threshold = threshold)
    (hforward : Forward s.clock.now (momentsIn (s.insideReports record inside))) :
    Heeds threshold (s.pastGate record)
      (if (s.insideReports record inside).isSome then deedsOf inside (s.pastGate record) else [])
      (s.pastEstimate record inside) := by
  unfold Station.insideReports at hforward ⊢
  unfold Station.pastEstimate
  by_cases hreading : (s.reading record).isSome = true
  · rw [if_pos hreading] at hforward
    rw [if_pos hreading, if_pos hreading]
    exact hinside _ ((stable_threshold threshold).pastGate hthreshold record) hforward
  · rw [if_neg hreading, if_neg hreading]
    exact .nil (.of_slots rfl) (Nat.le_refl _)

/-- Who gets its lock was seen when its slot was stamped. -/
theorem seen_pastLock (hestimate : Heeds threshold (s.pastGate record) early (s.pastEstimate record inside))
    (henter : (s.renewed record inside).enter record.client.id = some l) :
    Seen threshold record.client.id (s.askedAt record inside) (s.pastLock record inside) := by
  rw [Station.pastLock_of_enter henter]
  unfold Station.askedAt
  split
  · -- the slot that the check has looked at is the one that it locks
    have hseen : Seen threshold record.client.id s.clock.now (s.pastGate record) := Seen.look s record.client.id
    have htouched : Touched (s.pastEstimate record inside).limiter l :=
      (Touched.renew _ _ _ _).trans (Touched.enter henter)
    exact (hestimate.keeps _ _ hseen).congr htouched (Nat.le_refl _)
  · rename_i hgone
    have hrenewed : s.renewed record inside =
        ((s.pastEstimate record inside).limiter.look record.client.id
          (s.pastEstimate record inside).clock.now).2 := if_neg hgone
    rw [hrenewed] at henter
    have hseen : Seen threshold record.client.id (s.pastEstimate record inside).clock.now
        { s.pastEstimate record inside with
          limiter := ((s.pastEstimate record inside).limiter.look record.client.id
            (s.pastEstimate record inside).clock.now).2 } := Seen.look ..
    exact hseen.congr (Touched.enter henter) (Nat.le_refl _)

/-- A check heeds who was seen, given that the steps inside it do. -/
theorem heeds_check
    (hinside : ∀ s, s.limiter.threshold = threshold → Forward s.clock.now (momentsOf (runAll inside s).1) →
      Heeds threshold s (deedsOf inside s) (runAll inside s).2)
    (hwithin : ∀ s, s.limiter.threshold = threshold → Forward s.clock.now (momentsOf (runAll within s).1) →
      Heeds threshold s (deedsOf within s) (runAll within s).2)
    (subject : Subject) (keeps : Bool) (hthreshold : s.limiter.threshold = threshold)
    (hforward : Forward s.clock.now ((Step.check subject keeps inside within).run s).moments) :
    Heeds threshold s ((Step.check subject keeps inside within).deeds s)
      ((Step.check subject keeps inside within).run s).after := by
  have hchecks := checks_run subject keeps inside within s
  rw [Step.deeds]
  generalize (Step.check subject keeps inside within).run s = report at hchecks hforward
  have hgatePassed : ∀ record, Heeds threshold s [] (s.pastGate record) := by
    intro record
    exact .nil (.look _ _ _) (Nat.le_refl _)
  cases hchecks with
  | unresolved hsubject =>
      rw [hsubject]
      exact .nil (.of_slots rfl) (Nat.le_refl _)
  | @settled record outcome hsubject hgate =>
      rw [hsubject]
      have hslots : (s.settle (gate record s.breaker s.clock.now).2 subject keeps outcome).limiter = s.limiter := by
        cases outcome <;> rfl
      have hclock : (s.settle (gate record s.breaker s.clock.now).2 subject keeps outcome).clock = s.clock := by
        cases outcome <;> rfl
      refine .nil (.of_slots ?_) ?_
      · exact congrArg Limiter.slots hslots
      · exact Nat.le_of_eq (congrArg Clock.now hclock).symm
  | @estimated record admission hsubject hgate hreading haccepts =>
      rw [hsubject]
      have hmoments : Forward s.clock.now ([.decision record s.clock.now admission] ++
        (momentsIn (s.insideReports record inside) ++ [])) := hforward
      have hestimate := heeds_pastEstimate hinside hthreshold (hmoments.right List.mem_cons_self).left
      have hend : Heeds threshold (s.pastEstimate record inside) []
          ((s.pastEstimate record inside).conclude subject keeps admission) :=
        .nil (.of_slots rfl) (Nat.le_refl _)
      exact (hgatePassed record).append (hestimate.append hend)
  | @timedOut record hsubject hgate henter =>
      rw [hsubject]
      have hmoments : Forward s.clock.now (momentsIn (s.insideReports record inside) ++ []) := hforward
      have hestimate := heeds_pastEstimate hinside hthreshold hmoments.left
      have hend : Heeds threshold (s.pastEstimate record inside) []
          { s.pastEstimate record inside with limiter := s.renewed record inside } :=
        .nil (.renew _ _ _ _) (Nat.le_refl _)
      exact (hgatePassed record).append (hestimate.append hend)
  | @decided record l s' hsubject hgate henter hwithin' =>
      rw [hsubject]
      have hmoments : Forward s.clock.now (momentsIn (s.insideReports record inside) ++
        momentsOf (runAll within { s.pastEstimate record inside with limiter := l }).1 ++
          [.decision record (s.pastEstimate record inside).clock.now
            (s'.limiter.decide record (s.pastEstimate record inside).clock.now).1]) := hforward
      have hestimate := heeds_pastEstimate hinside hthreshold hmoments.left.left
      have hclock := (s.history_pastEstimate record inside).clock_mem
      have hlock : Heeds threshold (s.pastEstimate record inside) [] (s.pastLock record inside) := by
        rw [Station.pastLock_of_enter henter]
        exact .nil ((Touched.renew _ _ _ _).trans (.enter henter)) (Nat.le_refl _)
      have hunder : Heeds threshold (s.pastLock record inside) (deedsOf within (s.pastLock record inside)) s' := by
        have hlocked := (stable_threshold threshold).pastLock hthreshold record inside
        rw [hwithin']
        rw [Station.pastLock_of_enter henter] at hlocked ⊢
        exact hwithin _ hlocked (hmoments.left.right hclock)
      have hseen := hunder.keeps _ _ (seen_pastLock hestimate henter)
      have hdecided : Touched s'.limiter (s'.limiter.decide record (s.pastEstimate record inside).clock.now).2 :=
        .of_slots rfl
      generalize s'.limiter.decide record (s.pastEstimate record inside).clock.now = decision at hdecided
      have hend : Heeds threshold s'
          [.decides record.client.id (s.askedAt record inside) (s.pastEstimate record inside).clock.now]
          ({ s' with limiter := decision.2.leave record.client.id }.conclude subject keeps decision.1) :=
        .decides hseen (hdecided.trans (.leave _ record.client.id)) (Nat.le_refl _)
      exact (hgatePassed record).append (hestimate.append (hlock.append (hunder.append hend)))

mutual

theorem Step.heeds (step : Step) (s : Station) (hthreshold : s.limiter.threshold = threshold)
    (hforward : Forward s.clock.now (step.run s).moments) :
    Heeds threshold s (step.deeds s) (step.run s).after :=
  match step with
  | .sweep => by
      rw [Step.deeds, Step.run, ← hthreshold]
      exact .sweep s
  | .move m => by
      rw [Step.run] at hforward
      rw [Step.deeds, Step.run]
      refine .nil (.of_slots rfl) (Forward.le hforward ?_)
      exact List.mem_cons_of_mem _ List.mem_cons_self
  | .breaker event => by
      rw [Step.deeds, Step.run]
      exact .nil (.of_slots rfl) (Nat.le_refl _)
  | .check subject keeps inside within =>
      heeds_check (heeds_runAll inside) (heeds_runAll within) subject keeps hthreshold hforward

/-- **Every run of a clock that does not go back heeds who was seen.** -/
theorem heeds_runAll (steps : List Step) (s : Station) (hthreshold : s.limiter.threshold = threshold)
    (hforward : Forward s.clock.now (momentsOf (runAll steps s).1)) :
    Heeds threshold s (deedsOf steps s) (runAll steps s).2 :=
  match steps with
  | [] => by
      rw [deedsOf, runAll]
      exact .nil (.of_slots rfl) (Nat.le_refl _)
  | step :: rest => by
      rw [runAll, momentsOf] at hforward
      rw [deedsOf, runAll]
      have hfirst := Step.heeds step s hthreshold hforward.left
      have hnext := (stable_threshold threshold).history (step.history s) hthreshold
      exact hfirst.append (heeds_runAll rest _ hnext (hforward.right (step.history s).clock_mem))

end

end Checks

/-! ## Who is spared -/

/-- Ann asks for a request in each window, and waits for her lock. -/
def dally (wait : Nat) : Step := checkOnce "ann" [.move (.set wait)] []

/-- Nobody has asked yet. -/
def hall (rule : Rule) (locking : Locking) (inactivity : Duration) : Station :=
  ⟨ofRule rule locking inactivity, .fresh ⟨5, .ofMillis 1000⟩, ⟨0⟩, Table.empty⟩

theorem ticks_append (early late : List Moment) : ticks (early ++ late) = ticks early ++ ticks late :=
  List.filterMap_append

section Spared

variable {rule : Rule}

/-- Ann's check behind any rule that keeps state: she is decided when her wait is over, and her slot is stamped
from when she came. -/
theorem run_dally (hkind : rule.kind ≠ .quota) (locking : Locking) (inactivity : Duration) (wait : Nat) :
    let report := (dally wait).run (hall rule locking inactivity)
    (dally wait).deeds (hall rule locking inactivity) = [.decides "ann" 0 wait] ∧
      ticks report.moments = [wait] ∧
      report.after.limiter.slots.get? "ann" = some ⟨0, 2, 0⟩ ∧ report.after.limiter.hasState "ann" = true := by
  cases rule with
  | fixedWindow w => exact ⟨rfl, rfl, rfl, rfl⟩
  | slidingWindow w => exact ⟨rfl, rfl, rfl, rfl⟩
  | tokenBucket r => exact ⟨rfl, rfl, rfl, rfl⟩
  | leakyBucket r => exact ⟨rfl, rfl, rfl, rfl⟩
  | quota q => exact absurd rfl hkind

/-- The deeds when the idle are forgotten some time after Ann's check. -/
theorem deedsOf_dally (hkind : rule.kind ≠ .quota) (locking : Locking) (inactivity : Duration) (wait now : Nat) :
    deedsOf [dally wait, .move (.set now), .sweep] (hall rule locking inactivity) =
      [.decides "ann" 0 wait,
        .sweeps now (((dally wait).run (hall rule locking inactivity)).after.limiter.discards now)] := by
  obtain ⟨hdeeds, -, -, -⟩ := run_dally hkind locking inactivity wait
  rw [deedsOf, hdeeds, deedsOf, Step.deeds, Step.run, deedsOf, Step.deeds, deedsOf]
  rfl

theorem forward_dally (hkind : rule.kind ≠ .quota) (locking : Locking) (inactivity : Duration) {wait now : Nat}
    (hwait : wait ≤ now) :
    Forward 0 (momentsOf (runAll [dally wait, .move (.set now), .sweep] (hall rule locking inactivity)).1) := by
  obtain ⟨-, hticks, -, -⟩ := run_dally hkind locking inactivity wait
  let s := ((dally wait).run (hall rule locking inactivity)).after
  have hmoments : momentsOf (runAll [dally wait, .move (.set now), .sweep] (hall rule locking inactivity)).1 =
      ((dally wait).run (hall rule locking inactivity)).moments ++
        ([.tick now] ++ (s.limiter.idleClients now).map .eviction) := by
    rw [← List.append_nil ((s.limiter.idleClients now).map Moment.eviction)]
    rfl
  have htimes : ticks (momentsOf (runAll [dally wait, .move (.set now), .sweep] (hall rule locking inactivity)).1) =
      [wait, now] := by
    rw [hmoments, ticks_append, ticks_append, hticks, ticks_evictions]
    rfl
  unfold Forward
  rw [htimes]
  simp [hwait]

/-- A sweep discards Ann's state as soon as the limiter's time has passed since she came. -/
theorem ann_mem_discards (hkind : rule.kind ≠ .quota) (locking : Locking) (inactivity : Duration) (wait : Nat)
    {now : Nat} (hlong : (ofRule rule locking inactivity).threshold < now) :
    "ann" ∈ ((dally wait).run (hall rule locking inactivity)).after.limiter.discards now := by
  obtain ⟨-, -, hslot, hstate⟩ := run_dally hkind locking inactivity wait
  have hthreshold : ((dally wait).run (hall rule locking inactivity)).after.limiter.threshold =
      (ofRule rule locking inactivity).threshold :=
    (stable_threshold _).history (Step.history (dally wait) (hall rule locking inactivity)) rfl
  refine List.mem_filter.2 ⟨mem_idleClients_iff.2 ⟨_, hslot, ?_⟩, hstate⟩
  rw [hthreshold]
  unfold Slot.isIdle
  rw [Bool.and_eq_true, decide_eq_true_iff]
  exact ⟨hlong, rfl⟩

end Spared

/-- In all runs whose decisions are taken at most `delay` after the client's slot was stamped, and whose clock never
goes back and fits in a word, sweeps spare the state of whoever was decided within `horizon`. -/
def SparesWithin (rule : Rule) (locking : Locking) (inactivity : Duration) (horizon delay : Nat) : Prop :=
  ∀ (breaker : Breaker) (clock : Clock) (book : Table String Record) (steps : List Step),
    let s : Station := ⟨ofRule rule locking inactivity, breaker, clock, book⟩
    Forward clock.now (momentsOf (runAll steps s).1) → (runAll steps s).2.clock.now ≤ Word.max →
    (∀ client asked time, .decides client asked time ∈ deedsOf steps s → time ≤ asked + delay) →
    (deedsOf steps s).Pairwise (Deed.OnlyIf fun _ time now => horizon < now - time)

theorem sparesWithin_of_le {rule : Rule} {locking : Locking} {inactivity : Duration} {horizon delay : Nat}
    (h : Word.saturate (horizon + delay) ≤ (ofRule rule locking inactivity).threshold) :
    SparesWithin rule locking inactivity horizon delay := by
  intro breaker clock book steps s hforward hword hdelay
  have hheeds := heeds_runAll steps s rfl hforward
  refine hheeds.pairwise.imp_of_mem ?_
  intro first second hfirst hsecond honly
  cases first with
  | sweeps now discarded => cases second <;> trivial
  | decides client asked time =>
      cases second with
      | decides client' asked' time' => trivial
      | sweeps now discarded =>
          intro hdiscarded
          have hasked : (ofRule rule locking inactivity).threshold < now - asked := honly hdiscarded
          have hwait := hdelay client asked time hfirst
          have hnow := Nat.le_trans (hheeds.sweeps_le now discarded hsecond) hword
          unfold Word.saturate at h
          omega

theorem le_of_sparesWithin {rule : Rule} (hkind : rule.kind ≠ .quota) {locking : Locking} {inactivity : Duration}
    {horizon delay : Nat} (h : SparesWithin rule locking inactivity horizon delay) :
    Word.saturate (horizon + delay) ≤ (ofRule rule locking inactivity).threshold := by
  by_contra hlonger
  -- Ann waits as long as she may, and is swept away in the first millisecond in which that is possible
  have hlong : (ofRule rule locking inactivity).threshold < (ofRule rule locking inactivity).threshold + 1 :=
    Nat.lt_succ_self _
  have hann := ann_mem_discards hkind locking inactivity
    (min delay ((ofRule rule locking inactivity).threshold + 1)) hlong
  have hrun := h (.fresh ⟨5, .ofMillis 1000⟩) ⟨0⟩ Table.empty
    [dally (min delay ((ofRule rule locking inactivity).threshold + 1)),
      .move (.set ((ofRule rule locking inactivity).threshold + 1)), .sweep]
  have hthreshold : (ofRule rule locking inactivity).threshold < Word.saturate (horizon + delay) :=
    Nat.lt_of_not_le hlonger
  have hword := Word.saturate_le (horizon + delay)
  have hless := Word.saturate_le_self (horizon + delay)
  change Forward _ (momentsOf (runAll _ (hall rule locking inactivity)).1) → _ →
    (∀ client asked time, _ ∈ deedsOf _ (hall rule locking inactivity) → _) →
      (deedsOf _ (hall rule locking inactivity)).Pairwise _ at hrun
  rw [deedsOf_dally hkind] at hrun
  have hpairwise := hrun (forward_dally hkind locking inactivity (Nat.min_le_right ..))
    (Nat.le_trans hthreshold hword) ?_
  · have hdiscards := (List.pairwise_cons.1 hpairwise).1 _ List.mem_cons_self hann
    omega
  · intro client asked time hdecides
    rcases List.mem_cons.1 hdecides with hfirst | hrest
    · obtain ⟨-, rfl, rfl⟩ := Deed.decides.inj hfirst
      omega
    · exact absurd (List.mem_singleton.1 hrest) Deed.noConfusion

/-- **A sweep spares the clients that have asked, not those that were decided.**  However checks, sweeps, clock and
breaker steps nest, and to any depth, of a clock that never goes back:

* where a sweep discards the state of a client for which the algorithm has decided, the limiter's time has passed
  since the slot of that client was stamped for the check;
* since the decision itself comes later if the check has waited, a client that was decided within some time is
  spared in all runs exactly if this time and the longest wait of a decision fit into the limiter's time. -/
theorem discards_iff (rule : Rule) (locking : Locking) (inactivity : Duration) :
    (∀ breaker clock book steps,
      let s : Station := ⟨ofRule rule locking inactivity, breaker, clock, book⟩
      Forward clock.now (momentsOf (runAll steps s).1) →
        (deedsOf steps s).Pairwise
          (Deed.OnlyIf fun asked _ now => (ofRule rule locking inactivity).threshold < now - asked)) ∧
      (rule.kind ≠ .quota → ∀ horizon delay,
        SparesWithin rule locking inactivity horizon delay ↔
          Word.saturate (horizon + delay) ≤ (ofRule rule locking inactivity).threshold) := by
  refine ⟨?_, ?_⟩
  · intro breaker clock book steps s hforward
    exact (heeds_runAll steps s rfl hforward).pairwise
  · intro hkind horizon delay
    exact ⟨le_of_sparesWithin hkind, sparesWithin_of_le⟩

/-- Windows of a second, for clients that are forgotten after fifty milliseconds. -/
def fiftyMillis : Station := hall (.fixedWindow (.ofMillis 1000)) .standard (.ofMillis 50)

/-- With waits of ten milliseconds, who was decided forty milliseconds ago is spared, but not with longer ones; Ann,
who waited for a hundred milliseconds, came more than fifty before her state is discarded. -/
theorem spared_for_forty_millis :
    SparesWithin (.fixedWindow (.ofMillis 1000)) .standard (.ofMillis 50) 40 10 ∧
      ¬ SparesWithin (.fixedWindow (.ofMillis 1000)) .standard (.ofMillis 50) 40 11 ∧
      Deed.OnlyIf (fun asked _ now => 50 < now - asked) (.decides "ann" 0 100) (.sweeps 105 ["ann"]) := by
  obtain ⟨hasked, hspares⟩ := discards_iff (.fixedWindow (.ofMillis 1000)) .standard (.ofMillis 50)
  have hforward : Forward 0 (momentsOf (runAll [dally 100, .move (.set 105), .sweep] fiftyMillis).1) := by
    decide +kernel
  have hdeeds : deedsOf [dally 100, .move (.set 105), .sweep] fiftyMillis =
      [.decides "ann" 0 100, .sweeps 105 ["ann"]] := by decide +kernel
  have hpairwise := hasked _ _ _ _ hforward
  change (deedsOf [dally 100, .move (.set 105), .sweep] fiftyMillis).Pairwise _ at hpairwise
  rw [hdeeds] at hpairwise
  refine ⟨(hspares (by decide) 40 10).2 (by decide), ?_, ?_⟩
  · intro hspared
    exact absurd ((hspares (by decide) 40 11).1 hspared) (by decide)
  · exact (List.pairwise_cons.1 hpairwise).1 _ (List.mem_singleton_self _)

/-- Ann is decided after a wait of a hundred milliseconds, and five milliseconds later a sweep discards her state,
although clients are forgotten after fifty. -/
theorem decided_ann_discarded :
    Forward 0 (momentsOf (runAll [dally 100, .move (.set 105), .sweep] fiftyMillis).1) ∧
      deedsOf [dally 100, .move (.set 105), .sweep] fiftyMillis =
        [.decides "ann" 0 100, .sweeps 105 ["ann"]] ∧
      105 - 100 ≤ fiftyMillis.limiter.threshold ∧
      ¬ (deedsOf [dally 100, .move (.set 105), .sweep] fiftyMillis).Pairwise
        (Deed.OnlyIf fun _ time now => fiftyMillis.limiter.threshold < now - time) := by
  have hdeeds : deedsOf [dally 100, .move (.set 105), .sweep] fiftyMillis =
      [.decides "ann" 0 100, .sweeps 105 ["ann"]] := by decide +kernel
  refine ⟨by decide +kernel, hdeeds, by decide, ?_⟩
  intro hpairwise
  rw [hdeeds] at hpairwise
  have hlong : fiftyMillis.limiter.threshold < 105 - 100 :=
    (List.pairwise_cons.1 hpairwise).1 _ (List.mem_singleton_self _) (List.mem_singleton_self _)
  exact absurd hlong (by decide)

end Limiter
end AdmissionControl
