import AdmissionControl.Proofs.Limiter.OpenBreaker
import AdmissionControl.Proofs.Limiter.Stations

/-!
# Slots and state stay aligned

A check makes its slot at the gate and its state at the decision, a sweep takes both, and sweeps may run in
between: a check may find its slot gone and has to take a new one before it decides.

* `WellKept`, `stable_wellKept` — every client with state has a slot, and no mark is given twice.
* `Vouches`, `stable_vouches` — while the slot that a check has looked at is live, state that was there then is
  there still.
* `AtRest.runAll` — so **a client has a slot exactly if it has state** when no check is on its way.
* `Swept`, `swept_sweep` — what a sweep does.
* `slots_aligned` — all of this for the stations of a run.
-/

namespace AdmissionControl
namespace Limiter

/-! ## Slots for all state -/

/-- A limiter as it is kept in order. -/
structure WellKept (l : Limiter) : Prop where
  /-- Every client with state has a slot. -/
  slotted : ∀ client, l.hasState client = true → l.hasSlot client = true
  /-- The mark of the next slot is new. -/
  numbered : ∀ client slot, l.slots.get? client = some slot → slot.id < l.nextSlot

theorem wellKept_ofRule (rule : Rule) (locking : Locking) (inactivity : Duration) :
    WellKept (ofRule rule locking inactivity) := by
  refine ⟨fun client hstate => ?_, fun client slot hslot => ?_⟩
  · exact absurd hstate Bool.false_ne_true
  · exact absurd (show none = some slot from hslot) (by simp)

theorem stable_wellKept : Stable WellKept where
  look := by
    intro l h client now
    refine ⟨fun x hstate => ?_, fun x slot hslot => ?_⟩
    · rw [hasState_look] at hstate
      rw [hasSlot_look, h.slotted x hstate, Bool.or_true]
    · rcases id_look hslot with ⟨old, hold, hid⟩ | ⟨hid, hnext⟩
      · rw [hid]
        exact Nat.lt_of_lt_of_le (h.numbered x old hold) (nextSlot_le_look l client now)
      · rw [hid, hnext]
        exact Nat.lt_succ_self _
  sweep := by
    intro l h now
    refine ⟨fun x hstate => ?_, fun x slot hslot => ?_⟩
    · obtain ⟨hstays, hstate⟩ := hasState_sweep_iff.1 hstate
      obtain ⟨slot, hslot⟩ := hasSlot_eq_true_iff.1 (h.slotted x hstate)
      have hkept : (l.sweep now).slots.get? x = some slot := by
        rw [slots_sweep, if_neg hstays]
        exact hslot
      exact hasSlot_of_get? hkept
    · rw [slots_sweep] at hslot
      split at hslot
      · exact absurd hslot (by simp)
      · exact h.numbered x slot hslot
  stamp := by
    intro l client slot h hslot
    refine ⟨fun x hstate => ?_, fun x slot' hslot' => ?_⟩
    · obtain ⟨old, hold⟩ := hasSlot_eq_true_iff.1 (h.slotted x hstate)
      show ((l.slots.set client slot.stamp).get? x).isSome = true
      rw [Table.get?_set, hold]
      split <;> rfl
    · replace hslot' : (l.slots.set client slot.stamp).get? x = some slot' := hslot'
      rw [Table.get?_set] at hslot'
      split at hslot'
      · obtain rfl := Option.some.inj hslot'
        exact h.numbered client slot hslot
      · exact h.numbered x slot' hslot'
  decide := by
    intro l record h hheld now
    refine ⟨fun x hstate => ?_, h.numbered⟩
    by_cases hx : x = record.client.id
    · rw [hx]
      exact hasSlot_of_isHeld hheld
    · rw [hasState_decide_of_ne hx] at hstate
      exact h.slotted x hstate

/-- A slot vouches for the state of its client: as long as the client's slot has this mark, there is state. -/
structure Vouches (client : String) (id : Nat) (l : Limiter) : Prop where
  /-- The mark was given. -/
  given : id < l.nextSlot
  /-- Where it is, there is state. -/
  state : ∀ slot, l.slots.get? client = some slot → slot.id = id → l.hasState client = true

theorem stable_vouches (client : String) (id : Nat) : Stable (Vouches client id) where
  look := by
    intro l h x now
    refine ⟨Nat.lt_of_lt_of_le h.given (nextSlot_le_look l x now), fun slot hslot hid => ?_⟩
    rw [hasState_look]
    rcases id_look hslot with ⟨old, hold, hsame⟩ | ⟨hnew, -⟩
    · exact h.state old hold (hsame.symm.trans hid)
    · -- a new slot has a new mark
      have hgiven := h.given
      omega
  sweep := by
    intro l h now
    refine ⟨h.given, fun slot hslot hid => ?_⟩
    rw [slots_sweep] at hslot
    split at hslot
    · exact absurd hslot (by simp)
    · rename_i hstays
      exact hasState_sweep_iff.2 ⟨hstays, h.state slot hslot hid⟩
  stamp := by
    intro l x slot h hslot
    refine ⟨h.given, fun slot' hslot' hid => ?_⟩
    replace hslot' : (l.slots.set x slot.stamp).get? client = some slot' := hslot'
    rw [Table.get?_set] at hslot'
    split at hslot'
    · rename_i hx
      obtain rfl := Option.some.inj hslot'
      exact h.state slot (hx ▸ hslot) hid
    · exact h.state slot' hslot' hid
  decide := by
    intro l record h hheld now
    exact ⟨h.given, fun slot hslot hid => hasState_decide (h.state slot hslot hid)⟩

/-! ## State for all slots -/

/-- A lock that is free is free again when everything is over. -/
theorem History.isHeld_eq_false {s s' : Station} {moments : List Moment} {client : String}
    (h : History s moments s') (hfree : s.limiter.isHeld client = false) : s'.limiter.isHeld client = false := by
  induction h with
  | quiet hlimiter hclock =>
      rw [hlimiter]
      exact hfree
  | seq h h' ih ih' => exact ih' (ih hfree)
  | look s x =>
      rw [isHeld_look]
      exact hfree
  | sweep s =>
      rw [isHeld_sweep]
      exact hfree
  | move s m => exact hfree
  | estimate hfree' hestimate => exact hfree
  | @locked s s' record l moments henter hwithin ih =>
      obtain ⟨-, hheld, hothers, -⟩ := isHeld_of_enter henter
      by_cases hx : client = record.client.id
      · subst hx
        obtain ⟨hheld', -, -⟩ := hwithin.frame hheld
        exact isHeld_leave_self hheld'
      · rw [isHeld_leave_of_ne hx]
        exact ih (by rw [hothers client hx]; exact hfree)

/-- A client with no check on its way: its lock is free, and it has a slot exactly if it has state. -/
structure AtRest (client : String) (l : Limiter) : Prop where
  /-- The rule keeps state. -/
  kind_ne : l.algorithm.rule.kind ≠ .quota
  /-- The limiter is in order. -/
  wellKept : WellKept l
  /-- Nobody holds the client's lock. -/
  free : l.isHeld client = false
  /-- It has state and a slot, or neither. -/
  aligned : l.hasState client = l.hasSlot client

namespace AtRest

variable {client x : String} {l l' : Limiter} {s s' : Station} {record : Record} {inside within : List Step}

/-- Everything but the alignment is kept by every history. -/
theorem of_history {moments : List Moment} (h : AtRest client s.limiter) (hhistory : History s moments s')
    (haligned : s'.limiter.hasState client = s'.limiter.hasSlot client) : AtRest client s'.limiter where
  kind_ne := by
    rw [(stable_kind _).history hhistory rfl]
    exact h.kind_ne
  wellKept := stable_wellKept.history hhistory h.wellKept
  free := hhistory.isHeld_eq_false h.free
  aligned := haligned

/-! ### Others ask and decide -/

theorem look (h : AtRest client l) (hne : client ≠ x) (now : Nat) : AtRest client (l.look x now).2 where
  kind_ne := by
    rw [algorithm_look]
    exact h.kind_ne
  wellKept := stable_wellKept.look h.wellKept x now
  free := by
    rw [isHeld_look]
    exact h.free
  aligned := by
    rw [hasState_look, hasSlot_look, beq_eq_false_iff_ne.2 hne, Bool.false_or]
    exact h.aligned

theorem renew (h : AtRest client l) (hne : client ≠ x) (slot : Slot) (now : Nat) :
    AtRest client (l.renew x slot now) := by
  unfold Limiter.renew
  split
  · exact h
  · exact h.look hne now

theorem enter (h : AtRest client l) (hne : client ≠ x) (henter : l.enter x = some l') : AtRest client l' := by
  obtain ⟨-, -, hothers, halgorithm⟩ := isHeld_of_enter henter
  refine ⟨?_, stable_wellKept.enter h.wellKept henter, ?_, ?_⟩
  · rw [halgorithm]
    exact h.kind_ne
  · rw [hothers client hne]
    exact h.free
  · rw [hasState_congr halgorithm, hasSlot_of_enter henter]
    exact h.aligned

theorem decide (h : AtRest client l) (hne : client ≠ record.client.id) (hheld : l.isHeld record.client.id = true)
    (now : Nat) : AtRest client (l.decide record now).2 where
  kind_ne := h.kind_ne
  wellKept := stable_wellKept.decide h.wellKept hheld now
  free := h.free
  aligned := by
    rw [hasState_decide_of_ne hne]
    exact h.aligned

theorem leave (h : AtRest client l) (hne : client ≠ x) : AtRest client (l.leave x) where
  kind_ne := by
    rw [algorithm_leave]
    exact h.kind_ne
  wellKept := stable_wellKept.leave h.wellKept x
  free := by
    rw [isHeld_leave_of_ne hne]
    exact h.free
  aligned := by
    rw [hasState_leave, hasSlot_leave]
    exact h.aligned

/-- A check of another client, given that the steps inside it leave the client at rest. -/
theorem check_of_ne {subject : Subject} {keeps : Bool} {report : Report}
    (hinside : ∀ s, AtRest client s.limiter → AtRest client (runAll inside s).2.limiter)
    (hwithin : ∀ s, AtRest client s.limiter → AtRest client (runAll within s).2.limiter)
    (hchecks : Checks subject keeps inside within s report) (h : AtRest client s.limiter)
    (hne : ∀ record, subject.resolve s.book = .ok record → client ≠ record.client.id) :
    AtRest client report.after.limiter := by
  have hestimate : ∀ record, subject.resolve s.book = .ok record →
      AtRest client (s.pastEstimate record inside).limiter := by
    intro record hsubject
    unfold Station.pastEstimate
    split
    · exact hinside _ (h.look (hne record hsubject) s.clock.now)
    · exact h.look (hne record hsubject) s.clock.now
  cases hchecks with
  | unresolved hsubject => exact h
  | @settled record outcome hsubject hgate => cases outcome <;> exact h
  | @estimated record admission hsubject hgate hreading haccepts => exact hestimate record hsubject
  | @timedOut record hsubject hgate henter => exact (hestimate record hsubject).renew (hne record hsubject) ..
  | @decided record l s' hsubject hgate henter hwithin' =>
      have hne := hne record hsubject
      have hlocked : AtRest client l := ((hestimate record hsubject).renew hne ..).enter hne henter
      obtain ⟨-, hheld, -, -⟩ := isHeld_of_enter henter
      have hs' : AtRest client s'.limiter := by
        rw [hwithin']
        exact hwithin _ hlocked
      have hheld' : s'.limiter.isHeld record.client.id = true := by
        rw [hwithin']
        exact ((history_runAll within _).frame hheld).1
      exact (hs'.decide hne hheld' _).leave hne

/-! ### The client itself asks -/

/-- An estimate of state that is accepted on the slot it was made for: slot and state are both still there. -/
theorem aligned_of_accepts {admission : Admission} (h : AtRest record.client.id s.limiter)
    (hreading : s.reading record = some (some admission))
    (haccepts : (s.pastEstimate record inside).limiter.accepts record.client.id (s.slotOf record) = true) :
    (s.pastEstimate record inside).limiter.hasState record.client.id = true ∧
      (s.pastEstimate record inside).limiter.hasSlot record.client.id = true := by
  have hslot : (s.pastGate record).limiter.slots.get? record.client.id = some (s.slotOf record) :=
    get?_look s.limiter record.client.id s.clock.now
  have hstate : (s.pastGate record).limiter.hasState record.client.id = true := by
    unfold Station.reading glance at hreading
    split at hreading
    · exact absurd hreading (by simp)
    · have hkind : (s.pastGate record).limiter.algorithm.rule.kind ≠ .quota := by
        show (s.limiter.look record.client.id s.clock.now).2.algorithm.rule.kind ≠ .quota
        rw [algorithm_look]
        exact h.kind_ne
      exact Rule.isSome_of_estimate hkind (Option.some.inj hreading)
  have hwellKept : WellKept (s.pastGate record).limiter := stable_wellKept.pastGate h.wellKept record
  have hvouches : Vouches record.client.id (s.slotOf record).id (s.pastGate record).limiter :=
    ⟨hwellKept.numbered _ _ hslot, fun _ _ _ => hstate⟩
  have hlater : Vouches record.client.id (s.slotOf record).id (s.pastEstimate record inside).limiter :=
    (stable_vouches ..).history (s.history_pastEstimate record inside) hvouches
  obtain ⟨live, hlive, hsame⟩ := (Option.any_eq_true ..).1 haccepts
  rw [Bool.and_eq_true, beq_iff_eq] at hsame
  exact ⟨hlater.state live hlive hsame.1, hasSlot_of_get? hlive⟩

/-- A client at rest gets its lock. -/
theorem enter_renewed (h : AtRest record.client.id s.limiter) :
    (s.renewed record inside).enter record.client.id ≠ none := by
  intro henter
  have hslot : (s.renewed record inside).hasSlot record.client.id = true := hasSlot_renew_self ..
  have hheld := isHeld_of_enter_eq_none hslot henter
  have hfree : (s.pastGate record).limiter.isHeld record.client.id = false :=
    (isHeld_look ..).trans h.free
  have hfree' : (s.pastEstimate record inside).limiter.isHeld record.client.id = false :=
    (s.history_pastEstimate record inside).isHeld_eq_false hfree
  unfold Station.renewed at hheld
  rw [isHeld_renew, hfree'] at hheld
  exact Bool.false_ne_true hheld

/-- A decision leaves a client with state and a slot. -/
theorem aligned_of_decided (h : AtRest record.client.id s.limiter) (hlimited : record.policy.isUnrestricted = false)
    (henter : (s.renewed record inside).enter record.client.id = some l)
    (hwithin : s' = (runAll within { s.pastEstimate record inside with limiter := l }).2) (time : Nat) :
    ((s'.limiter.decide record time).2.leave record.client.id).hasState record.client.id = true ∧
      ((s'.limiter.decide record time).2.leave record.client.id).hasSlot record.client.id = true := by
  obtain ⟨-, hheld, -, -⟩ := isHeld_of_enter henter
  have hheld' : s'.limiter.isHeld record.client.id = true := by
    rw [hwithin]
    exact ((history_runAll within _).frame hheld).1
  have hkind : s'.limiter.algorithm.rule.kind ≠ .quota := by
    have hlocked := (stable_kind s.limiter.algorithm.rule.kind).enter
      ((stable_kind s.limiter.algorithm.rule.kind).renewed rfl record inside) henter
    rw [hwithin, (stable_kind _).runAll hlocked within]
    exact h.kind_ne
  rw [hasState_leave, hasSlot_leave]
  exact ⟨hasState_decide_self hkind hlimited, hasSlot_of_isHeld hheld'⟩

/-! ### Runs -/

/-- Every check leaves a client at rest, given that this holds of the steps inside it. -/
theorem check
    (hinside : ∀ s, AtRest client s.limiter → AtRest client (runAll inside s).2.limiter)
    (hwithin : ∀ s, AtRest client s.limiter → AtRest client (runAll within s).2.limiter)
    (h : AtRest client s.limiter) (subject : Subject) (keeps : Bool) :
    AtRest client ((Step.check subject keeps inside within).run s).after.limiter := by
  have hchecks := checks_run subject keeps inside within s
  have hhistory := Step.history (.check subject keeps inside within) s
  by_cases hne : ∀ record, subject.resolve s.book = .ok record → client ≠ record.client.id
  · exact check_of_ne hinside hwithin hchecks h hne
  · push Not at hne
    obtain ⟨record, hrecord, rfl⟩ := hne
    refine h.of_history hhistory ?_
    generalize (Step.check subject keeps inside within).run s = report at hchecks
    cases hchecks with
    | unresolved hsubject => exact h.aligned
    | @settled record outcome hsubject hgate => cases outcome <;> exact h.aligned
    | @estimated record admission hsubject hgate hreading haccepts =>
        obtain rfl := Except.ok.inj (hrecord.symm.trans hsubject)
        obtain ⟨hstate, hslot⟩ := h.aligned_of_accepts hreading haccepts
        exact hstate.trans hslot.symm
    | @timedOut record hsubject hgate henter =>
        obtain rfl := Except.ok.inj (hrecord.symm.trans hsubject)
        exact absurd henter h.enter_renewed
    | @decided record l s' hsubject hgate henter hwithin' =>
        obtain rfl := Except.ok.inj (hrecord.symm.trans hsubject)
        obtain ⟨-, -, hlimited⟩ := gate_eq_limited_iff.1 hgate
        obtain ⟨hstate, hslot⟩ := h.aligned_of_decided hlimited henter hwithin' _
        exact hstate.trans hslot.symm

theorem sweep (h : AtRest client s.limiter) : AtRest client (Step.sweep.run s).after.limiter := by
  refine h.of_history (Step.history .sweep s) ?_
  rw [Step.run]
  show (s.limiter.sweep s.clock.now).hasState client = (s.limiter.sweep s.clock.now).hasSlot client
  unfold hasSlot Table.contains
  rw [hasState_sweep, slots_sweep, h.aligned, List.contains_eq_mem]
  by_cases hidle : client ∈ s.limiter.idleClients s.clock.now
  · simp [hidle]
  · simp [hidle, hasSlot, Table.contains]

mutual

theorem run (step : Step) (s : Station) (h : AtRest client s.limiter) :
    AtRest client (step.run s).after.limiter :=
  match step with
  | .sweep => h.sweep
  | .move m => by
      rw [Step.run]
      exact h
  | .breaker event => by
      rw [Step.run]
      exact h
  | .check subject keeps inside within => check (runAll inside) (runAll within) h subject keeps

/-- **A client at rest is at rest after every run.** -/
theorem runAll (steps : List Step) (s : Station) (h : AtRest client s.limiter) :
    AtRest client (Limiter.runAll steps s).2.limiter :=
  match steps with
  | [] => by
      rw [Limiter.runAll]
      exact h
  | step :: rest => by
      rw [Limiter.runAll]
      exact runAll rest (step.run s).after (run step s h)

end

end AtRest

theorem atRest_ofRule {rule : Rule} (hkind : rule.kind ≠ .quota) (locking : Locking) (inactivity : Duration)
    (client : String) : AtRest client (ofRule rule locking inactivity) :=
  ⟨hkind, wellKept_ofRule rule locking inactivity, rfl, rfl⟩

/-! ## What a sweep does -/

/-- As long as times fit in a word, whole milliseconds are as good as nanoseconds. -/
theorem threshold_lt_iff {l : Limiter} {elapsed : Nat} (helapsed : elapsed ≤ Word.max) :
    l.threshold < elapsed ↔ l.inactivity.nanos < elapsed * 1000000 := by
  unfold threshold Word.saturate Duration.millis
  omega

/-- What a sweep of a limiter at `now` does, if it forgets the given clients. -/
structure Swept (l : Limiter) (now : Nat) (evicted : List String) (l' : Limiter) : Prop where
  /-- Nobody is forgotten twice. -/
  nodup : evicted.Nodup
  /-- Exactly the clients are forgotten whose lock nobody holds and that have not asked for longer than the
  limiter's time. -/
  mem_iff : ∀ client, client ∈ evicted ↔ ∃ slot, l.slots.get? client = some slot ∧ slot.isHeld = false ∧
    l.inactivity.nanos < (now - slot.lastAccess) * 1000000
  /-- So many fewer have a slot. -/
  tracked_eq : l'.tracked + evicted.length = l.tracked
  /-- Their slots and their state are gone. -/
  gone : ∀ client ∈ evicted, l'.hasSlot client = false ∧ l'.hasState client = false
  /-- The slots and the state of the others are as they were. -/
  kept : ∀ client, client ∉ evicted → l'.slots.get? client = l.slots.get? client ∧
    Algorithm.SameFor client l.algorithm l'.algorithm

theorem swept_sweep (l : Limiter) {now : Nat} (hnow : now ≤ Word.max) :
    Swept l now (l.idleClients now) (l.sweep now) where
  nodup := nodup_idleClients l now
  mem_iff := by
    intro client
    rw [mem_idleClients_iff]
    refine exists_congr fun slot => and_congr_right fun _ => ?_
    have helapsed : now - slot.lastAccess ≤ Word.max := Nat.le_trans (Nat.sub_le ..) hnow
    unfold Slot.isIdle
    rw [Bool.and_eq_true, Bool.not_eq_true', decide_eq_true_iff, threshold_lt_iff helapsed, and_comm]
  tracked_eq := tracked_sweep l now
  gone := by
    intro client hidle
    refine ⟨?_, hasState_sweep_of_mem hidle⟩
    unfold hasSlot Table.contains
    rw [slots_sweep, if_pos hidle]
    rfl
  kept := by
    intro client hstays
    refine ⟨?_, sameFor_sweep hstays⟩
    rw [slots_sweep, if_neg hstays]

/-- **Slots and state stay aligned, and a sweep is exact.**  However checks, sweeps, clock and breaker steps nest,
and to any depth:

* at every station that the run passes, every client with state has a slot;
* after the run, and so between any two of its outermost steps, a client has a slot exactly if it has state,
  behind every rule but a quota;
* a sweep at any of these stations, whose clock fits in a word, forgets exactly the clients whose lock nobody
  holds and that have not asked for longer than the time of the limiter, and reports them; it takes their slots
  and their state, and leaves the slots and the state of the others. -/
theorem slots_aligned (rule : Rule) (locking : Locking) (inactivity : Duration) (breaker : Breaker)
    (clock : Clock) (book : Table String Record) (steps : List Step) :
    let start : Station := ⟨ofRule rule locking inactivity, breaker, clock, book⟩
    (∀ s ∈ stationsOf steps start, ∀ client, s.limiter.hasState client = true → s.limiter.hasSlot client = true) ∧
      (rule.kind ≠ .quota → ∀ client,
        (runAll steps start).2.limiter.hasState client = (runAll steps start).2.limiter.hasSlot client) ∧
      ∀ s ∈ stationsOf steps start, s.clock.now ≤ Word.max →
        s.limiter.inactivity = inactivity ∧
          ∃ evicted after, Step.sweep.run s = .sweep evicted after ∧
            Swept s.limiter s.clock.now evicted after.limiter := by
  intro start
  refine ⟨?_, ?_, ?_⟩
  · intro s hs
    exact (stable_wellKept.stations steps start (wellKept_ofRule ..) s hs).slotted
  · intro hkind client
    exact (AtRest.runAll steps start (atRest_ofRule hkind locking inactivity client)).aligned
  · intro s hs hnow
    refine ⟨(stable_inactivity (· = inactivity)).stations steps start rfl s hs, ?_⟩
    exact ⟨_, _, by rw [Step.run], swept_sweep s.limiter hnow⟩

/-- Ann comes, and eight milliseconds later Bob; while Bob's lock is held, a millisecond passes and the idle are
forgotten. -/
def cleaning : List Step := [ask "ann" [], .move (.set 8), ask "bob" [.move (.set 9), .sweep]]

/-- Fixed windows of ten milliseconds, for clients that are forgotten after eight. -/
def lobby : Station :=
  ⟨ofRule (.fixedWindow (.ofMillis 10)) .standard (.ofMillis 8), .fresh ⟨5, .ofMillis 1000⟩, ⟨0⟩, Table.empty⟩

/-- Where the sweep starts: Ann has come and Bob has his lock, and the clock has moved twice. -/
def beforeSweep : Station :=
  let s := ((runAll (cleaning.take 2) lobby).2.pastLock (.fresh ⟨"bob", .standard⟩ (.limited 1) 0) [])
  { s with clock := ⟨9⟩ }

/-- Ann is forgotten, and nobody else; in the end Bob has a slot and state. -/
theorem ann_forgotten_in_cleaning :
    (runAll cleaning lobby).2.limiter.hasState "bob" = (runAll cleaning lobby).2.limiter.hasSlot "bob" ∧
      (runAll cleaning lobby).2.limiter.hasSlot "bob" = true ∧
      (runAll cleaning lobby).2.limiter.hasSlot "ann" = false ∧
      ∃ evicted after, Step.sweep.run beforeSweep = .sweep evicted after ∧ evicted = ["ann"] ∧
        after.limiter.hasState "ann" = false ∧ after.limiter.tracked + 1 = beforeSweep.limiter.tracked := by
  obtain ⟨-, haligned, hsweeps⟩ :=
    slots_aligned (.fixedWindow (.ofMillis 10)) .standard (.ofMillis 8) (.fresh ⟨5, .ofMillis 1000⟩) ⟨0⟩
      Table.empty cleaning
  have hpassed : beforeSweep ∈ stationsOf cleaning lobby := List.mem_of_getElem? (i := 17) rfl
  obtain ⟨-, evicted, after, hrun, hswept⟩ := hsweeps beforeSweep hpassed (by decide)
  have hidle : beforeSweep.limiter.idleClients 9 = ["ann"] := by decide +kernel
  have hevicted : evicted = ["ann"] := by
    rw [Step.run] at hrun
    exact (Report.sweep.inj hrun).1.symm.trans hidle
  refine ⟨haligned (by decide) "bob", by decide +kernel, by decide +kernel, evicted, after, hrun, hevicted, ?_, ?_⟩
  · exact (hswept.gone "ann" (by rw [hevicted]; decide)).2
  · have htracked := hswept.tracked_eq
    rw [hevicted] at htracked
    exact htracked

end Limiter
end AdmissionControl
