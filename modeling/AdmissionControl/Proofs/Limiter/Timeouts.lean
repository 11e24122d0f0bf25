import AdmissionControl.Proofs.Limiter.Alignment

/-!
# Which checks fail, and what they leave

A check can fail in two ways.  Its record is not sound, and then the gate turns it away.  Or somebody holds the lock
of its client, and then it gives up after some tries.  Locks are held by the checks that have not decided yet, so in
a tree of steps a check finds the lock held if and only if it runs under the lock of another check of its client.

* `Place`, `placesOf` — where the steps of a run start, and under whose locks.
* `map_beat_placesOf` — these are all the steps of the course.
* `Surrounded`, `surrounded_placesOf` — **the locks that are held at a place are those of the checks around it**, at any
  depth.
* `run_check_of_held` — a check that finds its lock held, from the look at the slot to the error.
* `ErrsExactly` — what is said of a check that fails.
* `checks_err_exactly` — **every check of every run fails for these reasons only**, and leaves the limiter untouched but
  for the time of its slot.
-/

namespace AdmissionControl
namespace Limiter

/-! ## Places -/

/-- Where a step starts in a run. -/
structure Place where
  /-- The clients under whose locks the step runs, the innermost first. -/
  around : List String
  /-- The step. -/
  step : Step
  /-- The station at which it starts. -/
  start : Station

mutual

/-- The places of one step and of the steps that run inside it: those before its decision run under the lock of its
client too. -/
def Step.places (around : List String) : Step → Station → List Place
  | .check subject keeps inside within, s =>
      let report := (Step.check subject keeps inside within).run s
      ⟨around, .check subject keeps inside within, s⟩ ::
        match subject.resolve s.book with
        | .error _ => []
        | .ok record =>
            (if report.ranInside then placesOf around inside (s.pastGate record) else []) ++
              if report.ranWithin then placesOf (record.client.id :: around) within (s.pastLock record inside)
              else []
  | .sweep, s => [⟨around, .sweep, s⟩]
  | .move m, s => [⟨around, .move m, s⟩]
  | .breaker event, s => [⟨around, .breaker event, s⟩]

/-- The places of steps one after another. -/
def placesOf (around : List String) : List Step → Station → List Place
  | [], _ => []
  | step :: rest, s => step.places around s ++ placesOf around rest (step.run s).after

end

/-- Whether a beat is the start of a step. -/
def Beat.isStart : Beat → Bool
  | starts _ _ => true
  | tells _ _ => false

/-- The beat with which a step starts at its place. -/
def Place.beat (p : Place) : Beat := .starts p.step p.start

theorem filter_isStart_tells (report : Report) : report.tells.filter Beat.isStart = [] := by
  unfold Report.tells
  split <;> rfl

mutual

theorem Step.map_beat_places (around : List String) (step : Step) (s : Station) :
    (step.places around s).map Place.beat = (step.beats s).filter Beat.isStart :=
  match step with
  | .sweep => by
      rw [Step.places, Step.beats]
      rfl
  | .move m => by
      rw [Step.places, Step.beats]
      rfl
  | .breaker event => by
      rw [Step.places, Step.beats]
      rfl
  | .check subject keeps inside within => by
      rw [Step.places, Step.beats]
      cases subject.resolve s.book with
      | error error => rfl
      | ok record =>
          simp only [List.map_cons, List.map_append, List.filter_cons, List.filter_append, filter_isStart_tells,
            List.append_nil]
          have hinside := map_beat_placesOf around inside (s.pastGate record)
          have hwithin := map_beat_placesOf (record.client.id :: around) within (s.pastLock record inside)
          congr 1
          congr 1
          · split
            · exact hinside
            · rfl
          · split
            · exact hwithin
            · rfl

/-- **The places of a run are where the steps of its course start.** -/
theorem map_beat_placesOf (around : List String) (steps : List Step) (s : Station) :
    (placesOf around steps s).map Place.beat = (beatsOf steps s).filter Beat.isStart :=
  match steps with
  | [] => by
      rw [placesOf, beatsOf]
      rfl
  | step :: rest => by
      rw [placesOf, beatsOf, List.map_append, List.filter_append, step.map_beat_places around s,
        map_beat_placesOf around rest (step.run s).after]

end

/-! ## Locks around a place -/

/-- What is set for locks stays. -/
theorem stable_locking (locking : Locking) : Stable fun l => l.locking = locking where
  look := by
    intro l h client now
    unfold look
    split
    · exact h
    · exact h
  sweep := fun h _ => h
  stamp := fun h _ => h
  decide := fun h _ _ => h

/-- **When everything is over, the same locks are held as before.** -/
theorem History.isHeld_eq {s s' : Station} {moments : List Moment} (h : History s moments s') (client : String) :
    s'.limiter.isHeld client = s.limiter.isHeld client := by
  cases hheld : s.limiter.isHeld client with
  | true => exact (h.frame hheld).1
  | false => exact h.isHeld_eq_false hheld

/-- The locks of these clients are held, and no others. -/
structure Surrounded (locking : Locking) (around : List String) (s : Station) : Prop where
  /-- Whose locks are held. -/
  held : ∀ client, s.limiter.isHeld client = true ↔ client ∈ around
  /-- How locks are tried. -/
  locking_eq : s.limiter.locking = locking

namespace Surrounded

variable {locking : Locking} {around : List String} {s s' : Station} {record : Record} {inside : List Step}
  {l : Limiter}

theorem ofRule (rule : Rule) (locking : Locking) (inactivity : Duration) (breaker : Breaker) (clock : Clock)
    (book : Table String Record) :
    Surrounded locking [] ⟨Limiter.ofRule rule locking inactivity, breaker, clock, book⟩ :=
  ⟨fun client => iff_of_false (by exact Bool.false_ne_true) List.not_mem_nil, rfl⟩

theorem history (h : Surrounded locking around s) {moments : List Moment} (hhistory : History s moments s') :
    Surrounded locking around s' where
  held client := by
    rw [hhistory.isHeld_eq client]
    exact h.held client
  locking_eq := (stable_locking locking).history hhistory h.locking_eq

theorem pastGate (h : Surrounded locking around s) (record : Record) :
    Surrounded locking around (s.pastGate record) where
  held client := by
    show (s.limiter.look record.client.id s.clock.now).2.isHeld client = true ↔ _
    rw [isHeld_look]
    exact h.held client
  locking_eq := (stable_locking locking).pastGate h.locking_eq record

theorem pastEstimate (h : Surrounded locking around s) (record : Record) (inside : List Step) :
    Surrounded locking around (s.pastEstimate record inside) :=
  (h.pastGate record).history (s.history_pastEstimate record inside)

/-- Under the lock of a check, its client's lock is held as well. -/
theorem pastLock (h : Surrounded locking around s)
    (henter : (s.renewed record inside).enter record.client.id = some l) :
    Surrounded locking (record.client.id :: around) (s.pastLock record inside) where
  held client := by
    obtain ⟨-, hheld, hothers, -⟩ := isHeld_of_enter henter
    rw [Station.pastLock_of_enter henter, List.mem_cons]
    by_cases hclient : client = record.client.id
    · rw [hclient]
      exact iff_of_true hheld (.inl rfl)
    · rw [or_iff_right hclient]
      show l.isHeld client = true ↔ _
      rw [hothers client hclient, Station.renewed, isHeld_renew]
      exact (h.pastEstimate record inside).held client
  locking_eq := (stable_locking locking).pastLock h.locking_eq record inside

/-- A check that steps ran in before its decision had its lock. -/
theorem pastLock_of_ranWithin {subject : Subject} {keeps : Bool} {within : List Step}
    (h : Surrounded locking around s) (hsubject : subject.resolve s.book = .ok record)
    (hran : ((Step.check subject keeps inside within).run s).ranWithin = true) :
    Surrounded locking (record.client.id :: around) (s.pastLock record inside) := by
  have hchecks := checks_run subject keeps inside within s
  generalize (Step.check subject keeps inside within).run s = report at hchecks hran
  cases hchecks with
  | unresolved hsubject' => exact absurd hran (by simp [Report.ranWithin])
  | settled hsubject' hgate => exact absurd hran (by simp [Report.ranWithin])
  | estimated hsubject' hgate hreading haccepts => exact absurd hran (by simp [Report.ranWithin])
  | timedOut hsubject' hgate henter => exact absurd hran (by simp [Report.ranWithin])
  | decided hsubject' hgate henter hwithin =>
      obtain rfl := Except.ok.inj (hsubject.symm.trans hsubject')
      exact h.pastLock henter

end Surrounded

mutual

theorem Step.surrounded_places {locking : Locking} {around : List String} (step : Step) (s : Station)
    (h : Surrounded locking around s) : ∀ p ∈ step.places around s, Surrounded locking p.around p.start :=
  match step with
  | .sweep => by
      intro p hp
      rw [Step.places, List.mem_singleton] at hp
      rw [hp]
      exact h
  | .move m => by
      intro p hp
      rw [Step.places, List.mem_singleton] at hp
      rw [hp]
      exact h
  | .breaker event => by
      intro p hp
      rw [Step.places, List.mem_singleton] at hp
      rw [hp]
      exact h
  | .check subject keeps inside within => by
      intro p hp
      rw [Step.places] at hp
      rcases List.mem_cons.1 hp with rfl | hp
      · exact h
      cases hsubject : subject.resolve s.book with
      | error error =>
          rw [hsubject] at hp
          exact absurd hp List.not_mem_nil
      | ok record =>
          rw [hsubject] at hp
          rcases List.mem_append.1 hp with hp | hp
          · split at hp
            · exact surrounded_placesOf inside _ (h.pastGate record) p hp
            · exact absurd hp List.not_mem_nil
          · split at hp
            · rename_i hran
              exact surrounded_placesOf within _ (h.pastLock_of_ranWithin hsubject hran) p hp
            · exact absurd hp List.not_mem_nil

/-- **At every place of a run, the locks of the clients around it are held**, and no others, if that is so at its
start. -/
theorem surrounded_placesOf {locking : Locking} {around : List String} (steps : List Step) (s : Station)
    (h : Surrounded locking around s) : ∀ p ∈ placesOf around steps s, Surrounded locking p.around p.start :=
  match steps with
  | [] => by
      intro p hp
      rw [placesOf] at hp
      exact absurd hp List.not_mem_nil
  | step :: rest => by
      intro p hp
      rw [placesOf] at hp
      rcases List.mem_append.1 hp with hp | hp
      · exact step.surrounded_places s h p hp
      · exact surrounded_placesOf rest _ (h.history (step.history s)) p hp

end

/-! ## What a check fails for -/

variable {subject : Subject} {keeps : Bool} {inside within : List Step} {s : Station} {record : Record} {slot : Slot}

/-- A record is not sound if its client's name is blank or its policy allows nothing; the name comes first. -/
theorem fault?_eq_some_iff {fault : InputFault} :
    record.fault? = some fault ↔
      Text.isBlankText record.client.id = true ∧ fault = .blankClient ∨
        Text.isBlankText record.client.id = false ∧ record.policy = .limited 0 ∧ fault = .zeroRate := by
  unfold Record.fault?
  cases Text.isBlankText record.client.id with
  | true => simp [eq_comm]
  | false =>
      cases record.policy with
      | unrestricted => simp [Policy.isValid]
      | limited rate =>
          by_cases hrate : rate = 0
          · simp [Policy.isValid, hrate, eq_comm]
          · simp [Policy.isValid, hrate]

/-- A record that is not sound is turned away before anything is touched. -/
theorem run_check_of_fault {fault : InputFault} (hsubject : subject.resolve s.book = .ok record)
    (hfault : record.fault? = some fault) :
    (Step.check subject keeps inside within).run s = .check .settled (.error (.invalid fault)) none none s := by
  have hgate : gate record s.breaker s.clock.now = (.settled (.error (.invalid fault)), s.breaker) := by
    rw [gate, hfault]
  rw [Step.run, hsubject]
  dsimp only
  rw [hgate]
  rfl

theorem look_of_get? {l : Limiter} {client : String} {now : Nat} (h : l.slots.get? client = some slot) :
    l.look client now = (slot.touch now, { l with slots := l.slots.set client (slot.touch now) }) := by
  rw [look, h]

/-- **A check that finds its lock held gives up.**  It has asked for its slot, so that the slot may have a later time
now, and it has asked the breaker; it reads nothing, nothing runs inside it, and nobody is told an outcome. -/
theorem run_check_of_held (hsubject : subject.resolve s.book = .ok record)
    (hpasses : PassesGate record s.breaker s.clock.now) (hslot : s.limiter.slots.get? record.client.id = some slot)
    (hheld : slot.isHeld = true) :
    (Step.check subject keeps inside within).run s =
      .check .timedOut (.error (s.limiter.lockTimeout record.client.id)) none none
        { s with
          limiter := { s.limiter with
            slots := s.limiter.slots.set record.client.id (slot.touch s.clock.now) }
          breaker := (s.breaker.query s.clock.now).2 } := by
  have hgate : gate record s.breaker s.clock.now = (.limited, (s.breaker.query s.clock.now).2) := by
    refine Prod.ext (gate_eq_limited_iff.2 hpasses) ?_
    rw [breaker_gate, hpasses.1]
    rfl
  have htouched : (slot.touch s.clock.now).isHeld = true := hheld
  rw [Step.run, hsubject]
  dsimp only
  rw [hgate]
  dsimp only
  rw [look_of_get? hslot]
  simp [glance, htouched, Limiter.renew, isLive, enter, lockTimeout]

/-- **A check fails for one of two reasons.** -/
theorem cases_of_error {error : Error} (hsubject : subject.resolve s.book = .ok record)
    (h : ((Step.check subject keeps inside within).run s).outcome? = some (.error error)) :
    (∃ fault, record.fault? = some fault ∧ error = .invalid fault) ∨
      PassesGate record s.breaker s.clock.now ∧ s.limiter.isHeld record.client.id = true := by
  have hchecks := checks_run subject keeps inside within s
  generalize (Step.check subject keeps inside within).run s = report at hchecks h
  cases hchecks with
  | unresolved hsubject' => exact absurd (hsubject.symm.trans hsubject') (by simp)
  | @settled record' outcome hsubject' hgate =>
      obtain rfl := Except.ok.inj (hsubject.symm.trans hsubject')
      obtain rfl : outcome = .error error := Option.some.inj h
      exact .inl (fault_of_gate hgate)
  | estimated hsubject' hgate hreading haccepts => exact absurd h (by simp [Report.outcome?])
  | @timedOut record' hsubject' hgate henter =>
      obtain rfl := Except.ok.inj (hsubject.symm.trans hsubject')
      refine .inr ⟨gate_eq_limited_iff.1 hgate, ?_⟩
      have hslot : (s.renewed record inside).hasSlot record.client.id = true := hasSlot_renew_self ..
      have hheld := isHeld_of_enter_eq_none hslot henter
      rw [Station.renewed, isHeld_renew, (s.history_pastEstimate record inside).isHeld_eq] at hheld
      exact (isHeld_look s.limiter record.client.id s.clock.now record.client.id) ▸ hheld
  | decided hsubject' hgate henter hwithin => exact absurd h (by simp [Report.outcome?])

/-! ## In every run -/

/-- What is said of a check of a record, which has started under these locks and come to this report. -/
structure ErrsExactly (locking : Locking) (around : List String) (record : Record) (start : Station)
    (report : Report) : Prop where
  /-- It is turned away as invalid if and only if its record is not sound. -/
  invalid_iff : ∀ fault, report.outcome? = some (.error (.invalid fault)) ↔ record.fault? = some fault
  /-- Then nothing runs inside it, and the whole station is as it was. -/
  invalid : ∀ fault, record.fault? = some fault →
    report = .check .settled (.error (.invalid fault)) none none start
  /-- It does not get its lock if and only if it comes past the gate and runs under that lock already. -/
  timesOut_iff : (∃ client retries timeout, report.outcome? = some (.error (.lockTimeout client retries timeout))) ↔
    PassesGate record start.breaker start.clock.now ∧ record.client.id ∈ around
  /-- Then it names its client and the tries that are set.  Nothing runs inside it, and it leaves the station as it
  was, but for the time of its slot and the transition that comes of asking the breaker. -/
  timedOut : ∀ client retries timeout, report.outcome? = some (.error (.lockTimeout client retries timeout)) →
    report.told? = none ∧
      ∃ slot, start.limiter.slots.get? record.client.id = some slot ∧
        report = .check .timedOut
          (.error (.lockTimeout record.client.id locking.retries locking.timeout)) none none
          { start with
            limiter := { start.limiter with
              slots := start.limiter.slots.set record.client.id (slot.touch start.clock.now) }
            breaker := (start.breaker.query start.clock.now).2 }
  /-- It fails for no other reason. -/
  only : ∀ error, report.outcome? = some (.error error) → error.isInvalid = true ∨ error.isLockTimeout = true

/-- A check at a place of which the locks are known. -/
theorem Surrounded.errsExactly {locking : Locking} {around : List String} (h : Surrounded locking around s)
    (hsubject : subject.resolve s.book = .ok record) :
    ErrsExactly locking around record s ((Step.check subject keeps inside within).run s) := by
  -- under a lock of its own client, a check that comes past the gate gives up
  have hgivesUp : PassesGate record s.breaker s.clock.now → record.client.id ∈ around →
      ∃ slot, s.limiter.slots.get? record.client.id = some slot ∧
        (Step.check subject keeps inside within).run s = .check .timedOut
          (.error (.lockTimeout record.client.id locking.retries locking.timeout)) none none
          { s with
            limiter := { s.limiter with
              slots := s.limiter.slots.set record.client.id (slot.touch s.clock.now) }
            breaker := (s.breaker.query s.clock.now).2 } := by
    intro hpasses haround
    obtain ⟨slot, hslot, hheld⟩ := (Option.any_eq_true ..).1 ((h.held record.client.id).2 haround)
    have hrun : (Step.check subject keeps inside within).run s = _ := run_check_of_held hsubject hpasses hslot hheld
    rw [lockTimeout, h.locking_eq] at hrun
    exact ⟨slot, hslot, hrun⟩
  -- and whoever does not get the lock runs under it
  have hunder : ∀ client retries timeout,
      ((Step.check subject keeps inside within).run s).outcome? = some (.error (.lockTimeout client retries timeout)) →
        PassesGate record s.breaker s.clock.now ∧ record.client.id ∈ around := by
    intro client retries timeout htimedOut
    rcases cases_of_error hsubject htimedOut with ⟨fault, -, hinvalid⟩ | ⟨hpasses, hheld⟩
    · exact absurd hinvalid (by simp)
    · exact ⟨hpasses, (h.held record.client.id).1 hheld⟩
  refine ⟨fun fault => ⟨fun hinvalid => ?_, fun hfault => ?_⟩, fun fault hfault => run_check_of_fault hsubject hfault,
    ⟨?_, ?_⟩, ?_, ?_⟩
  · rcases cases_of_error hsubject hinvalid with ⟨fault', hfault, hsame⟩ | ⟨hpasses, hheld⟩
    · rw [hfault, Error.invalid.inj hsame]
    · obtain ⟨slot, -, hrun⟩ := hgivesUp hpasses ((h.held record.client.id).1 hheld)
      rw [hrun] at hinvalid
      exact absurd hinvalid (by simp [Report.outcome?])
  · rw [run_check_of_fault hsubject hfault]
    rfl
  · rintro ⟨client, retries, timeout, htimedOut⟩
    exact hunder client retries timeout htimedOut
  · rintro ⟨hpasses, haround⟩
    obtain ⟨slot, -, hrun⟩ := hgivesUp hpasses haround
    exact ⟨_, _, _, by rw [hrun]; rfl⟩
  · intro client retries timeout htimedOut
    obtain ⟨hpasses, haround⟩ := hunder client retries timeout htimedOut
    obtain ⟨slot, hslot, hrun⟩ := hgivesUp hpasses haround
    exact ⟨by rw [hrun]; rfl, slot, hslot, hrun⟩
  · intro error herror
    rcases cases_of_error hsubject herror with ⟨fault, -, rfl⟩ | ⟨hpasses, hheld⟩
    · exact .inl rfl
    · obtain ⟨slot, -, hrun⟩ := hgivesUp hpasses ((h.held record.client.id).1 hheld)
      rw [hrun] at herror
      obtain rfl := Except.error.inj (Option.some.inj herror)
      exact .inr rfl

/-- **Every check of every run fails for these reasons only, and leaves decisions untouched.**  In every tree of steps
on a new limiter, before any breaker and at any depth:

* the places are those at which the steps of the course start;
* a record is not sound if and only if its client's name is blank or its policy is a limit of zero;
* a check whose record is not sound is turned away as invalid, and it alone; the station stays as it was;
* a check does not get its lock if and only if its record is sound and has a limit, the breaker lets it through, and
  it runs before the decision of another check of its client, however far inside; it is told how often a lock is
  tried, and it leaves nothing but a later time in its slot and what came of asking the breaker;
* no check fails otherwise. -/
theorem checks_err_exactly (rule : Rule) (locking : Locking) (inactivity : Duration) (breaker : Breaker)
    (clock : Clock) (book : Table String Record) (steps : List Step) :
    (placesOf [] steps ⟨ofRule rule locking inactivity, breaker, clock, book⟩).map Place.beat =
        (beatsOf steps ⟨ofRule rule locking inactivity, breaker, clock, book⟩).filter Beat.isStart ∧
      (∀ (record : Record) fault, record.fault? = some fault ↔
        Text.isBlankText record.client.id = true ∧ fault = .blankClient ∨
          Text.isBlankText record.client.id = false ∧ record.policy = .limited 0 ∧ fault = .zeroRate) ∧
      ∀ around subject keeps inside within start record,
        ⟨around, .check subject keeps inside within, start⟩ ∈
          placesOf [] steps ⟨ofRule rule locking inactivity, breaker, clock, book⟩ →
        subject.resolve start.book = .ok record →
          ErrsExactly locking around record start ((Step.check subject keeps inside within).run start) := by
  refine ⟨map_beat_placesOf [] steps _, fun record fault => fault?_eq_some_iff, ?_⟩
  intro around subject keeps inside within start record hplace hsubject
  have hsurrounded := surrounded_placesOf steps _ (.ofRule rule locking inactivity breaker clock book) _ hplace
  exact hsurrounded.errsExactly hsubject

/-- Bob asks while ann has the lock, and while he has his own, ann asks again, and somebody without a name. -/
def tangle : List Step := [ask "ann" [ask "bob" [ask "ann" [], ask " " []]]]

/-- The station of ann's second check and of the one after it. -/
def deepInside : Station :=
  (turnstile.pastLock (.fresh ⟨"ann", .standard⟩ (.limited 1) 0) []).pastLock
    (.fresh ⟨"bob", .standard⟩ (.limited 1) 0) []

/-- Ann does not get the lock that she holds two checks further out, after three tries of five seconds, and the nameless
client is turned away. -/
theorem ann_times_out_in_tangle :
    (placesOf [] tangle turnstile)[2]? = some ⟨["bob", "ann"], ask "ann" [], deepInside⟩ ∧
      (placesOf [] tangle turnstile)[3]? = some ⟨["bob", "ann"], ask " " [], ((ask "ann" []).run deepInside).after⟩ ∧
      ((ask "ann" []).run deepInside).outcome? = some (.error (.lockTimeout "ann" 3 (Duration.ofParts 5 0))) ∧
      ((ask " " []).run ((ask "ann" []).run deepInside).after).outcome? = some (.error (.invalid .blankClient)) := by
  obtain ⟨-, -, hchecks⟩ := checks_err_exactly (.fixedWindow (.ofMillis 10)) .standard (.ofMillis 50)
    (.fresh ⟨1, .ofMillis 5⟩) ⟨0⟩ Table.empty tangle
  have hann : (placesOf [] tangle turnstile)[2]? = some ⟨["bob", "ann"], ask "ann" [], deepInside⟩ := rfl
  have hnameless : (placesOf [] tangle turnstile)[3]? =
      some ⟨["bob", "ann"], ask " " [], ((ask "ann" []).run deepInside).after⟩ := rfl
  have herrs := hchecks _ _ _ _ _ _ _ (List.mem_of_getElem? hann) rfl
  have herrs' := hchecks _ _ _ _ _ _ _ (List.mem_of_getElem? hnameless) rfl
  refine ⟨hann, hnameless, ?_, (herrs'.invalid_iff .blankClient).2 (by decide +kernel)⟩
  obtain ⟨client, retries, timeout, htimedOut⟩ := herrs.timesOut_iff.2
    ⟨⟨by decide +kernel, by decide +kernel, rfl⟩, by decide⟩
  obtain ⟨-, slot, -, hrun⟩ := herrs.timedOut client retries timeout htimedOut
  exact congrArg Report.outcome? hrun

end Limiter
end AdmissionControl
