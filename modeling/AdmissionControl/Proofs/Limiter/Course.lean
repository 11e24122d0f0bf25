import AdmissionControl.Limiter.Nested
import AdmissionControl.Proofs.Breaker.History

/-!
# The course of a run

A run nests: steps run inside the checks of other callers.  Its course is one list of beats in the order in
which they came: every step, at any depth, stands there with the station at which it started, and every
check that the algorithm has answered stands there once more, where it told the breaker its outcome.

* `Checks`, `checks_run` — what a check can come to, case by case: no later proof opens `Step.run` for it.
* `beatsOf` — the course of a run.
* `follows_beatsOf` — **the breaker hears the course**: at the start of every step, and at the end of the run,
  the breaker is the one that has heard exactly the beats before.
* `map_note_beatsOf` — the course is what the reports of the run tell, in their order.
-/

namespace AdmissionControl
namespace Limiter

/-! ## What a check comes to -/

namespace Station

variable (s : Station) (record : Record) (inside : List Step)

/-- The slot that a check finds or makes. -/
def slotOf : Slot := (s.limiter.look record.client.id s.clock.now).1

/-- The station when the gate has let a check through and the check has its slot. -/
def pastGate : Station :=
  { s with
    limiter := (s.limiter.look record.client.id s.clock.now).2
    breaker := (gate record s.breaker s.clock.now).2 }

/-- What a check reads of the algorithm without the lock, if nobody holds it. -/
def reading : Option (Option Admission) :=
  (s.pastGate record).limiter.glance (s.slotOf record) record s.clock.now

/-- The reports of the steps after the estimate, which run only where one was read. -/
def insideReports : Option (List Report) :=
  if (s.reading record).isSome then some (runAll inside (s.pastGate record)).1 else none

/-- The station when these steps are over. -/
def pastEstimate : Station :=
  if (s.reading record).isSome then (runAll inside (s.pastGate record)).2 else s.pastGate record

/-- The limiter in which a check that was not answered by its estimate asks for the lock. -/
def renewed : Limiter :=
  (s.pastEstimate record inside).limiter.renew record.client.id (s.slotOf record)
    (s.pastEstimate record inside).clock.now

end Station

/-- What a check can come to, and what it reports then. -/
inductive Checks (subject : Subject) (keeps : Bool) (inside within : List Step) (s : Station) :
    Report → Prop
  /-- There is no record to check. -/
  | unresolved {error : Error} (hsubject : subject.resolve s.book = .error error) :
      Checks subject keeps inside within s (.check .settled (.error error) none none s)
  /-- The gate settles the check. -/
  | settled {record : Record} {outcome : Except Error Admission}
      (hsubject : subject.resolve s.book = .ok record)
      (hgate : (gate record s.breaker s.clock.now).1 = .settled outcome) :
      Checks subject keeps inside within s
        (.check .settled outcome none none
          (s.settle (gate record s.breaker s.clock.now).2 subject keeps outcome))
  /-- An estimate was read, and nobody decided while others went on. -/
  | estimated {record : Record} {admission : Admission}
      (hsubject : subject.resolve s.book = .ok record)
      (hgate : (gate record s.breaker s.clock.now).1 = .limited)
      (hreading : s.reading record = some (some admission))
      (haccepts : (s.pastEstimate record inside).limiter.accepts record.client.id
        (s.slotOf record) = true) :
      Checks subject keeps inside within s
        (.check (.estimated record s.clock.now) (.ok admission) (s.insideReports record inside) none
          ((s.pastEstimate record inside).conclude subject keeps admission))
  /-- Somebody holds the lock. -/
  | timedOut {record : Record} (hsubject : subject.resolve s.book = .ok record)
      (hgate : (gate record s.breaker s.clock.now).1 = .limited)
      (henter : (s.renewed record inside).enter record.client.id = none) :
      Checks subject keeps inside within s
        (.check .timedOut (.error ((s.renewed record inside).lockTimeout record.client.id))
          (s.insideReports record inside) none
          { s.pastEstimate record inside with limiter := s.renewed record inside })
  /-- The algorithm decides under the lock, after others went on. -/
  | decided {record : Record} {l : Limiter} {s' : Station}
      (hsubject : subject.resolve s.book = .ok record)
      (hgate : (gate record s.breaker s.clock.now).1 = .limited)
      (henter : (s.renewed record inside).enter record.client.id = some l)
      (hwithin : s' = (runAll within { s.pastEstimate record inside with limiter := l }).2) :
      Checks subject keeps inside within s
        (.check (.decided record (s.pastEstimate record inside).clock.now)
          (.ok (s'.limiter.decide record (s.pastEstimate record inside).clock.now).1)
          (s.insideReports record inside)
          (some (runAll within { s.pastEstimate record inside with limiter := l }).1)
          ({ s' with
            limiter :=
              (s'.limiter.decide record (s.pastEstimate record inside).clock.now).2.leave
                record.client.id }.conclude subject keeps
            (s'.limiter.decide record (s.pastEstimate record inside).clock.now).1))

/-- **A check comes to one of these.** -/
theorem checks_run (subject : Subject) (keeps : Bool) (inside within : List Step) (s : Station) :
    Checks subject keeps inside within s ((Step.check subject keeps inside within).run s) := by
  rw [Step.run]
  cases hsubject : subject.resolve s.book with
  | error error => exact .unresolved hsubject
  | ok record =>
      dsimp only
      rcases hgate : gate record s.breaker s.clock.now with ⟨g, breaker⟩
      cases g with
      | settled outcome =>
          obtain rfl : (gate record s.breaker s.clock.now).2 = breaker := congrArg Prod.snd hgate
          exact .settled hsubject (congrArg Prod.fst hgate)
      | limited =>
          obtain rfl : (gate record s.breaker s.clock.now).2 = breaker := congrArg Prod.snd hgate
          have hlimited : (gate record s.breaker s.clock.now).1 = .limited := congrArg Prod.fst hgate
          have hran : (if ((s.limiter.look record.client.id s.clock.now).2.glance
                (s.limiter.look record.client.id s.clock.now).1 record s.clock.now).isSome = true then
                (some (runAll inside (s.pastGate record)).1, (runAll inside (s.pastGate record)).2)
              else (none, s.pastGate record) : Option (List Report) × Station) =
              (s.insideReports record inside, s.pastEstimate record inside) := by
            rw [Station.insideReports, Station.pastEstimate]
            by_cases hreading : (s.reading record).isSome = true
            · rw [if_pos hreading, if_pos hreading]
              exact if_pos hreading
            · rw [if_neg hreading, if_neg hreading]
              exact if_neg hreading
          rw [Station.pastGate] at hran
          dsimp only
          rw [hran]
          split
          · rename_i admission hreading haccepts
            exact .estimated hsubject hlimited (Option.join_eq_some_iff.1 hreading) haccepts
          · split
            · rename_i henter
              exact .timedOut hsubject hlimited henter
            · rename_i l henter
              exact .decided hsubject hlimited henter rfl

/-! ## Beats -/

/-- One beat of a run. -/
inductive Beat
  /-- A step starts at a station. -/
  | starts (step : Step) (start : Station)
  /-- A check tells the breaker at the given time whether the algorithm has admitted it. -/
  | tells (isAllowed : Bool) (time : Nat)

namespace Report

/-- Whether the steps after the estimate of a check ran. -/
def ranInside : Report → Bool
  | check _ _ inside _ _ => inside.isSome
  | sweep .. | move .. | breaker .. => false

/-- Whether the steps under the lock of a check ran. -/
def ranWithin : Report → Bool
  | check _ _ _ within _ => within.isSome
  | sweep .. | move .. | breaker .. => false

/-- The outcome that a check tells the breaker: the admission or denial, if the algorithm has answered. -/
def told? : Report → Option Bool
  | check (.estimated ..) (.ok admission) _ _ _ => some admission.isAllowed
  | check (.decided ..) (.ok admission) _ _ _ => some admission.isAllowed
  | check .. | sweep .. | move .. | breaker .. => none

/-- The beat at which a check tells the breaker. -/
def tells (report : Report) : List Beat :=
  match report.told? with
  | some isAllowed => [.tells isAllowed report.after.clock.now]
  | none => []

end Report

/-- The station when a check that was not answered by its estimate has asked for the lock. -/
def Station.pastLock (s : Station) (record : Record) (inside : List Step) : Station :=
  { s.pastEstimate record inside with
    limiter := ((s.renewed record inside).enter record.client.id).getD (s.renewed record inside) }

mutual

/-- The beats of one step, with those of the steps that run inside it. -/
def Step.beats : Step → Station → List Beat
  | .check subject keeps inside within, s =>
      let report := (Step.check subject keeps inside within).run s
      .starts (.check subject keeps inside within) s ::
        match subject.resolve s.book with
        | .error _ => []
        | .ok record =>
            (if report.ranInside then beatsOf inside (s.pastGate record) else []) ++
              ((if report.ranWithin then beatsOf within (s.pastLock record inside) else []) ++
                report.tells)
  | .sweep, s => [.starts .sweep s]
  | .move m, s => [.starts (.move m) s]
  | .breaker event, s => [.starts (.breaker event) s]

/-- The beats of steps one after another. -/
def beatsOf : List Step → Station → List Beat
  | [], _ => []
  | step :: rest, s => step.beats s ++ beatsOf rest (step.run s).after

end

/-! ## What the breaker hears -/

/-- What a beat is to the breaker: a check with a sound record asks it, and a check that was answered by the
algorithm tells it. -/
def Beat.moment? : Beat → Option Breaker.Moment
  | .starts (.check subject _ _ _) s =>
      match subject.resolve s.book with
      | .error _ => none
      | .ok record => if record.fault?.isNone then some ⟨s.clock.now, .query⟩ else none
  | .starts (.breaker event) s => some ⟨s.clock.now, event⟩
  | .starts .sweep _ | .starts (.move _) _ => none
  | .tells isAllowed time => some ⟨time, if isAllowed then .success else .failure⟩

/-- What the breaker hears in a course. -/
def heard (beats : List Beat) : List Breaker.Moment := beats.filterMap Beat.moment?

theorem heard_append (early late : List Beat) : heard (early ++ late) = heard early ++ heard late :=
  List.filterMap_append

/-- Every step starts with a breaker that has heard exactly the beats before. -/
def Threaded (b : Breaker) : List Beat → Prop
  | [] => True
  | beat :: rest =>
      (∀ step start, beat = .starts step start → start.breaker = b) ∧
        Threaded (b.run (heard [beat])) rest

theorem threaded_append {b : Breaker} {early late : List Beat} :
    Threaded b (early ++ late) ↔ Threaded b early ∧ Threaded (b.run (heard early)) late := by
  induction early generalizing b with
  | nil => exact (true_and _).symm.to_iff
  | cons beat rest ih =>
      have hheard : b.run (heard (beat :: rest)) = (b.run (heard [beat])).run (heard rest) := by
        rw [← Breaker.run_append, ← heard_append]
        rfl
      rw [List.cons_append, Threaded, Threaded, ih, hheard, and_assoc]

/-- The breaker on the way from one station to another: it has heard the beats, and every step on the way
starts with the breaker as it was by then. -/
structure Follows (s : Station) (beats : List Beat) (s' : Station) : Prop where
  /-- On the way. -/
  threaded : Threaded s.breaker beats
  /-- In the end. -/
  heard_eq : s'.breaker = s.breaker.run (heard beats)

namespace Follows

variable {s s' s'' : Station} {early late : List Beat}

theorem nil (h : s'.breaker = s.breaker) : Follows s [] s' := ⟨trivial, h⟩

theorem append (h : Follows s early s') (h' : Follows s' late s'') : Follows s (early ++ late) s'' := by
  obtain ⟨hthreaded, hheard⟩ := h
  obtain ⟨hthreaded', hheard'⟩ := h'
  rw [hheard] at hthreaded' hheard'
  refine ⟨threaded_append.2 ⟨hthreaded, hthreaded'⟩, ?_⟩
  rw [hheard', heard_append, Breaker.run_append]

/-- A step starts, and the breaker hears of it at once. -/
theorem start {step : Step} (h : s'.breaker = s.breaker.run (heard [.starts step s])) :
    Follows s [.starts step s] s' := by
  refine ⟨⟨fun step' start hstart => ?_, trivial⟩, h⟩
  obtain ⟨-, rfl⟩ := Beat.starts.inj hstart
  rfl

theorem tells {isAllowed : Bool}
    (h : s'.breaker = s.breaker.observe isAllowed s.clock.now) :
    Follows s [.tells isAllowed s.clock.now] s' := by
  refine ⟨⟨fun step start hstart => Beat.noConfusion hstart, trivial⟩, ?_⟩
  rw [h]
  cases isAllowed with
  | true => rfl
  | false => rfl

end Follows

theorem breaker_gate {record : Record} (b : Breaker) (now : Nat) :
    (gate record b now).2 = if record.fault?.isNone then (b.query now).2 else b := by
  rw [gate]
  cases record.fault? with
  | some fault => rfl
  | none =>
      rcases b.query now with ⟨yes, b'⟩
      cases yes with
      | false => rfl
      | true => cases record.policy.isUnrestricted <;> rfl

/-- The gate fails for a record that is not sound, and for nothing else. -/
theorem fault_of_gate {record : Record} {b : Breaker} {now : Nat} {error : Error}
    (h : (gate record b now).1 = .settled (.error error)) :
    ∃ fault, record.fault? = some fault ∧ error = .invalid fault := by
  rw [gate] at h
  cases hfault : record.fault? with
  | some fault =>
      rw [hfault] at h
      exact ⟨fault, rfl, (Except.error.inj (Gate.settled.inj h)).symm⟩
  | none =>
      rw [hfault] at h
      dsimp only at h
      split at h
      · exact absurd h (by simp)
      · split at h <;> exact absurd h (by simp)

/-- What the breaker hears of the start of a check is what the gate does to it. -/
theorem run_heard_check {subject : Subject} {keeps : Bool} {inside within : List Step} {s : Station}
    {record : Record} (h : subject.resolve s.book = .ok record) :
    s.breaker.run (heard [.starts (.check subject keeps inside within) s]) =
      (gate record s.breaker s.clock.now).2 := by
  rw [breaker_gate, heard, List.filterMap_cons, List.filterMap_nil, Beat.moment?, h]
  cases hsound : record.fault?.isNone with
  | true =>
      dsimp only
      rw [hsound]
      rfl
  | false =>
      dsimp only
      rw [hsound]
      rfl

/-! ## The breaker hears the course -/

namespace Station

variable {s : Station} {record : Record} {inside : List Step} {l : Limiter}

theorem follows_pastEstimate (hinside : ∀ s, Follows s (beatsOf inside s) (runAll inside s).2) :
    Follows (s.pastGate record)
      (if (s.insideReports record inside).isSome then beatsOf inside (s.pastGate record) else [])
      (s.pastEstimate record inside) := by
  rw [insideReports, pastEstimate]
  by_cases hreading : (s.reading record).isSome = true
  · rw [if_pos hreading, if_pos hreading]
    exact hinside (s.pastGate record)
  · rw [if_neg hreading, if_neg hreading]
    exact .nil rfl

theorem pastLock_of_enter (h : (s.renewed record inside).enter record.client.id = some l) :
    s.pastLock record inside = { s.pastEstimate record inside with limiter := l } := by
  rw [pastLock, h, Option.getD_some]

end Station

/-- The breaker follows a check, given that it follows the steps inside it. -/
theorem follows_check {inside within : List Step}
    (hinside : ∀ s, Follows s (beatsOf inside s) (runAll inside s).2)
    (hwithin : ∀ s, Follows s (beatsOf within s) (runAll within s).2)
    (subject : Subject) (keeps : Bool) (s : Station) :
    Follows s ((Step.check subject keeps inside within).beats s)
      ((Step.check subject keeps inside within).run s).after := by
  have hchecks := checks_run subject keeps inside within s
  rw [Step.beats]
  generalize (Step.check subject keeps inside within).run s = report at hchecks
  cases hchecks with
  | unresolved hsubject =>
      rw [hsubject]
      refine .start ?_
      rw [heard, List.filterMap_cons, Beat.moment?, hsubject]
      rfl
  | @settled record outcome hsubject hgate =>
      rw [hsubject]
      refine .start ?_
      rw [run_heard_check hsubject]
      cases outcome with
      | ok admission => rfl
      | error error => rfl
  | @estimated record admission hsubject hgate hreading haccepts =>
      rw [hsubject]
      have hstart : Follows s [.starts (.check subject keeps inside within) s] (s.pastGate record) :=
        .start (run_heard_check hsubject).symm
      have hconclude : Follows (s.pastEstimate record inside)
          [.tells admission.isAllowed (s.pastEstimate record inside).clock.now]
          ((s.pastEstimate record inside).conclude subject keeps admission) := .tells rfl
      exact hstart.append ((Station.follows_pastEstimate hinside).append hconclude)
  | @timedOut record hsubject hgate henter =>
      rw [hsubject]
      have hstart : Follows s [.starts (.check subject keeps inside within) s] (s.pastGate record) :=
        .start (run_heard_check hsubject).symm
      have hend : Follows (s.pastEstimate record inside) []
          { s.pastEstimate record inside with limiter := s.renewed record inside } := .nil rfl
      exact hstart.append ((Station.follows_pastEstimate hinside).append hend)
  | @decided record l s' hsubject hgate henter hwithin' =>
      rw [hsubject]
      have hstart : Follows s [.starts (.check subject keeps inside within) s] (s.pastGate record) :=
        .start (run_heard_check hsubject).symm
      have hlock : Follows (s.pastEstimate record inside) [] (s.pastLock record inside) := .nil rfl
      have hunder : Follows (s.pastLock record inside) (beatsOf within (s.pastLock record inside)) s' := by
        rw [hwithin', ← Station.pastLock_of_enter henter]
        exact hwithin (s.pastLock record inside)
      let (admission, limiter) :=
        s'.limiter.decide record (s.pastEstimate record inside).clock.now
      have hconclude : Follows s' [.tells admission.isAllowed s'.clock.now]
          ({ s' with limiter := limiter.leave record.client.id }.conclude subject keeps admission) :=
        .tells rfl
      exact hstart.append ((Station.follows_pastEstimate hinside).append
        (hlock.append (hunder.append hconclude)))

mutual

theorem Step.follows_beats (step : Step) (s : Station) : Follows s (step.beats s) (step.run s).after :=
  match step with
  | .sweep => by
      rw [Step.beats, Step.run]
      exact .start rfl
  | .move m => by
      rw [Step.beats, Step.run]
      exact .start rfl
  | .breaker event => by
      rw [Step.beats, Step.run]
      exact .start rfl
  | .check subject keeps inside within =>
      follows_check (follows_beatsOf inside) (follows_beatsOf within) subject keeps s

/-- **The breaker hears the course.** -/
theorem follows_beatsOf (steps : List Step) (s : Station) :
    Follows s (beatsOf steps s) (runAll steps s).2 :=
  match steps with
  | [] => by
      rw [beatsOf, runAll]
      exact .nil rfl
  | step :: rest => by
      rw [beatsOf, runAll]
      exact (step.follows_beats s).append (follows_beatsOf rest (step.run s).after)

end

/-- The station of a step in the course has the breaker that has heard the beats before. -/
theorem Threaded.breaker_eq {b : Breaker} {early late : List Beat} {step : Step} {start : Station}
    (h : Threaded b (early ++ .starts step start :: late)) : start.breaker = b.run (heard early) := by
  obtain ⟨-, hlate⟩ := threaded_append.1 h
  exact hlate.1 step start rfl

/-! ## The course in the reports -/

/-- What is reported of one beat. -/
inductive Note
  /-- A step starts that will come to this report. -/
  | report (report : Report)
  /-- A check tells the breaker at the given time whether the algorithm has admitted it. -/
  | told (isAllowed : Bool) (time : Nat)

/-- What is reported of a beat. -/
def Beat.note : Beat → Note
  | starts step start => .report (step.run start)
  | tells isAllowed time => .told isAllowed time

/-- What a check tells the breaker, by its report. -/
def Report.lastNotes (report : Report) : List Note :=
  match report.told? with
  | some isAllowed => [.told isAllowed report.after.clock.now]
  | none => []

mutual

/-- The notes of one step: it starts, others run inside it, and a check that the algorithm has answered tells
the breaker. -/
def Report.notes : Report → List Note
  | .check route outcome inside within after =>
      .report (.check route outcome inside within after) ::
        (notesIn inside ++ (notesIn within ++ (Report.check route outcome inside within after).lastNotes))
  | .sweep evicted after => [.report (.sweep evicted after)]
  | .move after => [.report (.move after)]
  | .breaker reply after => [.report (.breaker reply after)]

/-- The notes of the steps inside a check, if they ran. -/
def notesIn : Option (List Report) → List Note
  | none => []
  | some reports => notesOf reports

/-- The notes of steps one after another. -/
def notesOf : List Report → List Note
  | [] => []
  | report :: rest => report.notes ++ notesOf rest

end

theorem map_note_tells (report : Report) : report.tells.map Beat.note = report.lastNotes := by
  rw [Report.tells, Report.lastNotes]
  cases report.told? with
  | some isAllowed => rfl
  | none => rfl

theorem Station.map_note_inside {inside : List Step} (s : Station) (record : Record)
    (hinside : ∀ s, (beatsOf inside s).map Beat.note = notesOf (runAll inside s).1) :
    (if (s.insideReports record inside).isSome then beatsOf inside (s.pastGate record) else []).map
        Beat.note = notesIn (s.insideReports record inside) := by
  rw [insideReports]
  by_cases hreading : (s.reading record).isSome = true
  · rw [if_pos hreading]
    exact hinside (s.pastGate record)
  · rw [if_neg hreading]
    rfl

/-- The course of a check is what its report tells, given that this holds of the steps inside it. -/
theorem map_note_check {inside within : List Step}
    (hinside : ∀ s, (beatsOf inside s).map Beat.note = notesOf (runAll inside s).1)
    (hwithin : ∀ s, (beatsOf within s).map Beat.note = notesOf (runAll within s).1)
    (subject : Subject) (keeps : Bool) (s : Station) :
    ((Step.check subject keeps inside within).beats s).map Beat.note =
      ((Step.check subject keeps inside within).run s).notes := by
  have hchecks := checks_run subject keeps inside within s
  rw [Step.beats, List.map_cons, Beat.note]
  generalize (Step.check subject keeps inside within).run s = report at hchecks
  cases hchecks with
  | unresolved hsubject =>
      rw [hsubject]
      rfl
  | settled hsubject hgate =>
      rw [hsubject]
      rfl
  | @estimated record admission hsubject hgate hreading haccepts =>
      rw [hsubject, Report.notes, ← s.map_note_inside record hinside, ← map_note_tells]
      exact congrArg _ List.map_append
  | @timedOut record hsubject hgate henter =>
      rw [hsubject, Report.notes, ← s.map_note_inside record hinside, ← map_note_tells]
      exact congrArg _ List.map_append
  | @decided record l s' hsubject hgate henter hwithin' =>
      have hunder : notesIn (some (runAll within { s.pastEstimate record inside with limiter := l }).1) =
          (beatsOf within (s.pastLock record inside)).map Beat.note := by
        rw [Station.pastLock_of_enter henter, hwithin]
        rfl
      rw [hsubject, Report.notes, ← s.map_note_inside record hinside, ← map_note_tells, hunder,
        ← List.map_append, ← List.map_append]
      rfl

mutual

theorem Step.map_note_beats (step : Step) (s : Station) :
    (step.beats s).map Beat.note = (step.run s).notes :=
  match step with
  | .sweep => by
      rw [Step.beats, List.map_cons, Beat.note, Step.run]
      rfl
  | .move m => by
      rw [Step.beats, List.map_cons, Beat.note, Step.run]
      rfl
  | .breaker event => by
      rw [Step.beats, List.map_cons, Beat.note, Step.run]
      rfl
  | .check subject keeps inside within =>
      map_note_check (map_note_beatsOf inside) (map_note_beatsOf within) subject keeps s

/-- **The course of a run is what its reports tell.** -/
theorem map_note_beatsOf (steps : List Step) (s : Station) :
    (beatsOf steps s).map Beat.note = notesOf (runAll steps s).1 :=
  match steps with
  | [] => by
      rw [beatsOf, runAll]
      rfl
  | step :: rest => by
      rw [beatsOf, runAll, List.map_append, step.map_note_beats s,
        map_note_beatsOf rest (step.run s).after, notesOf]

end

end Limiter
end AdmissionControl
