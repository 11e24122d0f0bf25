import AdmissionControl.Limiter.Nested
import AdmissionControl.Proofs.Rule.Calls

/-!
# What happened in a run, in order

The reports of a run nest as its steps do.  This file puts them in order: a run is a list of moments, and a
check that was answered by the algorithm stands where its answer was fixed — an accepted estimate where it
was computed, before all that ran inside the check, and a decision where it was taken, after all of that.

* `momentsOf` — the moments in the reports of a run.
* `History` — one move after another: what can happen to a limiter between two moments.
* `history_runAll` — **every run, however its steps nest, unfolds into such moves**, and its moments are the
  ones that it reports.
-/

namespace AdmissionControl
namespace Limiter

/-! ## Moments -/

/-- Something that happened in a run. -/
inductive Moment
  /-- The algorithm's answer to a request for a record was fixed, at the given reading of the clock. -/
  | decision (record : Record) (time : Nat) (admission : Admission)
  /-- A client was forgotten. -/
  | eviction (client : String)
  /-- The clock was moved to the given time. -/
  | tick (time : Nat)
  deriving DecidableEq, Repr

namespace Moment

/-- The call on the algorithm that stands for a moment. -/
def call? : Moment → Option Algorithm.Call
  | decision record time _ => some (.decide record time)
  | eviction client => some (.evict client)
  | tick _ => none

/-- What the call was answered in the run. -/
def reply? : Moment → Option (Option Admission)
  | decision _ _ admission => some (some admission)
  | eviction _ => some none
  | tick _ => none

/-- Whether a moment is about a client. -/
def concerns (client : String) (m : Moment) : Bool := m.call?.any fun call => call.client = client

/-- The time to which a moment moved the clock. -/
def tick? : Moment → Option Nat
  | tick time => some time
  | decision _ _ _ => none
  | eviction _ => none

end Moment

/-- The calls on the algorithm among some moments. -/
def calls (moments : List Moment) : List Algorithm.Call := moments.filterMap Moment.call?

/-- The times to which the clock was moved. -/
def ticks (moments : List Moment) : List Nat := moments.filterMap Moment.tick?

mutual

/-- The moments of one step: an estimate comes before what ran inside the check, and a decision after
it. -/
def Report.moments : Report → List Moment
  | .sweep evicted _ => evicted.map .eviction
  | .move after => [.tick after.clock.now]
  | .breaker _ _ => []
  | .check (.estimated record time) (.ok admission) inside within _ =>
      .decision record time admission :: (momentsIn inside ++ momentsIn within)
  | .check (.decided record time) (.ok admission) inside within _ =>
      momentsIn inside ++ momentsIn within ++ [.decision record time admission]
  | .check _ _ inside within _ => momentsIn inside ++ momentsIn within

/-- The moments of the steps inside a check, if they ran. -/
def momentsIn : Option (List Report) → List Moment
  | none => []
  | some reports => momentsOf reports

/-- The moments of steps one after another. -/
def momentsOf : List Report → List Moment
  | [] => []
  | report :: rest => report.moments ++ momentsOf rest

end

/-! ## Moves -/

/-- Whether somebody holds the lock of a client. -/
def isHeld (l : Limiter) (client : String) : Bool := (l.slots.get? client).any Slot.isHeld

/-- How a station gets from one state to another, and the moments on the way. -/
inductive History : Station → List Moment → Station → Prop
  /-- Nothing happens to the limiter and the clock. -/
  | quiet {s s' : Station} (hlimiter : s'.limiter = s.limiter) (hclock : s'.clock = s.clock) :
      History s [] s'
  /-- One thing after another. -/
  | seq {s s' s'' : Station} {early late : List Moment} (h : History s early s')
      (h' : History s' late s'') : History s (early ++ late) s''
  /-- A client asks for its slot. -/
  | look (s : Station) (client : String) :
      History s [] { s with limiter := (s.limiter.look client s.clock.now).2 }
  /-- Idle clients are forgotten. -/
  | sweep (s : Station) :
      History s ((s.limiter.idleClients s.clock.now).map .eviction)
        { s with limiter := s.limiter.sweep s.clock.now }
  /-- The clock moves. -/
  | move (s : Station) (m : Clock.Move) :
      History s [.tick (s.clock.move m).now] { s with clock := s.clock.move m }
  /-- An estimate is computed while nobody holds the client's lock. -/
  | estimate {s : Station} {record : Record} {admission : Admission}
      (hfree : s.limiter.isHeld record.client.id = false)
      (h : s.limiter.algorithm.estimate record s.clock.now = some admission) :
      History s [.decision record s.clock.now admission] s
  /-- A client's lock is taken and the clock is read; others go on; the algorithm decides for that time, and
  the lock is given back. -/
  | locked {s s' : Station} {record : Record} {l : Limiter} {moments : List Moment}
      (henter : s.limiter.enter record.client.id = some l)
      (h : History { s with limiter := l } moments s') :
      History s (moments ++ [.decision record s.clock.now (s'.limiter.decide record s.clock.now).1])
        { s' with
          limiter := (s'.limiter.decide record s.clock.now).2.leave record.client.id }

namespace History

theorem nil (s : Station) : History s [] s := .quiet rfl rfl

theorem then_quiet {s s' s'' : Station} {moments : List Moment} (h : History s moments s')
    (h' : History s' [] s'') : History s moments s'' := by
  have hseq := h.seq h'
  rwa [List.append_nil] at hseq

theorem renew (s : Station) (client : String) (slot : Slot) :
    History s [] { s with limiter := s.limiter.renew client slot s.clock.now } := by
  rw [Limiter.renew]
  split
  · exact .nil s
  · exact .look s client

/-- What is read after a client has got its slot is an estimate, and nobody holds the lock. -/
theorem of_glance {s : Station} {client : String} {slot : Slot} {record : Record}
    {admission : Admission} (hslot : s.limiter.slots.get? client = some slot)
    (hclient : record.client.id = client)
    (h : (s.limiter.glance slot record s.clock.now).join = some admission) :
    History s [.decision record s.clock.now admission] s := by
  subst hclient
  rw [glance] at h
  by_cases hheld : slot.isHeld = true
  · rw [if_pos hheld] at h
    exact absurd h (by simp)
  · rw [if_neg hheld] at h
    refine .estimate ?_ h
    rw [isHeld, hslot]
    exact Bool.not_eq_true _ ▸ hheld

end History

/-! ## Every run is a history -/

/-- What a check does, given what the steps inside it do. -/
theorem history_check {inside within : List Step}
    (hinside : ∀ s, History s (momentsOf (runAll inside s).1) (runAll inside s).2)
    (hwithin : ∀ s, History s (momentsOf (runAll within s).1) (runAll within s).2)
    (subject : Subject) (keeps : Bool) (s : Station) :
    History s ((Step.check subject keeps inside within).run s).moments
      ((Step.check subject keeps inside within).run s).after := by
  rw [Step.run]
  cases hsubject : subject.resolve s.book with
  | error error => exact .nil s
  | ok record =>
      simp only
      rcases hgate : gate record s.breaker s.clock.now with ⟨g, breaker⟩
      cases g with
      | settled outcome =>
          cases outcome with
          | error error => exact .quiet rfl rfl
          | ok admission => exact .quiet rfl rfl
      | limited =>
          have hslot := get?_look s.limiter record.client.id s.clock.now
          have hlook := History.look s record.client.id
          rcases hl : s.limiter.look record.client.id s.clock.now with ⟨slot, l⟩
          rw [hl] at hslot hlook
          simp only at hslot hlook ⊢
          rcases hp : (if (l.glance slot record s.clock.now).isSome = true then
              (some (runAll inside { s with limiter := l, breaker := breaker }).1,
                (runAll inside { s with limiter := l, breaker := breaker }).2)
            else (none, { s with limiter := l, breaker := breaker }) :
              Option (List Report) × Station) with ⟨ran, s₂⟩
          have hmid : History { s with limiter := l, breaker := breaker } (momentsIn ran) s₂ := by
            split at hp
            · obtain ⟨rfl, rfl⟩ := Prod.mk.inj hp
              exact hinside _
            · obtain ⟨rfl, rfl⟩ := Prod.mk.inj hp
              exact .nil _
          have hstart : History s [] { s with limiter := l, breaker := breaker } :=
            hlook.then_quiet (.quiet rfl rfl)
          dsimp only
          split
          · rename_i admission hread _
            have hestimate := History.of_glance (s := { s with limiter := l, breaker := breaker })
              hslot rfl hread
            show History s (.decision record s.clock.now admission :: (momentsIn ran ++ []))
              (s₂.conclude subject keeps admission)
            rw [List.append_nil]
            exact hstart.seq ((hestimate.seq hmid).then_quiet (.quiet rfl rfl))
          · have hrenew := hmid.then_quiet (.renew s₂ record.client.id slot)
            split
            · show History s (momentsIn ran ++ []) _
              rw [List.append_nil]
              exact hstart.seq hrenew
            · rename_i entered henter
              have hlocked := History.locked
                (s := { s₂ with limiter := s₂.limiter.renew record.client.id slot s₂.clock.now })
                henter (hwithin { s₂ with limiter := entered })
              show History s (momentsIn ran ++ momentsOf _ ++ [.decision record _ _]) _
              rw [List.append_assoc]
              exact hstart.seq (hrenew.seq (hlocked.then_quiet (.quiet rfl rfl)))

mutual

theorem Step.history (step : Step) (s : Station) :
    History s (step.run s).moments (step.run s).after :=
  match step with
  | .sweep => by
      rw [Step.run]
      exact .sweep s
  | .move m => by
      rw [Step.run]
      exact .move s m
  | .breaker event => by
      rw [Step.run]
      exact .quiet rfl rfl
  | .check subject keeps inside within =>
      history_check (history_runAll inside) (history_runAll within) subject keeps s

/-- **Every run is a history** of the moments that it reports. -/
theorem history_runAll (steps : List Step) (s : Station) :
    History s (momentsOf (runAll steps s).1) (runAll steps s).2 :=
  match steps with
  | [] => by
      rw [runAll]
      exact .nil s
  | step :: rest => by
      rw [runAll]
      exact (step.history s).seq (history_runAll rest (step.run s).after)

end

end Limiter
end AdmissionControl
