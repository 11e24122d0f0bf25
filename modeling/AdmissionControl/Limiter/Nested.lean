import AdmissionControl.Clock
import AdmissionControl.Limiter

/-!
# Checks inside checks

Callers that use a limiter at the same time meet at two points of a check: after the estimate was read and
before it is accepted, and while the lock is held and before the algorithm decides.  Whatever the others do
at these points can be told as a list of steps that runs there, and such a step may be a check with points of
its own.  So every interleaving of this kind is a tree of steps (`Step`), and its run is one recursive
function (`Step.run`, `runAll`) that answers each step with a report.

A record may be given with the step, or stand under a name in the book of the station; an admission of a
record from the book goes back into it.

* `run_check_nil`: a check with nothing going on inside is the plain `Limiter.check`.
-/

namespace AdmissionControl
namespace Limiter

/-- A limiter, with the breaker and the clock that it reads and a book of records. -/
structure Station where
  /-- The limiter. -/
  limiter : Limiter
  /-- The breaker before it. -/
  breaker : Breaker
  /-- The clock that both read. -/
  clock : Clock
  /-- Records under names. -/
  book : Table String Record

/-- The record that a check is about. -/
inductive Subject
  /-- A record that comes with the check. -/
  | given (record : Record)
  /-- The record under a name in the book. -/
  | named (name : String)
  /-- No record could be made, for the given reason. -/
  | unsound (error : Error)
  deriving DecidableEq, Repr

namespace Subject

/-- The record, as the book has it when the check starts. -/
def resolve (book : Table String Record) : Subject → Except Error Record
  | given record => .ok record
  | named name =>
      match book.get? name with
      | some record => .ok record
      | none => .error (.invalid (.other "unknown record"))
  | unsound error => .error error

/-- The book after an admission: a record from the book goes back into it. -/
def putBack (book : Table String Record) (admission : Admission) : Subject → Table String Record
  | named name => book.set name admission.record
  | _ => book

end Subject

/-- One step of a run. -/
inductive Step
  /-- A check, with what the others do after its estimate and before its decision.  It may leave the book
  as it was. -/
  | check (subject : Subject) (keeps : Bool) (afterEstimate beforeDecide : List Step)
  /-- Idle clients are forgotten. -/
  | sweep
  /-- The clock moves. -/
  | move (move : Clock.Move)
  /-- Something happens to the breaker. -/
  | breaker (event : Breaker.Event)

instance : Inhabited Step := ⟨.sweep⟩

/-- How a check came to its outcome. -/
inductive Route
  /-- Without the algorithm. -/
  | settled
  /-- By an estimate for a record that was read at the given time and accepted. -/
  | estimated (record : Record) (time : Nat)
  /-- By the algorithm under the lock, for a record at the given time. -/
  | decided (record : Record) (time : Nat)
  /-- The lock could not be had. -/
  | timedOut
  deriving DecidableEq, Repr

/-- What one step did, and the station after it. -/
inductive Report
  /-- A check: its route and outcome, and the reports of the steps inside it where they ran. -/
  | check (route : Route) (outcome : Except Error Admission)
      (afterEstimate beforeDecide : Option (List Report)) (after : Station)
  /-- The clients that were forgotten. -/
  | sweep (evicted : List String) (after : Station)
  /-- The clock moved. -/
  | move (after : Station)
  /-- What the breaker answered. -/
  | breaker (reply : Breaker.Reply) (after : Station)

/-- The station after the step. -/
def Report.after : Report → Station
  | check _ _ _ _ after => after
  | sweep _ after => after
  | move after => after
  | breaker _ after => after

namespace Station

/-- The station when a check has its admission: the breaker hears the outcome, and the book gets the
record. -/
def conclude (s : Station) (subject : Subject) (keeps : Bool) (admission : Admission) : Station :=
  { s with
    breaker := s.breaker.observe admission.isAllowed s.clock.now
    book := if keeps then subject.putBack s.book admission else s.book }

/-- The station when a check was settled at the gate. -/
def settle (s : Station) (breaker : Breaker) (subject : Subject) (keeps : Bool) :
    Except Error Admission → Station
  | .ok admission =>
      { s with breaker := breaker, book := if keeps then subject.putBack s.book admission else s.book }
  | .error _ => { s with breaker := breaker }

end Station

mutual

/-- One step, with everything that runs inside it. -/
def Step.run : Step → Station → Report
  | .sweep, s =>
      .sweep (s.limiter.idleClients s.clock.now)
        { s with limiter := s.limiter.sweep s.clock.now }
  | .move m, s => .move { s with clock := s.clock.move m }
  | .breaker event, s =>
      let (reply, breaker) := s.breaker.react s.clock.now event
      .breaker reply { s with breaker := breaker }
  | .check subject keeps afterEstimate beforeDecide, s =>
      match subject.resolve s.book with
      | .error error => .check .settled (.error error) none none s
      | .ok record =>
          let now := s.clock.now
          match gate record s.breaker now with
          | (.settled outcome, breaker) =>
              .check .settled outcome none none (s.settle breaker subject keeps outcome)
          | (.limited, breaker) =>
              let client := record.client.id
              let (slot, limiter) := s.limiter.look client now
              let s₁ : Station := { s with limiter := limiter, breaker := breaker }
              -- the others run only where an estimate was read
              let read := limiter.glance slot record now
              let (inside, s₂) :=
                if read.isSome then
                  let (reports, s₂) := runAll afterEstimate s₁
                  (some reports, s₂)
                else (none, s₁)
              match read.join, s₂.limiter.accepts client slot with
              | some admission, true =>
                  .check (.estimated record now) (.ok admission) inside none
                    (s₂.conclude subject keeps admission)
              | _, _ =>
                  let limiter := s₂.limiter.renew client slot s₂.clock.now
                  match limiter.enter client with
                  | none =>
                      .check .timedOut (.error (limiter.lockTimeout client)) inside none
                        { s₂ with limiter := limiter }
                  | some limiter =>
                      let time := s₂.clock.now
                      let (reports, s₃) := runAll beforeDecide { s₂ with limiter := limiter }
                      let (admission, limiter) := s₃.limiter.decide record time
                      .check (.decided record time) (.ok admission) inside (some reports)
                        ({ s₃ with limiter := limiter.leave client }.conclude subject keeps
                          admission)

/-- Steps one after another: a report for each, and the station after the last. -/
def runAll : List Step → Station → List Report × Station
  | [], s => ([], s)
  | step :: rest, s =>
      let report := step.run s
      let (reports, s') := runAll rest report.after
      (report :: reports, s')

end

/-! ## Nothing inside -/

theorem get?_look (l : Limiter) (client : String) (now : Nat) :
    (l.look client now).2.slots.get? client = some (l.look client now).1 := by
  rw [look]
  cases l.slots.get? client with
  | some slot => simp
  | none => simp

theorem accepts_look (l : Limiter) (client : String) (now : Nat) :
    (l.look client now).2.accepts client (l.look client now).1 = true := by
  simp [accepts, get?_look]

theorem renew_look (l : Limiter) (client : String) (now later : Nat) :
    (l.look client now).2.renew client (l.look client now).1 later = (l.look client now).2 := by
  simp [renew, isLive, get?_look]

theorem conclude_given (s : Station) (record : Record) (keeps : Bool) (admission : Admission) :
    s.conclude (.given record) keeps admission =
      { s with breaker := s.breaker.observe admission.isAllowed s.clock.now } := by
  cases keeps <;> rfl

/-- A check with nothing going on inside is the plain check. -/
theorem run_check_nil (s : Station) (record : Record) (keeps : Bool) :
    ∃ route inside within,
      (Step.check (.given record) keeps [] []).run s =
        .check route (s.limiter.check s.breaker s.clock.now s.clock.now record).1 inside within
          { s with
            limiter := (s.limiter.check s.breaker s.clock.now s.clock.now record).2.1
            breaker := (s.limiter.check s.breaker s.clock.now s.clock.now record).2.2 } := by
  rw [Step.run]
  simp only [Subject.resolve, Limiter.check, runAll]
  rcases hg : gate record s.breaker s.clock.now with ⟨g, breaker⟩
  cases g with
  | settled outcome =>
      refine ⟨.settled, none, none, ?_⟩
      cases outcome <;> cases keeps <;> rfl
  | limited =>
      simp only
      have haccepts := accepts_look s.limiter record.client.id s.clock.now
      have hrenew := renew_look s.limiter record.client.id s.clock.now s.clock.now
      rcases hl : s.limiter.look record.client.id s.clock.now with ⟨slot, l⟩
      rw [hl] at haccepts hrenew
      simp only at haccepts hrenew ⊢
      have hstation : ∀ b : Bool,
          (if b = true then ((some [], { s with limiter := l, breaker := breaker }) :
              Option (List Report) × Station)
            else (none, { s with limiter := l, breaker := breaker })).2 =
            { s with limiter := l, breaker := breaker } := by
        intro b; cases b <;> rfl
      simp only [hstation]
      rcases hj : (l.glance slot record s.clock.now).join with _ | admission
      · simp only [hrenew]
        cases he : l.enter record.client.id with
        | none => exact ⟨_, _, _, rfl⟩
        | some entered =>
            simp only [conclude_given]
            exact ⟨_, _, _, rfl⟩
      · simp only [haccepts, conclude_given]
        exact ⟨_, _, _, rfl⟩

end Limiter
end AdmissionControl
