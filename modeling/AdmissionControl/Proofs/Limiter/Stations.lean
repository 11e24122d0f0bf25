import AdmissionControl.Proofs.Limiter.Course
import AdmissionControl.Proofs.Limiter.Slots

/-!
# The stations of a run

A run passes many stations: one before and after every step at any depth, and those inside its checks.  What
every move of a limiter keeps holds at all of them, so that later files look at single moves.

* `Stable` — what every move of a limiter keeps.
* `Stable.history` — so does every history, whatever nests in it.
* `stationsOf`, `Stable.stations` — **it holds at every station that a run passes**.
* `stable_kind`, `stable_inactivity` — what a limiter was made with stays.
-/

namespace AdmissionControl
namespace Limiter

/-- The steps after an estimate are a history, of nothing if none was read. -/
theorem Station.history_pastEstimate (s : Station) (record : Record) (inside : List Step) :
    History (s.pastGate record) (momentsIn (s.insideReports record inside)) (s.pastEstimate record inside) := by
  unfold insideReports pastEstimate
  split
  · exact history_runAll inside (s.pastGate record)
  · exact .nil (s.pastGate record)

/-! ## What every move keeps -/

/-- A property of limiters that every move keeps.  A decision is taken under the lock of its client. -/
structure Stable (P : Limiter → Prop) : Prop where
  /-- A client may ask for its slot. -/
  look : ∀ {l}, P l → ∀ client now, P (l.look client now).2
  /-- Idle clients may be forgotten. -/
  sweep : ∀ {l}, P l → ∀ now, P (l.sweep now)
  /-- A lock may be taken or given back. -/
  stamp : ∀ {l client slot}, P l → l.slots.get? client = some slot →
    P { l with slots := l.slots.set client slot.stamp }
  /-- The algorithm may decide for a client whose lock is held. -/
  decide : ∀ {l} {record : Record}, P l → l.isHeld record.client.id = true → ∀ now, P (l.decide record now).2

namespace Stable

variable {P : Limiter → Prop} {s s' : Station} {record : Record} {inside within : List Step}

theorem renew (hP : Stable P) {l : Limiter} (h : P l) (client : String) (slot : Slot) (now : Nat) :
    P (l.renew client slot now) := by
  unfold Limiter.renew
  split
  · exact h
  · exact hP.look h client now

theorem enter (hP : Stable P) {l l' : Limiter} {client : String} (h : P l) (henter : l.enter client = some l') :
    P l' := by
  obtain ⟨slot, hslot, -, rfl⟩ := slots_of_enter henter
  exact hP.stamp h hslot

theorem leave (hP : Stable P) {l : Limiter} (h : P l) (client : String) : P (l.leave client) := by
  rcases leave_eq l client with hsame | ⟨slot, hslot, hleave⟩
  · rw [hsame]
    exact h
  · rw [hleave]
    exact hP.stamp h hslot

/-- It holds at the end of every history if it holds at its start. -/
theorem history (hP : Stable P) {moments : List Moment} (h : History s moments s') (hs : P s.limiter) :
    P s'.limiter := by
  induction h with
  | quiet hlimiter hclock =>
      rw [hlimiter]
      exact hs
  | seq h h' ih ih' => exact ih' (ih hs)
  | look s client => exact hP.look hs client s.clock.now
  | sweep s => exact hP.sweep hs s.clock.now
  | move s m => exact hs
  | estimate hfree hestimate => exact hs
  | locked henter hwithin ih =>
      -- the lock is still held when the algorithm decides
      obtain ⟨-, hheld, -, -⟩ := isHeld_of_enter henter
      obtain ⟨hheld', -, -⟩ := hwithin.frame hheld
      exact hP.leave (hP.decide (ih (hP.enter hs henter)) hheld' _) _

theorem runAll (hP : Stable P) (hs : P s.limiter) (steps : List Step) : P (runAll steps s).2.limiter :=
  hP.history (history_runAll steps s) hs

theorem pastGate (hP : Stable P) (hs : P s.limiter) (record : Record) : P (s.pastGate record).limiter :=
  hP.look hs record.client.id s.clock.now

theorem pastEstimate (hP : Stable P) (hs : P s.limiter) (record : Record) (inside : List Step) :
    P (s.pastEstimate record inside).limiter :=
  hP.history (s.history_pastEstimate record inside) (hP.pastGate hs record)

theorem renewed (hP : Stable P) (hs : P s.limiter) (record : Record) (inside : List Step) :
    P (s.renewed record inside) :=
  hP.renew (hP.pastEstimate hs record inside) ..

theorem pastLock (hP : Stable P) (hs : P s.limiter) (record : Record) (inside : List Step) :
    P (s.pastLock record inside).limiter := by
  have hrenewed := hP.renewed hs record inside
  unfold Station.pastLock
  cases henter : (s.renewed record inside).enter record.client.id with
  | some l => exact hP.enter hrenewed henter
  | none => exact hrenewed

end Stable

/-! ## The stations of a run -/

mutual

/-- The stations that one step passes: where it starts and ends, and of a check that comes past the gate also the
one with its slot, the one after its estimate, the one with its lock, and those of the steps inside. -/
def Step.stations : Step → Station → List Station
  | .check subject keeps inside within, s =>
      let report := (Step.check subject keeps inside within).run s
      s :: report.after ::
        match subject.resolve s.book with
        | .error _ => []
        | .ok record =>
            match (gate record s.breaker s.clock.now).1 with
            | .settled _ => []
            | .limited =>
                s.pastGate record :: s.pastEstimate record inside ::
                  ((if report.ranInside then stationsOf inside (s.pastGate record) else []) ++
                    if report.ranWithin then
                      s.pastLock record inside :: stationsOf within (s.pastLock record inside)
                    else [])
  | .sweep, s => [s, (Step.sweep.run s).after]
  | .move m, s => [s, ((Step.move m).run s).after]
  | .breaker event, s => [s, ((Step.breaker event).run s).after]

/-- The stations that steps one after another pass. -/
def stationsOf : List Step → Station → List Station
  | [], s => [s]
  | step :: rest, s => step.stations s ++ stationsOf rest (step.run s).after

end

namespace Stable

variable {P : Limiter → Prop}

theorem stations_check (hP : Stable P) {inside within : List Step}
    (hinside : ∀ s, P s.limiter → ∀ s' ∈ stationsOf inside s, P s'.limiter)
    (hwithin : ∀ s, P s.limiter → ∀ s' ∈ stationsOf within s, P s'.limiter) (subject : Subject) (keeps : Bool)
    (s : Station) (hs : P s.limiter) :
    ∀ s' ∈ (Step.check subject keeps inside within).stations s, P s'.limiter := by
  intro s' hs'
  rw [Step.stations] at hs'
  rcases List.mem_cons.1 hs' with rfl | hs'
  · exact hs
  rcases List.mem_cons.1 hs' with rfl | hs'
  · exact hP.history (Step.history _ s) hs
  split at hs'
  · exact absurd hs' List.not_mem_nil
  rename_i record hsubject
  split at hs'
  · exact absurd hs' List.not_mem_nil
  rcases List.mem_cons.1 hs' with rfl | hs'
  · exact hP.pastGate hs record
  rcases List.mem_cons.1 hs' with rfl | hs'
  · exact hP.pastEstimate hs record inside
  rcases List.mem_append.1 hs' with hs' | hs'
  · split at hs'
    · exact hinside _ (hP.pastGate hs record) s' hs'
    · exact absurd hs' List.not_mem_nil
  · split at hs'
    · rcases List.mem_cons.1 hs' with rfl | hs'
      · exact hP.pastLock hs record inside
      · exact hwithin _ (hP.pastLock hs record inside) s' hs'
    · exact absurd hs' List.not_mem_nil

mutual

theorem step_stations (hP : Stable P) (step : Step) (s : Station) (hs : P s.limiter) :
    ∀ s' ∈ step.stations s, P s'.limiter :=
  match step with
  | .sweep => by
      intro s' hs'
      rw [Step.stations, List.mem_pair] at hs'
      rcases hs' with rfl | rfl
      · exact hs
      · exact hP.history (Step.history _ s) hs
  | .move m => by
      intro s' hs'
      rw [Step.stations, List.mem_pair] at hs'
      rcases hs' with rfl | rfl
      · exact hs
      · exact hP.history (Step.history _ s) hs
  | .breaker event => by
      intro s' hs'
      rw [Step.stations, List.mem_pair] at hs'
      rcases hs' with rfl | rfl
      · exact hs
      · exact hP.history (Step.history _ s) hs
  | .check subject keeps inside within =>
      stations_check hP (stations hP inside) (stations hP within) subject keeps s hs

/-- **It holds at every station of a run** if it holds at its start. -/
theorem stations (hP : Stable P) (steps : List Step) (s : Station) (hs : P s.limiter) :
    ∀ s' ∈ stationsOf steps s, P s'.limiter :=
  match steps with
  | [] => by
      intro s' hs'
      rw [stationsOf, List.mem_singleton] at hs'
      rw [hs']
      exact hs
  | step :: rest => by
      intro s' hs'
      rw [stationsOf] at hs'
      rcases List.mem_append.1 hs' with hs' | hs'
      · exact step_stations hP step s hs s' hs'
      · exact stations hP rest (step.run s).after (hP.history (step.history s) hs) s' hs'

end

end Stable

/-! ## What a limiter was made with -/

theorem stable_kind (kind : AlgorithmKind) : Stable fun l => l.algorithm.rule.kind = kind where
  look := by
    intro l h client now
    rw [algorithm_look]
    exact h
  sweep := by
    intro l h now
    rw [algorithm_sweep, Algorithm.rule_run]
    exact h
  stamp := fun h _ => h
  decide := fun h _ _ => h

theorem stable_inactivity (p : Duration → Prop) : Stable fun l => p l.inactivity where
  look := by
    intro l h client now
    unfold look
    split
    · exact h
    · exact h
  sweep := fun h _ => h
  stamp := fun h _ => h
  decide := fun h _ _ => h

theorem stable_threshold (threshold : Nat) : Stable fun l => l.threshold = threshold :=
  stable_inactivity fun inactivity => Word.saturate inactivity.millis = threshold

end Limiter
end AdmissionControl
