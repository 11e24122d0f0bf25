import Mathlib.Data.List.Induction
import AdmissionControl.Breaker

/-!
# A breaker is told by its history

A breaker keeps a state and a count, and changes both lazily: a query may open it or make it half open, and
outcomes of requests that were let through long ago may come in at any time.  This file reads the same off
the history alone — what was done to the breaker, at which readings of the clock — and proves that it is what
the breaker keeps and answers.

* `failuresSince` — the denials since the last admission, reset or change of settings.
* `openings` — the times of the queries and of the denials on trial that opened the breaker; by `opens_iff`
  nothing else opens it.
* `Told` — the invariant: a closed breaker counts the former and has no time of an opening, and a breaker that
  is not closed has the last of the latter.
* `eq_history` — **queries are answered from the history**, over every sequence of events, with a clock that
  may stand still or go back.
-/

namespace AdmissionControl
namespace Breaker

/-! ## Histories -/

/-- Something that is done to a breaker at a reading of the clock. -/
structure Moment where
  /-- The reading. -/
  time : Nat
  /-- What is done. -/
  event : Event
  deriving DecidableEq, Repr

/-- The breaker after a moment. -/
def after (b : Breaker) (m : Moment) : Breaker := (b.react m.time m.event).2

/-- The breaker after moments one after another. -/
def run (b : Breaker) (moments : List Moment) : Breaker := moments.foldl after b

@[simp] theorem run_nil (b : Breaker) : b.run [] = b := rfl

@[simp] theorem run_cons (b : Breaker) (m : Moment) (rest : List Moment) :
    b.run (m :: rest) = (b.after m).run rest := rfl

theorem run_append (b : Breaker) (early late : List Moment) :
    b.run (early ++ late) = (b.run early).run late :=
  List.foldl_append

namespace Event

/-- Whether the event sets a breaker back: a reset, or a change to sound settings. -/
def restarts : Event → Bool
  | reset => true
  | reconfigure threshold time =>
      match Settings.build threshold time with
      | .ok _ => true
      | .error _ => false
  | query | success | failure => false

/-- Whether the event ends the count of denials in a row. -/
def clears : Event → Bool
  | success => true
  | event => event.restarts

/-- Whether the event is the outcome of a request. -/
def isOutcome : Event → Bool
  | success | failure => true
  | query | reset | reconfigure .. => false

theorem of_isOutcome (event : Event) (h : event.isOutcome = true) :
    event.restarts = false ∧ event ≠ .query := by
  cases event with
  | success => exact ⟨rfl, Event.noConfusion⟩
  | failure => exact ⟨rfl, Event.noConfusion⟩
  | query => exact absurd h Bool.false_ne_true
  | reset => exact absurd h Bool.false_ne_true
  | reconfigure threshold time => exact absurd h Bool.false_ne_true

end Event

/-- The denials since the last admission, reset or change of settings. -/
def failuresSince (moments : List Moment) : Nat :=
  (moments.reverse.takeWhile fun m => !m.event.clears).countP fun m => m.event = .failure

/-- Whether a moment opens the breaker: a query finds it closed with enough denials, or a request is denied on
trial. -/
def opens (b : Breaker) (m : Moment) : Bool :=
  match b.state, m.event with
  | .closed, .query => b.settings.threshold ≤ b.failures
  | .halfOpen, .failure => true
  | _, _ => false

/-- The times at which the breaker was opened, in order. -/
def openings : Breaker → List Moment → List Nat
  | _, [] => []
  | b, m :: rest =>
      if b.opens m then m.time :: (b.after m).openings rest else (b.after m).openings rest

variable {b : Breaker} {m : Moment} {moments : List Moment}

theorem failuresSince_snoc (moments : List Moment) (m : Moment) :
    failuresSince (moments ++ [m]) =
      if m.event.clears then 0
      else failuresSince moments + (if m.event = .failure then 1 else 0) := by
  rw [failuresSince, List.reverse_append, List.reverse_singleton, List.singleton_append,
    List.takeWhile_cons]
  by_cases hclears : m.event.clears = true
  · simp [hclears]
  · simp [hclears, List.countP_cons, failuresSince]

theorem openings_snoc (b : Breaker) (moments : List Moment) (m : Moment) :
    b.openings (moments ++ [m]) =
      b.openings moments ++ (if (b.run moments).opens m then [m.time] else []) := by
  induction moments generalizing b with
  | nil => rfl
  | cons first rest ih =>
      rw [List.cons_append, openings, openings, ih, run_cons]
      split
      · rfl
      · rfl

/-! ## One moment -/

theorem Settings.eq_of_build {threshold : Nat} {reset : Duration} {settings : Settings}
    (h : Settings.build threshold reset = .ok settings) : settings = ⟨threshold, reset⟩ := by
  rw [build] at h
  split at h
  · exact absurd h (by simp)
  · split at h
    · exact absurd h (by simp)
    · exact (Except.ok.inj h).symm

/-- An event that sets the breaker back leaves it as new, with its settings or those of the event. -/
theorem after_of_restarts (h : m.event.restarts = true) :
    ∃ settings, b.after m = fresh settings ∧
      (settings = b.settings ∨ m.event = .reconfigure settings.threshold settings.reset) := by
  obtain ⟨time, event⟩ := m
  cases event with
  | reset => exact ⟨b.settings, rfl, Or.inl rfl⟩
  | reconfigure threshold reset =>
      simp only [after, react]
      cases hbuild : Settings.build threshold reset with
      | ok settings =>
          obtain rfl := Settings.eq_of_build hbuild
          exact ⟨_, rfl, Or.inr rfl⟩
      | error fault =>
          simp only [Event.restarts, hbuild] at h
          exact absurd h Bool.false_ne_true
  | query => exact absurd h Bool.false_ne_true
  | success => exact absurd h Bool.false_ne_true
  | failure => exact absurd h Bool.false_ne_true

/-- A change of settings that is refused leaves the breaker as it was. -/
theorem after_of_refused {threshold time : Nat} {reset : Duration}
    (h : (Event.reconfigure threshold reset).restarts = false) :
    b.after ⟨time, .reconfigure threshold reset⟩ = b := by
  simp only [after, react]
  cases hbuild : Settings.build threshold reset with
  | ok settings =>
      simp only [Event.restarts, hbuild] at h
      exact absurd h.symm Bool.false_ne_true
  | error fault => rfl

/-- While the breaker is open, nothing but a query after its time and an event that sets it back changes its
state, or the time of its opening. -/
theorem after_of_opened (hstate : b.state = .opened) (hevent : m.event.restarts = false)
    (hquery : m.event = .query → m.time - b.lastOpened?.getD 0 < b.settings.reset.millis) :
    (b.after m).state = .opened ∧ (b.after m).lastOpened? = b.lastOpened? ∧
      (b.after m).settings = b.settings := by
  obtain ⟨now, event⟩ := m
  cases event with
  | query =>
      have hearly : ¬ b.settings.reset.millis ≤ now - b.lastOpened?.getD 0 := Nat.not_le.2 (hquery rfl)
      simp only [after, react, query, hstate, if_neg hearly, and_self]
  | success => simp only [after, react, succeed, hstate, and_self]
  | failure => simp only [after, react, fail, hstate, and_self]
  | reset => exact absurd hevent.symm Bool.false_ne_true
  | reconfigure threshold reset =>
      rw [after_of_refused hevent]
      exact ⟨hstate, rfl, rfl⟩

/-- On trial, the outcome of a request decides. -/
theorem after_of_halfOpen (hstate : b.state = .halfOpen) (houtcome : m.event.isOutcome = true) :
    b.after m = { b with
      state := if m.event = .success then .closed else .opened
      failures := 0
      lastOpened? := if m.event = .success then none else some m.time } := by
  obtain ⟨now, event⟩ := m
  cases event with
  | success => simp only [after, react, succeed, hstate, if_true]
  | failure => simp only [after, react, fail, hstate, reduceCtorEq, if_false]
  | query => exact absurd houtcome Bool.false_ne_true
  | reset => exact absurd houtcome Bool.false_ne_true
  | reconfigure threshold reset => exact absurd houtcome Bool.false_ne_true

/-- A query closes no breaker. -/
theorem query_ne_closed {time : Nat} (hstate : b.state ≠ .closed) :
    (b.query time).2.state ≠ .closed := by
  rw [query]
  cases hb : b.state with
  | closed => exact absurd hb hstate
  | opened =>
      dsimp only
      split
      · exact State.noConfusion
      · exact hstate
  | halfOpen => exact hstate

/-- A breaker that is not closed is closed by an event that sets it back, or by an admission on trial. -/
theorem state_after_eq_closed_iff (hstate : b.state ≠ .closed) :
    (b.after m).state = .closed ↔
      m.event.restarts = true ∨ m.event = .success ∧ b.state = .halfOpen := by
  constructor
  · intro hclosed
    obtain ⟨now, event⟩ := m
    cases event with
    | query => exact absurd hclosed (query_ne_closed hstate)
    | success =>
        rw [after, react, succeed] at hclosed
        cases hb : b.state with
        | closed => exact absurd hb hstate
        | opened =>
            simp only [hb] at hclosed
            exact State.noConfusion hclosed
        | halfOpen => exact Or.inr ⟨rfl, rfl⟩
    | failure =>
        rw [after, react, fail] at hclosed
        cases hb : b.state with
        | closed => exact absurd hb hstate
        | opened =>
            simp only [hb] at hclosed
            exact State.noConfusion hclosed
        | halfOpen =>
            simp only [hb] at hclosed
            exact State.noConfusion hclosed
    | reset => exact Or.inl rfl
    | reconfigure threshold reset =>
        by_cases hrestarts : (Event.reconfigure threshold reset).restarts = true
        · exact Or.inl hrestarts
        · rw [after_of_refused (Bool.not_eq_true _ ▸ hrestarts)] at hclosed
          exact absurd hclosed hstate
  · rintro (hrestarts | ⟨hsuccess, htrial⟩)
    · obtain ⟨settings, hfresh, -⟩ := after_of_restarts (b := b) hrestarts
      rw [hfresh]
      rfl
    · rw [after_of_halfOpen htrial (by rw [hsuccess]; rfl), if_pos hsuccess]

/-- A breaker that comes to be closed has no failures. -/
theorem failures_after_of_closed (hstate : b.state ≠ .closed) (hclosed : (b.after m).state = .closed) :
    (b.after m).failures = 0 := by
  rcases (state_after_eq_closed_iff hstate).1 hclosed with hrestarts | ⟨hsuccess, htrial⟩
  · obtain ⟨settings, hfresh, -⟩ := after_of_restarts (b := b) hrestarts
    rw [hfresh]
    rfl
  · rw [after_of_halfOpen htrial (by rw [hsuccess]; rfl)]

/-- A breaker is open, and was opened at the given time. -/
def IsOpenSince (b : Breaker) (time : Nat) : Prop := b.state = .opened ∧ b.lastOpened? = some time

/-- A moment that opens the breaker leaves it open as of then. -/
theorem after_of_opens (h : b.opens m = true) :
    (b.after m).IsOpenSince m.time ∧ (b.after m).settings = b.settings := by
  obtain ⟨now, event⟩ := m
  rw [opens] at h
  cases hstate : b.state with
  | closed =>
      rw [hstate] at h
      cases event with
      | query =>
          have hfull : b.settings.threshold ≤ b.failures := of_decide_eq_true h
          simp only [IsOpenSince, after, react, query, hstate, if_pos hfull, and_self]
      | success => exact absurd h Bool.false_ne_true
      | failure => exact absurd h Bool.false_ne_true
      | reset => exact absurd h Bool.false_ne_true
      | reconfigure threshold reset => exact absurd h Bool.false_ne_true
  | opened =>
      rw [hstate] at h
      exact absurd h Bool.false_ne_true
  | halfOpen =>
      rw [hstate] at h
      cases event with
      | failure => simp only [IsOpenSince, after, react, fail, hstate, and_self]
      | query => exact absurd h Bool.false_ne_true
      | success => exact absurd h Bool.false_ne_true
      | reset => exact absurd h Bool.false_ne_true
      | reconfigure threshold reset => exact absurd h Bool.false_ne_true

/-- A moment opens the breaker if the breaker is open after it and was not before. -/
theorem opens_iff : b.opens m = true ↔ b.state ≠ .opened ∧ (b.after m).state = .opened := by
  constructor
  · intro hopens
    refine ⟨?_, (after_of_opens hopens).1.1⟩
    intro hstate
    rw [opens, hstate] at hopens
    exact Bool.false_ne_true hopens
  · rintro ⟨hstate, hopened⟩
    obtain ⟨now, event⟩ := m
    cases event with
    | query =>
        rw [after, react, query] at hopened
        rw [opens]
        cases hb : b.state with
        | closed =>
            rw [hb] at hopened
            dsimp only at hopened ⊢
            split at hopened
            · rename_i hfull
              exact decide_eq_true hfull
            · exact absurd hopened hstate
        | opened => exact absurd hb hstate
        | halfOpen =>
            rw [hb] at hopened
            exact absurd hopened hstate
    | success =>
        rw [after, react, succeed] at hopened
        cases hb : b.state with
        | closed =>
            rw [hb] at hopened
            exact State.noConfusion hopened
        | opened => exact absurd hb hstate
        | halfOpen =>
            rw [hb] at hopened
            exact State.noConfusion hopened
    | failure =>
        rw [after, react, fail] at hopened
        cases hb : b.state with
        | closed =>
            rw [hb] at hopened
            exact State.noConfusion hopened
        | opened => exact absurd hb hstate
        | halfOpen => rw [opens, hb]
    | reset => exact State.noConfusion hopened
    | reconfigure threshold reset =>
        by_cases hrestarts : (Event.reconfigure threshold reset).restarts = true
        · obtain ⟨settings, hfresh, -⟩ := after_of_restarts (b := b) (m := ⟨now, _⟩) hrestarts
          rw [hfresh] at hopened
          exact State.noConfusion hopened
        · rw [after_of_refused (Bool.not_eq_true _ ▸ hrestarts)] at hopened
          exact absurd hopened hstate

/-! ## The invariant -/

/-- The threshold that an event sets. -/
def Event.threshold? : Event → Option Nat
  | .reconfigure threshold _ => some threshold
  | .query | .success | .failure | .reset => none

/-- What a breaker keeps is told by a number of failures and the time of its last opening. -/
structure Told (b : Breaker) (failures : Nat) (opening? : Option Nat) : Prop where
  /-- A closed breaker has counted the failures, as far as it counts. -/
  counted : b.state = .closed → b.failures = min failures maxFailures
  /-- It keeps no time of an opening. -/
  undated : b.state = .closed → b.lastOpened? = none
  /-- One that is not closed was opened, and keeps the time. -/
  dated : b.state ≠ .closed → ∃ time, opening? = some time ∧ b.lastOpened? = some time
  /-- The breaker counts as far as its threshold. -/
  countable : b.settings.threshold ≤ maxFailures

theorem told_fresh {settings : Settings} {opening? : Option Nat}
    (h : settings.threshold ≤ maxFailures) : (fresh settings).Told 0 opening? :=
  ⟨fun _ => rfl, fun _ => rfl, fun hstate => absurd rfl hstate, h⟩

namespace Told

variable {n : Nat} {opening? : Option Nat}

/-- A breaker that is opened at a time is told by that time and any number of failures. -/
theorem of_opened {time : Nat} (hstate : b.state ≠ .closed) (htime : b.lastOpened? = some time)
    (h : b.settings.threshold ≤ maxFailures) : b.Told n (some time) :=
  ⟨fun hclosed => absurd hclosed hstate, fun hclosed => absurd hclosed hstate,
    fun _ => ⟨time, rfl, htime⟩, h⟩

theorem query (h : b.Told n opening?) (time : Nat) :
    (b.query time).2.Told n (if b.opens ⟨time, .query⟩ then some time else opening?) := by
  cases hstate : b.state with
  | closed =>
      by_cases hfull : b.settings.threshold ≤ b.failures
      · simp only [Breaker.query, opens, hstate, hfull, decide_true, if_true]
        exact of_opened State.noConfusion rfl h.countable
      · simp only [Breaker.query, opens, hstate, hfull, decide_false, if_false, Bool.false_eq_true]
        exact h
  | opened =>
      simp only [Breaker.query, opens, hstate, Bool.false_eq_true, if_false]
      obtain ⟨since, rfl, hsince⟩ := h.dated (by rw [hstate]; exact State.noConfusion)
      split
      · exact of_opened State.noConfusion hsince h.countable
      · exact h
  | halfOpen =>
      simp only [Breaker.query, opens, hstate, Bool.false_eq_true, if_false]
      exact h

theorem succeed (h : b.Told n opening?) : b.succeed.Told 0 opening? := by
  cases hstate : b.state with
  | closed =>
      simp only [Breaker.succeed, hstate]
      exact ⟨fun _ => rfl, fun _ => h.undated hstate, fun hclosed => absurd rfl hclosed, h.countable⟩
  | opened =>
      simp only [Breaker.succeed, hstate]
      obtain ⟨since, rfl, hsince⟩ := h.dated (by rw [hstate]; exact State.noConfusion)
      exact of_opened State.noConfusion hsince h.countable
  | halfOpen =>
      simp only [Breaker.succeed, hstate]
      exact ⟨fun _ => rfl, fun _ => rfl, fun hclosed => absurd rfl hclosed, h.countable⟩

theorem fail (h : b.Told n opening?) (time : Nat) :
    (b.fail time).Told (n + 1) (if b.opens ⟨time, .failure⟩ then some time else opening?) := by
  cases hstate : b.state with
  | closed =>
      simp only [Breaker.fail, opens, hstate, Bool.false_eq_true, if_false]
      have hcounted := h.counted hstate
      refine ⟨fun _ => ?_, fun _ => h.undated hstate, fun hclosed => absurd rfl hclosed, h.countable⟩
      dsimp only
      omega
  | opened =>
      simp only [Breaker.fail, opens, hstate, Bool.false_eq_true, if_false]
      obtain ⟨since, rfl, hsince⟩ := h.dated (by rw [hstate]; exact State.noConfusion)
      exact of_opened State.noConfusion hsince h.countable
  | halfOpen =>
      simp only [Breaker.fail, opens, hstate, if_true]
      exact of_opened State.noConfusion rfl h.countable

theorem clears_of_restarts {event : Event} (h : event.restarts = true) : event.clears = true := by
  cases event with
  | success => rfl
  | _ => exact h

/-- Every moment moves the number of failures and the last opening as the breaker moves. -/
theorem after (h : b.Told n opening?) (hword : ∀ threshold ∈ m.event.threshold?, threshold ≤ maxFailures) :
    (b.after m).Told
      (if m.event.clears then 0 else n + (if m.event = .failure then 1 else 0))
      (if b.opens m then some m.time else opening?) := by
  by_cases hrestarts : m.event.restarts = true
  · obtain ⟨settings, hfresh, hsettings⟩ := after_of_restarts (b := b) hrestarts
    rw [hfresh, if_pos (clears_of_restarts hrestarts)]
    refine told_fresh ?_
    rcases hsettings with rfl | hevent
    · exact h.countable
    · exact hword _ (by rw [hevent]; rfl)
  · obtain ⟨time, event⟩ := m
    cases event with
    | query => exact h.query time
    | success =>
        have hopens : b.opens ⟨time, .success⟩ = false := by
          cases hstate : b.state <;> simp only [opens, hstate]
        rw [hopens]
        exact h.succeed
    | failure => exact h.fail time
    | reset => exact absurd rfl hrestarts
    | reconfigure threshold reset =>
        have hopens : b.opens ⟨time, .reconfigure threshold reset⟩ = false := by
          cases hstate : b.state <;> simp only [opens, hstate]
        have hclears : (Event.reconfigure threshold reset).clears = false :=
          Bool.not_eq_true _ ▸ hrestarts
        rw [hopens, hclears, after_of_refused hclears]
        exact h

end Told

/-- **Every history tells its breaker**: how many failures a closed one has counted, and when one that is not
closed was opened. -/
theorem told_run {settings : Settings} (hsettings : settings.threshold ≤ maxFailures)
    (hwords : ∀ m ∈ moments, ∀ threshold ∈ m.event.threshold?, threshold ≤ maxFailures) :
    ((fresh settings).run moments).Told (failuresSince moments)
      ((fresh settings).openings moments).getLast? := by
  induction moments using List.reverseRecOn with
  | nil => exact told_fresh hsettings
  | append_singleton moments m ih =>
      have hlast := hwords m (List.mem_append_right _ (List.mem_singleton_self m))
      have htold := (ih fun x hx => hwords x (List.mem_append_left _ hx)).after hlast
      rw [run_append, failuresSince_snoc, openings_snoc, List.getLast?_append]
      have hopening : ((if ((fresh settings).run moments).opens m = true then [m.time]
          else []).getLast?.or ((fresh settings).openings moments).getLast?) =
          if ((fresh settings).run moments).opens m = true then some m.time
          else ((fresh settings).openings moments).getLast? := by
        split
        · rfl
        · rfl
      rw [hopening]
      exact htold

/-! ## Answers from the history -/

/-- The time of the last opening is kept exactly while the breaker is not closed. -/
theorem Told.isSome_lastOpened?_iff {n : Nat} {opening? : Option Nat} (h : b.Told n opening?) :
    b.lastOpened?.isSome = true ↔ b.state ≠ .closed := by
  constructor
  · intro hsome hclosed
    rw [h.undated hclosed] at hsome
    exact Bool.false_ne_true hsome
  · intro hstate
    obtain ⟨time, -, htime⟩ := h.dated hstate
    rw [htime]
    rfl

/-- A query that is told by a history answers no if the breaker is closed and the failures have reached the
threshold, or if it is open and its time has not passed since the opening. -/
theorem Told.query_eq_false_iff {n : Nat} {opening? : Option Nat} (h : b.Told n opening?) (now : Nat) :
    (b.query now).1 = false ↔
      b.state = .closed ∧ b.settings.threshold ≤ n ∨
        b.state = .opened ∧ ∃ time, opening? = some time ∧ now - time < b.settings.reset.millis := by
  cases hstate : b.state with
  | closed =>
      have hcounted := h.counted hstate
      have hcountable := h.countable
      rw [query_closed hstate, decide_eq_false_iff_not, Nat.not_lt]
      simp only [true_and, reduceCtorEq, false_and, or_false]
      omega
  | opened =>
      obtain ⟨since, rfl, hsince⟩ := h.dated (by rw [hstate]; exact State.noConfusion)
      rw [query_opened hstate, hsince, Option.getD_some, decide_eq_false_iff_not, Nat.not_le]
      simp only [reduceCtorEq, false_and, false_or, true_and]
      constructor
      · intro hearly
        exact ⟨since, rfl, hearly⟩
      · rintro ⟨time, htime, hearly⟩
        obtain rfl := Option.some.inj htime
        exact hearly
  | halfOpen =>
      rw [query_halfOpen hstate]
      simp

/-- **A breaker is told by its history.**  Over every sequence of queries, outcomes, resets and changes of
settings, at any readings of the clock, where a threshold is a word of thirty-two bits like the count:

* the time of the last opening is kept exactly while the breaker is not closed;
* a query answers no if and only if the breaker is closed and as many failures as its threshold came in since
  the last admission, reset or change of settings, or it is open and its reset time has not passed since the
  query or the denial on trial that opened it last, and no other moment opens it;
* a breaker that is not closed is closed by nothing but a reset, a change of settings or an admission on
  trial, and then has no failures;
* outcomes that come in while it is open leave it open, with the time of its opening. -/
theorem eq_history (settings : Settings) (hsettings : settings.threshold ≤ maxFailures)
    (moments : List Moment)
    (hwords : ∀ m ∈ moments, ∀ threshold ∈ m.event.threshold?, threshold ≤ maxFailures) :
    let b := (fresh settings).run moments
    (b.lastOpened?.isSome = true ↔ b.state ≠ .closed) ∧
      (∀ now, (b.query now).1 = false ↔
        b.state = .closed ∧ b.settings.threshold ≤ failuresSince moments ∨
          b.state = .opened ∧ ∃ time, ((fresh settings).openings moments).getLast? = some time ∧
            now - time < b.settings.reset.millis) ∧
      (∀ m, b.opens m = true ↔ b.state ≠ .opened ∧ (b.after m).state = .opened) ∧
      (∀ m, b.state ≠ .closed →
        ((b.after m).state = .closed ↔
            m.event.restarts = true ∨ m.event = .success ∧ b.state = .halfOpen) ∧
          ((b.after m).state = .closed → (b.after m).failures = 0)) ∧
      ∀ m, b.state = .opened → m.event.isOutcome = true →
        (b.after m).state = .opened ∧ (b.after m).lastOpened? = b.lastOpened? := by
  intro b
  have htold := told_run hsettings hwords
  refine ⟨htold.isSome_lastOpened?_iff, htold.query_eq_false_iff, ?_, ?_, ?_⟩
  · intro m
    exact opens_iff
  · intro m hstate
    exact ⟨state_after_eq_closed_iff hstate, failures_after_of_closed hstate⟩
  · intro m hstate houtcome
    obtain ⟨hrestarts, hquery⟩ := m.event.of_isOutcome houtcome
    obtain ⟨hopened, htime, -⟩ := after_of_opened hstate hrestarts fun h => absurd h hquery
    exact ⟨hopened, htime⟩

/-- A breaker that opens after two denials, for ten milliseconds. -/
def strict : Settings := ⟨2, Duration.ofMillis 10⟩

/-- It is opened by a query at 3, hears of an admission and a denial from before, goes on trial at 13, and is
opened again by a denial at 14. -/
def trial : List Moment :=
  [⟨1, .failure⟩, ⟨2, .failure⟩, ⟨3, .query⟩, ⟨4, .success⟩, ⟨4, .failure⟩, ⟨13, .query⟩, ⟨14, .failure⟩]

/-- After the trial a query is refused until the reset time has passed since the denial at 14, even though the
breaker was opened at 3 for the first time. -/
theorem query_after_trial :
    strict.threshold ≤ maxFailures ∧
      (∀ m ∈ trial, ∀ threshold ∈ m.event.threshold?, threshold ≤ maxFailures) ∧
      (fresh strict).openings trial = [3, 14] ∧
      (((fresh strict).run trial).query 23).1 = false ∧
      (((fresh strict).run trial).query 24).1 = true := by
  have hwords : ∀ m ∈ trial, ∀ threshold ∈ m.event.threshold?, threshold ≤ maxFailures := by decide
  obtain ⟨-, hquery, -⟩ := eq_history strict (by decide) trial hwords
  refine ⟨by decide, hwords, rfl, ?_, ?_⟩
  · exact (hquery 23).2 (Or.inr ⟨rfl, 14, rfl, by decide⟩)
  · rw [← Bool.not_eq_false, hquery 24]
    rintro (⟨hclosed, -⟩ | ⟨-, time, hopened, hearly⟩)
    · exact State.noConfusion hclosed
    · obtain rfl : 14 = time := Option.some.inj hopened
      exact absurd hearly (by decide)

end Breaker
end AdmissionControl
