import AdmissionControl.Proofs.Limiter.Course

/-!
# Checks before an open breaker

A breaker that has opened stays open until it is set back or until somebody asks it after its reset time.
Checks that were on their way when it opened may still be decided then, and tell it their outcomes; this
changes nothing.

* `Breaker.Holds`, `run_of_opened` — a stretch of moments over which an open breaker stays open.
* `Breaker.Leaves`, `run_of_halfOpen` — a stretch over which a breaker stays on trial.
* `run_check_of_opened` — a check before an open breaker is denied and leaves the whole station as it was.
* `told?_run_iff` — a check tells the breaker its outcome if it came past the gate and was admitted or denied,
  and tells it nothing otherwise.
* `openBreaker_course` — the same for every step of every run.
-/

namespace AdmissionControl
namespace Breaker

/-! ## Stretches of moments -/

variable {b : Breaker} {m : Moment} {moments : List Moment} {since : Nat}

/-- An open breaker stays open over these moments: none sets it back, and it is asked only before its reset
time is over, counted from the given opening. -/
def Holds (since : Nat) (reset : Duration) (moments : List Moment) : Prop :=
  ∀ m ∈ moments, m.event.restarts = false ∧ (m.event = .query → m.time - since < reset.millis)

/-- A breaker on trial stays on trial over these moments: none sets it back, and none is an outcome. -/
def Leaves (moments : List Moment) : Prop :=
  ∀ m ∈ moments, m.event.restarts = false ∧ m.event.isOutcome = false

instance (since : Nat) (reset : Duration) (moments : List Moment) :
    Decidable (Holds since reset moments) :=
  inferInstanceAs (Decidable (∀ m ∈ moments, _))

instance (moments : List Moment) : Decidable (Leaves moments) :=
  inferInstanceAs (Decidable (∀ m ∈ moments, _))

/-- Before its time is over an open breaker answers no and stays as it is. -/
theorem query_of_opened {now : Nat} (hopen : b.IsOpenSince since)
    (hearly : now - since < b.settings.reset.millis) : b.query now = (false, b) := by
  rw [query, hopen.1, hopen.2]
  exact if_neg (Nat.not_le.2 hearly)

theorem run_of_opened (hopen : b.IsOpenSince since) (h : Holds since b.settings.reset moments) :
    (b.run moments).IsOpenSince since ∧ (b.run moments).settings = b.settings := by
  induction moments generalizing b with
  | nil => exact ⟨hopen, rfl⟩
  | cons m rest ih =>
      obtain ⟨⟨hrestarts, hquery⟩, hrest⟩ := List.forall_mem_cons.1 h
      obtain ⟨hstate, htime⟩ := hopen
      obtain ⟨hstate', htime', hsettings⟩ := after_of_opened hstate hrestarts (by rw [htime]; exact hquery)
      have hlate := ih ⟨hstate', htime'.trans htime⟩ (by rw [hsettings]; exact hrest)
      rwa [hsettings] at hlate

/-- On trial, what is neither an outcome nor sets the breaker back leaves it as it was. -/
theorem after_of_trial (hstate : b.state = .halfOpen) (hrestarts : m.event.restarts = false)
    (houtcome : m.event.isOutcome = false) : b.after m = b := by
  obtain ⟨now, event⟩ := m
  cases event with
  | query => rw [after, react, query_halfOpen hstate]
  | reconfigure threshold reset => exact after_of_refused hrestarts
  | success => exact absurd houtcome.symm Bool.false_ne_true
  | failure => exact absurd houtcome.symm Bool.false_ne_true
  | reset => exact absurd hrestarts.symm Bool.false_ne_true

theorem run_of_halfOpen (hstate : b.state = .halfOpen) (h : Leaves moments) : b.run moments = b := by
  induction moments with
  | nil => rfl
  | cons m rest ih =>
      obtain ⟨hm, hrest⟩ := List.forall_mem_cons.1 h
      rw [run_cons, after_of_trial hstate hm.1 hm.2, ih hrest]

end Breaker

namespace Limiter

/-! ## At the gate -/

variable {subject : Subject} {keeps : Bool} {inside within : List Step} {s : Station} {record : Record}

/-- The record of a check comes past the gate: it is sound, the breaker lets it through, and its policy has a
limit. -/
def PassesGate (record : Record) (b : Breaker) (now : Nat) : Prop :=
  record.fault? = none ∧ (b.query now).1 = true ∧ record.policy.isUnrestricted = false

theorem gate_eq_limited_iff {b : Breaker} {now : Nat} :
    (gate record b now).1 = .limited ↔ PassesGate record b now := by
  rw [gate, PassesGate]
  cases record.fault? with
  | some fault => simp
  | none =>
      rcases b.query now with ⟨yes, b'⟩
      cases yes with
      | false => simp
      | true => cases record.policy.isUnrestricted <;> simp

/-- An admission that leaves its record as it was leaves the book as it was. -/
theorem putBack_of_resolve {book : Table String Record} {verdict : Verdict}
    (h : subject.resolve book = .ok record) : subject.putBack book ⟨verdict, record⟩ = book := by
  cases subject with
  | given given => rfl
  | unsound error => rfl
  | named name =>
      rw [Subject.resolve] at h
      cases hbook : book.get? name with
      | none =>
          rw [hbook] at h
          exact absurd h (by simp)
      | some stored =>
          rw [hbook] at h
          obtain rfl := Except.ok.inj h
          exact book.set_of_get? hbook

/-- **Before an open breaker a check is denied for the reset time**, nothing runs inside it, and the station is
as it was. -/
theorem run_check_of_opened {since : Nat} (hsubject : subject.resolve s.book = .ok record)
    (hsound : record.fault? = none) (hopen : s.breaker.IsOpenSince since)
    (hearly : s.clock.now - since < s.breaker.settings.reset.millis) :
    (Step.check subject keeps inside within).run s =
      .check .settled (.ok ⟨.deny s.breaker.settings.reset, record⟩) none none s := by
  have hgate : gate record s.breaker s.clock.now =
      (.settled (.ok ⟨.deny s.breaker.settings.reset, record⟩), s.breaker) := by
    rw [gate, hsound, Breaker.query_of_opened hopen hearly]
  have hbook : (if keeps then subject.putBack s.book ⟨.deny s.breaker.settings.reset, record⟩ else s.book) =
      s.book := by
    cases keeps with
    | false => rfl
    | true => exact putBack_of_resolve hsubject
  rw [Step.run, hsubject]
  dsimp only
  rw [hgate]
  dsimp only [Station.settle]
  rw [hbook]

/-! ## What checks tell -/

/-- What a check is answered. -/
def Report.outcome? : Report → Option (Except Error Admission)
  | check _ outcome _ _ _ => some outcome
  | sweep .. | move .. | breaker .. => none

/-- **A check tells the breaker its outcome, if the algorithm gave it.**  A check that was settled at the gate
or could not get the lock tells it nothing. -/
theorem told?_run_iff {isAllowed : Bool} :
    ((Step.check subject keeps inside within).run s).told? = some isAllowed ↔
      ∃ record admission, subject.resolve s.book = .ok record ∧
        PassesGate record s.breaker s.clock.now ∧
        ((Step.check subject keeps inside within).run s).outcome? = some (.ok admission) ∧
        admission.isAllowed = isAllowed := by
  have hchecks := checks_run subject keeps inside within s
  generalize (Step.check subject keeps inside within).run s = report at hchecks
  cases hchecks with
  | unresolved hsubject => simp [Report.told?, Report.outcome?]
  | @settled record outcome hsubject hgate =>
      have hstays : ¬ PassesGate record s.breaker s.clock.now := by
        rw [← gate_eq_limited_iff, hgate]
        exact Gate.noConfusion
      simp only [Report.told?, reduceCtorEq, false_iff]
      rintro ⟨record', admission, hsubject', hpasses, -⟩
      obtain rfl := Except.ok.inj (hsubject.symm.trans hsubject')
      exact hstays hpasses
  | @estimated record admission hsubject hgate hreading haccepts =>
      simp only [Report.told?, Report.outcome?, Option.some.injEq, Except.ok.injEq]
      constructor
      · intro htold
        exact ⟨record, admission, hsubject, gate_eq_limited_iff.1 hgate, rfl, htold⟩
      · rintro ⟨-, admission', -, -, rfl, htold⟩
        exact htold
  | timedOut hsubject hgate henter => simp [Report.told?, Report.outcome?]
  | @decided record l s' hsubject hgate henter hwithin =>
      simp only [Report.told?, Report.outcome?, Option.some.injEq, Except.ok.injEq]
      constructor
      · intro htold
        exact ⟨record, _, hsubject, gate_eq_limited_iff.1 hgate, rfl, htold⟩
      · rintro ⟨-, admission', -, -, rfl, htold⟩
        exact htold

/-! ## Along a run -/

variable {s₀ : Station} {steps : List Step}

/-- The breaker of a step in the course of a run has heard what stands before it. -/
theorem breaker_start {early late : List Beat} {step : Step} {start : Station}
    (hcourse : beatsOf steps s₀ = early ++ .starts step start :: late) :
    start.breaker = s₀.breaker.run (heard early) := by
  have hthreaded := (follows_beatsOf steps s₀).threaded
  rw [hcourse] at hthreaded
  exact hthreaded.breaker_eq

theorem heard_cons {beat : Beat} {m : Breaker.Moment} (h : beat.moment? = some m) (rest : List Beat) :
    heard (beat :: rest) = m :: heard rest :=
  List.filterMap_cons_some h

/-- The breaker of a step that starts while the breaker is held open. -/
theorem breaker_while_open {early mid late : List Beat} {opening : Beat} {m : Breaker.Moment} {step : Step}
    {start : Station}
    (hcourse : beatsOf steps s₀ = early ++ opening :: (mid ++ .starts step start :: late))
    (hopening : opening.moment? = some m) (hopens : (s₀.breaker.run (heard early)).opens m = true)
    (hmid : Breaker.Holds m.time (s₀.breaker.run (heard early)).settings.reset (heard mid)) :
    start.breaker.IsOpenSince m.time ∧
      start.breaker.settings = (s₀.breaker.run (heard early)).settings := by
  have hbefore : start.breaker = ((s₀.breaker.run (heard early)).after m).run (heard mid) := by
    have hsplit : early ++ opening :: (mid ++ .starts step start :: late) =
        (early ++ opening :: mid) ++ .starts step start :: late := by
      rw [List.append_assoc, List.cons_append]
    rw [breaker_start (hcourse.trans hsplit), heard_append, heard_cons hopening, Breaker.run_append,
      Breaker.run_cons]
  obtain ⟨hopen, hsettings⟩ := Breaker.after_of_opens hopens
  obtain ⟨hstays, hsame⟩ := Breaker.run_of_opened hopen (by rw [hsettings]; exact hmid)
  rw [hbefore]
  exact ⟨hstays, hsame.trans hsettings⟩

/-- The first outcome decides for a breaker on trial. -/
theorem run_heard_of_halfOpen {b : Breaker} {mid : List Beat} {beat : Beat} {m : Breaker.Moment}
    (hstate : b.state = .halfOpen) (hmid : Breaker.Leaves (heard mid))
    (hbeat : beat.moment? = some m) (houtcome : m.event.isOutcome = true) :
    (b.run (heard mid)).state = .halfOpen ∧
      (b.run (heard (mid ++ [beat]))).state = if m.event = .success then .closed else .opened := by
  have hstays := Breaker.run_of_halfOpen hstate hmid
  refine ⟨by rw [hstays]; exact hstate, ?_⟩
  rw [heard_append, Breaker.run_append, hstays, heard_cons hbeat, Breaker.run_cons,
    Breaker.after_of_halfOpen hstate houtcome]
  rfl

/-- **What checks do before an open breaker, and what they tell it.**  In every run from every station, with
steps inside checks at any depth:

* the course is what the reports of the run tell, and the breaker of each step, as well as the one at the end,
  has heard exactly what stands before;
* once a query has opened the breaker (or a denial on trial, which the first condition admits too), each check
  with a sound record that starts before the reset time is over, and before the breaker is set back, is denied
  with the reset time, or a millisecond if that is longer, and with its record unchanged; nothing runs inside
  it, and the station after it is the one before, with its slots, its algorithm and its count of failures;
* a check tells the breaker one outcome, its own, if it came past the gate and the algorithm answered it, and
  otherwise none;
* the first outcome that is told to a breaker on trial closes it or opens it again. -/
theorem openBreaker_course (s₀ : Station) (steps : List Step) :
    ((beatsOf steps s₀).map Beat.note = notesOf (runAll steps s₀).1 ∧
      (∀ early step start late, beatsOf steps s₀ = early ++ .starts step start :: late →
        start.breaker = s₀.breaker.run (heard early)) ∧
      (runAll steps s₀).2.breaker = s₀.breaker.run (heard (beatsOf steps s₀))) ∧
    (∀ early opening mid subject keeps inside within start late m record,
      beatsOf steps s₀ =
        early ++ opening :: (mid ++ .starts (.check subject keeps inside within) start :: late) →
      opening.moment? = some m →
      (s₀.breaker.run (heard early)).opens m = true →
      Breaker.Holds m.time (s₀.breaker.run (heard early)).settings.reset (heard mid) →
      subject.resolve start.book = .ok record →
      record.fault? = none →
      start.clock.now - m.time < (s₀.breaker.run (heard early)).settings.reset.millis →
      (Step.check subject keeps inside within).run start =
        .check .settled
          (.ok ⟨.denied ((s₀.breaker.run (heard early)).settings.reset.max (.ofMillis 1)), record⟩)
          none none start) ∧
    (∀ subject keeps inside within start isAllowed,
      ((Step.check subject keeps inside within).run start).told? = some isAllowed ↔
        ∃ record admission, subject.resolve start.book = .ok record ∧
          PassesGate record start.breaker start.clock.now ∧
          ((Step.check subject keeps inside within).run start).outcome? = some (.ok admission) ∧
          admission.isAllowed = isAllowed) ∧
    ∀ early mid beat late m,
      beatsOf steps s₀ = early ++ (mid ++ beat :: late) →
      (s₀.breaker.run (heard early)).state = .halfOpen →
      Breaker.Leaves (heard mid) →
      beat.moment? = some m →
      m.event.isOutcome = true →
      (s₀.breaker.run (heard (early ++ mid))).state = .halfOpen ∧
        (s₀.breaker.run (heard (early ++ mid ++ [beat]))).state =
          if m.event = .success then .closed else .opened := by
  refine ⟨⟨map_note_beatsOf steps s₀, ?_, (follows_beatsOf steps s₀).heard_eq⟩, ?_, ?_, ?_⟩
  · intro early step start late hcourse
    exact breaker_start hcourse
  · intro early opening mid subject keeps inside within start late m record hcourse hopening hopens hmid
      hsubject hsound hearly
    obtain ⟨hopen, hsettings⟩ := breaker_while_open hcourse hopening hopens hmid
    have hdenied : (Step.check subject keeps inside within).run start =
        .check .settled (.ok ⟨.deny start.breaker.settings.reset, record⟩) none none start :=
      run_check_of_opened hsubject hsound hopen (by rw [hsettings]; exact hearly)
    rw [hsettings] at hdenied
    exact hdenied
  · intro subject keeps inside within start isAllowed
    exact told?_run_iff
  · intro early mid beat late m _ hstate hmid hbeat houtcome
    have hdecides := run_heard_of_halfOpen hstate hmid hbeat houtcome
    rw [← Breaker.run_append, ← Breaker.run_append, ← heard_append, ← heard_append] at hdecides
    rwa [List.append_assoc]

/-- A check of a client that may ask once. -/
def ask (client : String) (within : List Step) : Step :=
  .check (.given (.fresh ⟨client, .standard⟩ (.limited 1) 0)) false [] within

/-- While bob has the lock, ann is denied, which is one denial too many, and cid's check opens the breaker.  Then
bob is admitted after all, and dee asks.  Later, while eve is on trial, ann is denied again. -/
def rush : List Step :=
  [ask "ann" [], ask "bob" [ask "ann" [], ask "cid" []], .move (.set 3), ask "dee" [],
    .move (.set 6), ask "eve" [ask "ann" []]]

/-- The rush comes to a window of ten milliseconds, behind a breaker that opens after one denial for five. -/
def turnstile : Station :=
  ⟨ofRule (.fixedWindow (.ofMillis 10)) .standard (.ofMillis 50), .fresh ⟨1, .ofMillis 5⟩, ⟨0⟩, Table.empty⟩

/-- The station of cid, inside bob's check. -/
def cidArrives : Station :=
  ((ask "ann" []).run (((ask "ann" []).run turnstile).after.pastLock
    (.fresh ⟨"bob", .standard⟩ (.limited 1) 0) [])).after

/-- The station of dee. -/
def deeArrives : Station := (runAll (rush.take 3) turnstile).2

/-- The station of ann inside eve's check. -/
def annReturns : Station :=
  (runAll (rush.take 5) turnstile).2.pastLock (.fresh ⟨"eve", .standard⟩ (.limited 1) 0) []

/-- Dee is denied for five milliseconds, although bob's admission has come in since the breaker opened; and
ann's denial alone opens the breaker again. -/
theorem dee_denied_in_rush :
    (beatsOf rush turnstile = (beatsOf rush turnstile).take 5 ++ .starts (ask "cid" []) cidArrives ::
        ([.tells true 0, .starts (.move (.set 3)) (runAll (rush.take 2) turnstile).2] ++
          .starts (ask "dee" []) deeArrives :: (beatsOf rush turnstile).drop 9) ∧
      (turnstile.breaker.run (heard ((beatsOf rush turnstile).take 5))).opens ⟨0, .query⟩ = true ∧
      deeArrives.breaker.failures = 0 ∧
      (ask "dee" []).run deeArrives =
        .check .settled (.ok ⟨.denied (.ofMillis 5), .fresh ⟨"dee", .standard⟩ (.limited 1) 0⟩) none none
          deeArrives) ∧
    (beatsOf rush turnstile = (beatsOf rush turnstile).take 11 ++
        ([.starts (ask "ann" []) annReturns] ++ .tells false 6 :: [.tells true 6]) ∧
      (turnstile.breaker.run (heard ((beatsOf rush turnstile).take 11))).state = .halfOpen ∧
      (turnstile.breaker.run (heard ((beatsOf rush turnstile).take 11 ++
        [.starts (ask "ann" []) annReturns] ++ [.tells false 6]))).state = .opened) := by
  obtain ⟨-, hopen, -, htrial⟩ := openBreaker_course turnstile rush
  have hcourse : beatsOf rush turnstile =
      (beatsOf rush turnstile).take 5 ++ .starts (ask "cid" []) cidArrives ::
        ([.tells true 0, .starts (.move (.set 3)) (runAll (rush.take 2) turnstile).2] ++
          .starts (ask "dee" []) deeArrives :: (beatsOf rush turnstile).drop 9) := rfl
  have hcourse' : beatsOf rush turnstile = (beatsOf rush turnstile).take 11 ++
      ([.starts (ask "ann" []) annReturns] ++ .tells false 6 :: [.tells true 6]) := rfl
  refine ⟨⟨hcourse, by decide +kernel, by decide +kernel, ?_⟩, hcourse', by decide +kernel, ?_⟩
  · exact hopen _ _ _ _ _ _ _ _ _ ⟨0, .query⟩ _ hcourse rfl (by decide +kernel) (by decide +kernel) rfl
      (by decide +kernel) (by decide +kernel)
  · exact (htrial _ _ _ _ ⟨6, .failure⟩ hcourse' (by decide +kernel) (by decide +kernel) rfl rfl).2

end Limiter
end AdmissionControl
