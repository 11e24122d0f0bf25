import AdmissionControl.Proofs.Limiter.Transparency

/-!
# Calm runs

A run is calm if its steps come one after another and the breaker before them has room for a failure of every check.
Then nobody holds a lock between two steps, the breaker stays closed, and every check is answered as if it were
alone: by the gate, from its record, or by the algorithm.

* `Calm` — steps that are calm at a station; `calm_of_fresh` says when a run from the start is.
* `Alone`, `Calm.alone` — **what a check comes to in a calm run**.
* `Calm.step` — calm steps stay calm.
-/

namespace AdmissionControl

/-! ## A breaker with room -/

namespace Breaker

variable {b : Breaker}

theorem query_of_room (hclosed : b.state = .closed) (hroom : b.failures < b.settings.threshold) (now : Nat) :
    b.query now = (true, b) := by
  have hfew : ¬ b.settings.threshold ≤ b.failures := by omega
  unfold query
  rw [hclosed]
  dsimp only
  rw [if_neg hfew]

/-- An outcome leaves a closed breaker closed, with one failure more at most. -/
theorem observe_of_closed (hclosed : b.state = .closed) (isAllowed : Bool) (now : Nat) :
    (b.observe isAllowed now).state = .closed ∧ (b.observe isAllowed now).settings = b.settings ∧
      (b.observe isAllowed now).failures ≤ b.failures + 1 := by
  cases isAllowed with
  | true =>
      have hsucceed : b.observe true now = { b with failures := 0 } := by
        rw [observe, if_pos rfl, succeed, hclosed]
      rw [hsucceed]
      exact ⟨hclosed, rfl, Nat.zero_le _⟩
  | false =>
      have hfail : b.observe false now = { b with failures := min (b.failures + 1) maxFailures } := by
        rw [observe, if_neg Bool.false_ne_true, fail, hclosed]
      rw [hfail]
      exact ⟨hclosed, rfl, Nat.min_le_left ..⟩

end Breaker

namespace Limiter

/-! ## Checks before a closed breaker -/

/-- What the gate makes of a check while the breaker lets everything through. -/
def openGate (record : Record) : Gate :=
  match record.fault? with
  | some fault => .settled (.error (.invalid fault))
  | none => if record.policy.isUnrestricted then .settled (.ok (.pass record)) else .limited

theorem gate_of_query {record : Record} {b : Breaker} {now : Nat} (h : b.query now = (true, b)) :
    gate record b now = (openGate record, b) := by
  unfold gate openGate
  cases record.fault? with
  | some fault => rfl
  | none =>
      rw [h]
      cases record.policy.isUnrestricted <;> rfl

/-- What the gate settles while the breaker lets everything through leaves the station as it was. -/
theorem settle_of_openGate {s : Station} {subject : Subject} {record : Record} {outcome : Except Error Admission}
    (keeps : Bool) (hsubject : subject.resolve s.book = .ok record) (hgate : openGate record = .settled outcome) :
    s.settle s.breaker subject keeps outcome = s := by
  unfold openGate at hgate
  split at hgate
  · obtain rfl := Gate.settled.inj hgate
    rfl
  · split at hgate
    · obtain rfl := Gate.settled.inj hgate
      have hbook : (if keeps then subject.putBack s.book (.pass record) else s.book) = s.book := by
        cases keeps with
        | false => rfl
        | true => exact putBack_of_resolve hsubject
      unfold Station.settle
      dsimp only
      rw [hbook]
    · cases hgate

/-- Whether a step is a check. -/
def Step.isCheck : Step → Bool
  | check .. => true
  | sweep | move _ | breaker _ => false

/-- Whether a step is something that happens to the breaker from outside. -/
def Step.isEvent : Step → Bool
  | breaker _ => true
  | check .. | sweep | move _ => false

/-- The number of checks among some steps. -/
def checkCount (steps : List Step) : Nat := steps.countP Step.isCheck

theorem checkCount_cons_check (subject : Subject) (keeps : Bool) (inside within rest : List Step) :
    checkCount (.check subject keeps inside within :: rest) = checkCount rest + 1 :=
  List.countP_cons_of_pos rfl

/-- Steps that run one after another, before a breaker that has room for a failure of every check. -/
structure Calm (steps : List Step) (s : Station) : Prop where
  /-- Nothing runs inside a step. -/
  plain : ∀ step ∈ steps, step.isPlain = true
  /-- Nothing happens to the breaker from outside. -/
  quiet : ∀ step ∈ steps, step.isEvent = false
  /-- Nobody holds a lock. -/
  free : ∀ client, s.limiter.isHeld client = false
  /-- The breaker is closed. -/
  closed : s.breaker.state = .closed
  /-- If every check is denied, the breaker still need not open. -/
  room : s.breaker.failures + checkCount steps ≤ s.breaker.settings.threshold

/-- What a check that nobody disturbs comes to while the breaker stays closed: its outcome, and the station then. -/
inductive Alone (s : Station) (subject : Subject) (keeps : Bool) (record : Record) :
    Except Error Admission → Station → Prop
  /-- The gate settles it. -/
  | settled {outcome : Except Error Admission} (hgate : openGate record = .settled outcome) :
      Alone s subject keeps record outcome s
  /-- The algorithm answers it. -/
  | answered {l : Limiter} (hgate : openGate record = .limited) (hasked : Asked s.limiter record s.clock.now l) :
      Alone s subject keeps record (.ok (s.limiter.algorithm.answer record s.clock.now).1)
        (({ s with limiter := l } : Station).conclude subject keeps
          (s.limiter.algorithm.answer record s.clock.now).1)

/-- The checks of a limiter that nobody has asked yet are calm if the breaker, new as well, stands more failures than
there are checks. -/
theorem calm_of_fresh (rule : Rule) (locking : Locking) (inactivity : Duration) {settings : Breaker.Settings}
    (clock : Clock) (book : Table String Record) {steps : List Step} (hplain : ∀ step ∈ steps, step.isPlain = true)
    (hquiet : ∀ step ∈ steps, step.isEvent = false) (hroom : checkCount steps < settings.threshold) :
    Calm steps ⟨ofRule rule locking inactivity, .fresh settings, clock, book⟩ where
  plain := hplain
  quiet := hquiet
  free := fun _ => rfl
  closed := rfl
  room := by
    show 0 + checkCount steps ≤ settings.threshold
    omega

namespace Calm

variable {s s' : Station} {first : Step} {rest : List Step} {subject : Subject} {keeps : Bool}
  {inside within : List Step} {record : Record} {outcome : Except Error Admission}

theorem tail (h : Calm (first :: rest) s) : Calm rest s where
  plain := (List.forall_mem_cons.1 h.plain).2
  quiet := (List.forall_mem_cons.1 h.quiet).2
  free := h.free
  closed := h.closed
  room := by
    have hfewer : checkCount rest ≤ checkCount (first :: rest) := (List.sublist_cons_self first rest).countP_le
    have hroom := h.room
    omega

/-- The steps are as calm at another station without locks whose breaker is the same. -/
theorem congr (h : Calm rest s) (hfree : ∀ client, s'.limiter.isHeld client = false)
    (hbreaker : s'.breaker = s.breaker) : Calm rest s' where
  plain := h.plain
  quiet := h.quiet
  free := hfree
  closed := by
    rw [hbreaker]
    exact h.closed
  room := by
    rw [hbreaker]
    exact h.room

/-- **A check is answered as if it were alone.** -/
theorem alone (h : Calm (.check subject keeps inside within :: rest) s)
    (hsubject : subject.resolve s.book = .ok record) :
    ∃ outcome, ((Step.check subject keeps inside within).run s).outcome? = some outcome ∧
      Alone s subject keeps record outcome ((Step.check subject keeps inside within).run s).after := by
  obtain ⟨hinside, hwithin⟩ := (Bool.and_eq_true ..).mp (List.forall_mem_cons.1 h.plain).1
  obtain rfl := List.isEmpty_iff.1 hinside
  obtain rfl := List.isEmpty_iff.1 hwithin
  have hroom : s.breaker.failures < s.breaker.settings.threshold := by
    have hroom := h.room
    rw [checkCount_cons_check] at hroom
    omega
  have hgate : gate record s.breaker s.clock.now = (openGate record, s.breaker) :=
    gate_of_query (Breaker.query_of_room h.closed hroom s.clock.now)
  cases hopen : openGate record with
  | settled outcome =>
      have hsettled : (gate record s.breaker s.clock.now).1 = .settled outcome := by rw [hgate, hopen]
      rw [run_check_settled hsubject hsettled, hgate]
      refine ⟨outcome, rfl, ?_⟩
      show Alone s subject keeps record outcome (s.settle s.breaker subject keeps outcome)
      rw [settle_of_openGate keeps hsubject hopen]
      exact .settled hopen
  | limited =>
      have hlimited : (gate record s.breaker s.clock.now).1 = .limited := by rw [hgate, hopen]
      obtain ⟨route, inside, within, l, hrun, -, hasked⟩ :=
        run_check_alone keeps hsubject hlimited (h.free record.client.id)
      have hpast : ({ s.pastGate record with limiter := l } : Station) = { s with limiter := l } := by
        unfold Station.pastGate
        rw [hgate]
      rw [hrun, hpast]
      exact ⟨_, rfl, .answered hopen hasked⟩

/-- Calm steps stay calm. -/
theorem step (h : Calm (first :: rest) s) : Calm rest (first.run s).after := by
  cases first with
  | sweep =>
      rw [Step.run]
      refine h.tail.congr ?_ rfl
      intro client
      exact (isHeld_sweep ..).trans (h.free client)
  | move m =>
      rw [Step.run]
      exact h.tail.congr h.free rfl
  | breaker event => exact absurd (List.forall_mem_cons.1 h.quiet).1.symm Bool.false_ne_true
  | check subject keeps inside within =>
      cases hsubject : subject.resolve s.book with
      | error error =>
          rw [Step.run, hsubject]
          exact h.tail
      | ok record =>
          obtain ⟨outcome, -, halone⟩ := h.alone hsubject
          generalize ((Step.check subject keeps inside within).run s).after = s' at halone
          cases halone with
          | settled hgate => exact h.tail
          | @answered l hgate hasked =>
              obtain ⟨hclosed, hsettings, hfailures⟩ := Breaker.observe_of_closed h.closed
                (s.limiter.algorithm.answer record s.clock.now).1.isAllowed s.clock.now
              refine ⟨h.tail.plain, h.tail.quiet, hasked.free h.free, hclosed, ?_⟩
              have hroom := h.room
              rw [checkCount_cons_check] at hroom
              show (s.breaker.observe _ s.clock.now).failures + _ ≤ (s.breaker.observe _ s.clock.now).settings.threshold
              rw [hsettings]
              omega

end Calm
end Limiter
end AdmissionControl
