import AdmissionControl.Proofs.Service.SoleChecks

/-!
# The outcomes of a run add up

Decision, record, metrics and throttling are stages of a check with ways out between them.  In a run of checks one
after another, with interrupts, changes of the settings and other events in between, every check is accounted for.

* `Accounted`, `Sole.accounted` — what a single check tells and leaves, in terms of the decision about it.
* `Booked` — metrics and stored record of a client on an endpoint agree with what was told; `Sole.booked` is one check,
  `booked_performAll` a run.
* `outcomes_accounted` — **both together, for every run of a new service**.
-/

namespace AdmissionControl

/-! ## Counting -/

/-- To count an outcome changes the counts of its client on its endpoint, by one. -/
theorem Metrics.read_count (m : Metrics) (endpoint id endpoint' id' : String) (isAllowed : Bool) :
    (m.count endpoint id isAllowed).read endpoint' id' =
      if (endpoint', id') = (endpoint, id) then
        ⟨(m.read endpoint id).successes + isAllowed.toNat, (m.read endpoint id).exceeded + (!isAllowed).toNat⟩
      else m.read endpoint' id' := by
  unfold count
  cases isAllowed with
  | true =>
      unfold success
      rw [if_pos rfl]
      unfold read
      rw [Table.get?_set]
      split <;> rfl
  | false =>
      unfold exceed
      rw [if_neg Bool.false_ne_true]
      unfold read
      rw [Table.get?_set]
      split <;> rfl

/-- To stop at the largest word on the way makes no difference at the end. -/
theorem Word.saturate_succ_saturate (n : Nat) : saturate (saturate n + 1) = saturate (n + 1) := by
  simp only [saturate]
  omega

namespace Service

variable {s s' : Service} {endpoint client : String} {answer : Except Error Verdict}

/-! ## Answers -/

/-- Whether an answer lets its caller go on. -/
def isPass : Except Error Verdict → Bool
  | .ok verdict => verdict.isAllowed
  | .error _ => false

/-- Whether an answer comes after a wait: its caller was denied, and kept to the end. -/
def isWait : Except Error Verdict → Bool
  | .ok verdict => !verdict.isAllowed
  | .error _ => false

/-- Whether an answer tells of a denial: its caller has waited, was turned away or was not kept to the end. -/
def isDenial : Except Error Verdict → Bool
  | .ok verdict => !verdict.isAllowed
  | .error error => error.isThrottle

theorem isPass_told_denied (endpoint client : String) (hint : Duration) (fault : Option ThrottleFault) :
    isPass (told endpoint client (.denied hint) fault) = false := by
  cases fault <;> rfl

theorem isDenial_told_denied (endpoint client : String) (hint : Duration) (fault : Option ThrottleFault) :
    isDenial (told endpoint client (.denied hint) fault) = true := by
  rcases fault with - | (_ | _) <;> rfl

theorem isWait_told_denied (endpoint client : String) (hint : Duration) (fault : Option ThrottleFault) :
    isWait (told endpoint client (.denied hint) fault) = fault.isNone := by
  cases fault <;> rfl

/-! ## What a check leaves of records and metrics -/

/-- A record that nobody has saved yet counts no request. -/
theorem requests_record (s : Service) (key : RecordKey) : (s.record key).requests = requestsOf (s.stored? key) := by
  rw [record_eq]
  cases s.stored? key <;> rfl

theorem requestsOf_trial {r : Request} {outcome : Except Error (Admission × Strategy)}
    (htrial : s.trial r = (outcome, s')) (key : RecordKey) :
    requestsOf (s'.stored? key) = requestsOf (s.stored? key) := by
  rw [stored?_of_trial htrial key]
  by_cases hkey : key = r.key
  · rw [if_pos hkey, hkey]
    exact requests_record (s.greet r) r.key
  · rw [if_neg hkey]

theorem metrics_of_trial {r : Request} {outcome : Except Error (Admission × Strategy)}
    (htrial : s.trial r = (outcome, s')) : s'.stores.metrics = s.stores.metrics := by
  rw [(decision_of_eq htrial).frame.2.1]
  rfl

/-- A record that is stored stays as it is until the request is admitted. -/
theorem stored?_trial_of_some {r : Request} {outcome : Except Error (Admission × Strategy)}
    (htrial : s.trial r = (outcome, s')) {key : RecordKey} {record : Record} (hstored : s.stored? key = some record) :
    s'.stored? key = some record := by
  rw [stored?_of_trial htrial key]
  by_cases hkey : key = r.key
  · have hrecord : (s.greet r).record r.key = (s.stored? r.key).getD _ := record_eq (s.greet r) r.key
    rw [if_pos hkey, hrecord, ← hkey, hstored]
    rfl
  · rw [if_neg hkey, hstored]

/-- The books of a client on an endpoint: so many requests were allowed, so many were denied, and the stored record
counts those that were allowed. -/
structure Booked (s : Service) (key : RecordKey) (passes denials : Nat) : Prop where
  /-- The metrics. -/
  counts : s.stores.metrics.read key.endpoint key.client = ⟨passes, denials⟩
  /-- The record, whose count is a word that stops at the largest one. -/
  requests : requestsOf (s.stored? key) = Word.saturate passes

/-- The metrics after a check has been counted. -/
theorem counts_of_finish {key : RecordKey} {passes denials : Nat} {s₁ : Service} {r : Request}
    {outcome : Except Error (Admission × Strategy)} (hs : s.Booked key passes denials)
    (htrial : s.trial r = (outcome, s₁)) (isAllowed : Bool) :
    (s₁.stores.metrics.count r.endpoint (s.identified r).id isAllowed).read key.endpoint key.client =
      ⟨passes + (r.key == key && isAllowed).toNat, denials + (r.key == key && !isAllowed).toNat⟩ := by
  rw [metrics_of_trial htrial, identified_id, Metrics.read_count]
  by_cases hkey : r.key = key
  · subst hkey
    have hcounts : s.stores.metrics.read r.endpoint r.client = ⟨passes, denials⟩ := hs.counts
    have hsame : (r.key.endpoint, r.key.client) = (r.endpoint, r.client) := rfl
    rw [if_pos hsame, hcounts, beq_self_eq_true, Bool.true_and, Bool.true_and]
  · have hne : ¬(key.endpoint, key.client) = (r.endpoint, r.client) := by
      intro hsame
      obtain ⟨hendpoint, hclient⟩ := Prod.mk.inj hsame
      apply hkey
      unfold Request.key
      rw [← hendpoint, ← hclient]
    rw [if_neg hne, hs.counts, beq_eq_false_iff_ne.2 hkey]
    rfl

/-- **One check keeps the books.** -/
theorem Sole.booked {key : RecordKey} {passes denials : Nat} (h : Sole s endpoint client answer s')
    (hplain : s.fittings.resolver.Plain) (hs : s.Booked key passes denials) :
    s'.Booked key (passes + ((⟨client, endpoint⟩ : RecordKey) == key && isPass answer).toNat)
      (denials + ((⟨client, endpoint⟩ : RecordKey) == key && isDenial answer).toNat) := by
  cases h with
  | @undecided error s₁ htrial =>
      have hthrottle : isDenial (.error error) = false := (decision_of_eq htrial).isThrottle_eq hplain
      have hpass : isPass (.error error) = false := rfl
      rw [hthrottle, hpass, Bool.and_false]
      refine ⟨?_, ?_⟩
      · show s₁.stores.metrics.read key.endpoint key.client = _
        rw [metrics_of_trial htrial]
        exact hs.counts
      · show requestsOf (s₁.stored? key) = _
        rw [requestsOf_trial htrial]
        exact hs.requests
  | @allowed admission strategy s₁ htrial hverdict =>
      refine ⟨counts_of_finish hs htrial true, ?_⟩
      show requestsOf ((s₁.save ⟨client, endpoint⟩ admission.record.countRequest).stored? key) = _
      rw [stored?_save]
      by_cases hkey : key = ⟨client, endpoint⟩
      · subst hkey
        have hloaded : admission.record.requests = requestsOf (s.stored? ⟨client, endpoint⟩) :=
          (decision_of_eq htrial).requests_eq.trans
            (requests_record (s.greet (.fresh endpoint client)) ⟨client, endpoint⟩)
        rw [if_pos rfl, beq_self_eq_true]
        show Word.saturate (admission.record.requests + 1) = Word.saturate (passes + 1)
        rw [hloaded, hs.requests, Word.saturate_succ_saturate]
      · rw [if_neg hkey, requestsOf_trial htrial, beq_eq_false_iff_ne.2 (Ne.symm hkey)]
        exact hs.requests
  | @denied admission strategy s₁ hint fault room htrial hverdict hdismissed =>
      rw [isPass_told_denied, isDenial_told_denied]
      refine ⟨counts_of_finish hs htrial false, ?_⟩
      show requestsOf (s₁.stored? key) = _
      rw [requestsOf_trial htrial, Bool.and_false]
      exact hs.requests

/-- A check adds its wait to those that were written down, and no other. -/
theorem Sole.slept_eq (h : Sole s endpoint client answer s') :
    s'.room.slept.length = s.room.slept.length + (isWait answer).toNat := by
  cases h with
  | undecided htrial => exact congrArg (·.slept.length) (premises_of_trial htrial).2
  | allowed htrial hverdict => exact congrArg (·.slept.length) (premises_of_trial htrial).2
  | denied htrial hverdict hdismissed =>
      rw [isWait_told_denied]
      cases hdismissed with
      | rejected hkind => rfl
      | interrupted hkind hinterrupted => rfl
      | waited hkind hquiet hplan => exact List.length_append

/-! ## What a check tells -/

/-- A check of a client on an endpoint, which tells `answer` and leaves `s'`, is accounted for by the decision. -/
structure Accounted (s : Service) (endpoint client : String) (answer : Except Error Verdict) (s' : Service) : Prop where
  /-- If nothing can be decided, the answer says why, and the throttling has no part in it. -/
  undecided : ∀ error, (s.trial (.fresh endpoint client)).1 = .error error →
    answer = .error error ∧ error.isThrottle = false
  /-- The strategy is the one that the live settings have for the endpoint and for the tier of the client. -/
  strategy_eq : ∀ admission strategy, (s.trial (.fresh endpoint client)).1 = .ok (admission, strategy) →
    strategy = .ofKind s.live.current.settings
      (s.live.current.settings.strategyFor endpoint (s.identified (.fresh endpoint client)).tier)
  /-- Who is admitted is told so. -/
  allowed : ∀ admission strategy, (s.trial (.fresh endpoint client)).1 = .ok (admission, strategy) →
    admission.verdict = .allowed → answer = .ok .allowed
  /-- Who is denied is turned away if the strategy is to reject, is not kept if waits are interrupted, and is kept
  otherwise; in each case the answer has the hint of the denial. -/
  denied : ∀ admission strategy hint, (s.trial (.fresh endpoint client)).1 = .ok (admission, strategy) →
    admission.verdict = .denied hint →
      (answer = .error (.rejected client endpoint hint) ↔ strategy.kind = .reject) ∧
        (answer = .error (.interrupted client endpoint hint) ↔
          strategy.kind ≠ .reject ∧ s.room.isInterrupted = true) ∧
        (answer = .ok (.denied hint) ↔ strategy.kind ≠ .reject ∧ s.room.isInterrupted = false)
  /-- Who was kept has slept once, for as long as the strategy asks: to delay asks for the hint. -/
  slept : ∀ hint, answer = .ok (.denied hint) → ∃ admission strategy time,
    (s.trial (.fresh endpoint client)).1 = .ok (admission, strategy) ∧ admission.verdict = .denied hint ∧
      strategy.plan (.denied hint) = .wait time hint ∧ (strategy.kind = .delay → time = hint) ∧
      s'.room = { s.room with slept := s.room.slept ++ [time] }
  /-- Nobody else has slept. -/
  awake : (∀ hint, answer ≠ .ok (.denied hint)) → s'.room = s.room
  /-- An error in which the throttling has no part leaves the counts, the records that exist and the waiting room. -/
  failed : ∀ error, answer = .error error → error.isThrottle = false →
    s'.stores.metrics = s.stores.metrics ∧
      (∀ key record, s.stored? key = some record → s'.stored? key = some record) ∧ s'.room = s.room

/-- What a denied caller is told depends on its strategy and on the interrupt alone. -/
theorem Dismissed.told_iff {room room' : WaitingRoom} {strategy : Strategy} {hint : Duration}
    {fault : Option ThrottleFault} (h : Dismissed room strategy hint fault room') (endpoint client : String) :
    (told endpoint client (.denied hint) fault = .error (.rejected client endpoint hint) ↔ strategy.kind = .reject) ∧
      (told endpoint client (.denied hint) fault = .error (.interrupted client endpoint hint) ↔
        strategy.kind ≠ .reject ∧ room.isInterrupted = true) ∧
      (told endpoint client (.denied hint) fault = .ok (.denied hint) ↔
        strategy.kind ≠ .reject ∧ room.isInterrupted = false) := by
  cases h with
  | rejected hkind => simp [told, ThrottleFault.toError, hkind]
  | interrupted hkind hinterrupted => simp [told, ThrottleFault.toError, hkind, hinterrupted]
  | waited hkind hquiet hplan => simp [told, hkind, hquiet]

/-- To delay is to wait for as long as the denial asks. -/
theorem time_eq_of_delay {strategy : Strategy} {hint time : Duration}
    (hplan : strategy.plan (.denied hint) = .wait time hint) (hkind : strategy.kind = .delay) : time = hint := by
  cases strategy with
  | delay => exact (Plan.wait.inj hplan).1.symm
  | reject => cases hkind
  | backoff initial multiplier => cases hkind

section Decided

variable {admission : Admission} {strategy : Strategy} {hint : Duration} {error : Error}

theorem Sole.eq_of_undecided (h : Sole s endpoint client answer s') (hplain : s.fittings.resolver.Plain)
    (hdecided : (s.trial (.fresh endpoint client)).1 = .error error) :
    answer = .error error ∧ error.isThrottle = false := by
  cases h with
  | undecided htrial =>
      rw [htrial] at hdecided
      obtain rfl := Except.error.inj hdecided
      exact ⟨rfl, (decision_of_eq htrial).isThrottle_eq hplain⟩
  | allowed htrial hverdict =>
      rw [htrial] at hdecided
      cases hdecided
  | denied htrial hverdict hdismissed =>
      rw [htrial] at hdecided
      cases hdecided

theorem Sole.eq_of_allowed (h : Sole s endpoint client answer s')
    (hdecided : (s.trial (.fresh endpoint client)).1 = .ok (admission, strategy))
    (hallowed : admission.verdict = .allowed) : answer = .ok .allowed := by
  cases h with
  | undecided htrial =>
      rw [htrial] at hdecided
      cases hdecided
  | allowed htrial hverdict => rfl
  | denied htrial hverdict hdismissed =>
      rw [htrial] at hdecided
      obtain ⟨rfl, -⟩ := Prod.mk.inj (Except.ok.inj hdecided)
      cases hallowed.symm.trans hverdict

theorem Sole.eq_iff_of_denied (h : Sole s endpoint client answer s')
    (hdecided : (s.trial (.fresh endpoint client)).1 = .ok (admission, strategy))
    (hdenied : admission.verdict = .denied hint) :
    (answer = .error (.rejected client endpoint hint) ↔ strategy.kind = .reject) ∧
      (answer = .error (.interrupted client endpoint hint) ↔ strategy.kind ≠ .reject ∧ s.room.isInterrupted = true) ∧
      (answer = .ok (.denied hint) ↔ strategy.kind ≠ .reject ∧ s.room.isInterrupted = false) := by
  cases h with
  | undecided htrial =>
      rw [htrial] at hdecided
      cases hdecided
  | allowed htrial hverdict =>
      rw [htrial] at hdecided
      obtain ⟨rfl, -⟩ := Prod.mk.inj (Except.ok.inj hdecided)
      cases hdenied.symm.trans hverdict
  | denied htrial hverdict hdismissed =>
      rw [htrial] at hdecided
      obtain ⟨rfl, rfl⟩ := Prod.mk.inj (Except.ok.inj hdecided)
      obtain rfl := Verdict.denied.inj (hdenied.symm.trans hverdict)
      exact hdismissed.told_iff endpoint client

theorem Sole.exists_wait (h : Sole s endpoint client answer s') (hanswer : answer = .ok (.denied hint)) :
    ∃ admission strategy time, (s.trial (.fresh endpoint client)).1 = .ok (admission, strategy) ∧
      admission.verdict = .denied hint ∧ strategy.plan (.denied hint) = .wait time hint ∧
      (strategy.kind = .delay → time = hint) ∧ s'.room = { s.room with slept := s.room.slept ++ [time] } := by
  cases h with
  | undecided htrial => cases hanswer
  | allowed htrial hverdict => cases hanswer
  | denied htrial hverdict hdismissed =>
      cases hdismissed with
      | rejected hkind => cases hanswer
      | interrupted hkind hinterrupted => cases hanswer
      | waited hkind hquiet hplan =>
          obtain rfl := Verdict.denied.inj (Except.ok.inj hanswer)
          exact ⟨_, _, _, congrArg Prod.fst htrial, hverdict, hplan, time_eq_of_delay hplan, rfl⟩

theorem Sole.room_eq (h : Sole s endpoint client answer s') (hanswer : ∀ hint, answer ≠ .ok (.denied hint)) :
    s'.room = s.room := by
  cases h with
  | undecided htrial => exact (premises_of_trial htrial).2
  | allowed htrial hverdict => exact (premises_of_trial htrial).2
  | denied htrial hverdict hdismissed =>
      cases hdismissed with
      | rejected hkind => rfl
      | interrupted hkind hinterrupted => rfl
      | waited hkind hquiet hplan => exact absurd rfl (hanswer _)

theorem Sole.frame_of_failed (h : Sole s endpoint client answer s') (hanswer : answer = .error error)
    (hthrottle : error.isThrottle = false) :
    s'.stores.metrics = s.stores.metrics ∧
      ∀ key record, s.stored? key = some record → s'.stored? key = some record := by
  cases h with
  | undecided htrial =>
      exact ⟨(metrics_of_trial htrial :), fun _ _ hstored => (stored?_trial_of_some htrial hstored :)⟩
  | allowed htrial hverdict => cases hanswer
  | @denied _ _ _ hint fault _ htrial hverdict hdismissed =>
      have hdenial := isDenial_told_denied endpoint client hint fault
      rw [hanswer] at hdenial
      exact absurd (hthrottle.symm.trans hdenial) Bool.false_ne_true

end Decided

/-- **Every check is accounted for.** -/
theorem Sole.accounted (h : Sole s endpoint client answer s') (hs : s.Ready) :
    Accounted s endpoint client answer s' where
  undecided _ := h.eq_of_undecided hs.plain
  strategy_eq := (strategies_of_trial (Prod.eta _).symm hs.strategies).2
  allowed _ _ := h.eq_of_allowed
  denied _ _ _ := h.eq_iff_of_denied
  slept _ := h.exists_wait
  awake := h.room_eq
  failed error hanswer hthrottle := by
    obtain ⟨hmetrics, hstored⟩ := h.frame_of_failed hanswer hthrottle
    exact ⟨hmetrics, hstored, h.room_eq fun hint hwait => nomatch hanswer.symm.trans hwait⟩

/-! ## Runs -/

/-- Whether an event changes the waiting room. -/
def Event.isRoom : Event → Bool
  | room _ => true
  | move _ | sweep | update _ | breaker _ | directory _ | exemptions _ => false

/-- An act of a run in which checks come one after another. -/
inductive Act
  /-- A client asks on an endpoint, with an interrupt after a while if one is set. -/
  | check (endpoint client : String) (interruptAfter : Option Duration)
  /-- The interrupt is raised. -/
  | interrupt
  /-- The interrupt is taken back. -/
  | clear
  /-- Settings are to go live, or something else happens outside of the waiting room. -/
  | happen (event : Event) (elsewhere : event.isRoom = false)

/-- The service after an act. -/
def perform (s : Service) : Act → Service
  | .check endpoint client interruptAfter => (s.check endpoint client interruptAfter).2
  | .interrupt => s.interrupt
  | .clear => { s with room := s.room.clear }
  | .happen event _ => s.happen event

/-- The service after acts one after another. -/
def performAll (s : Service) (acts : List Act) : Service := acts.foldl perform s

/-- What an act answers, and about which record. -/
def answer? (s : Service) : Act → Option (RecordKey × Except Error Verdict)
  | .check endpoint client interruptAfter => some (⟨client, endpoint⟩, (s.check endpoint client interruptAfter).1)
  | .interrupt | .clear | .happen .. => none

/-- What acts one after another answer. -/
def answers (s : Service) : List Act → List (RecordKey × Except Error Verdict)
  | [] => []
  | act :: rest => (s.answer? act).toList ++ (s.perform act).answers rest

/-- The number of answers about a record that have a property. -/
def tally (key : RecordKey) (p : Except Error Verdict → Bool) (answers : List (RecordKey × Except Error Verdict)) :
    Nat :=
  answers.countP fun a => a.1 == key && p a.2

variable {act : Act} {acts : List Act} {event : Event} {key : RecordKey} {passes denials : Nat}

theorem room_happen (s : Service) (h : event.isRoom = false) : (s.happen event).room = s.room := by
  cases event with
  | room room => cases h
  | update settings =>
      rw [happen]
      split
      · rename_i change s' hupdate
        exact (premises_update hupdate).2
      · rfl
  | move move => rfl
  | sweep => rfl
  | breaker event => rfl
  | directory directory => rfl
  | exemptions exemptions => rfl

theorem metrics_happen (s : Service) (event : Event) : (s.happen event).stores.metrics = s.stores.metrics := by
  cases event with
  | update settings =>
      rw [happen]
      split
      · rename_i change s' hupdate
        rw [(frame_update hupdate).2.1]
      · rfl
  | move move => rfl
  | sweep => rfl
  | breaker event => rfl
  | room room => rfl
  | directory directory => rfl
  | exemptions exemptions => rfl

/-- Strategies do not outlive the settings that they were made from. -/
theorem strategies_happen (hs : s.strategies.MadeFrom s.live.current.settings) (event : Event) :
    (s.happen event).strategies.MadeFrom (s.happen event).live.current.settings := by
  cases event with
  | update settings =>
      rw [happen]
      split
      · rename_i change s' hupdate
        exact (inStep_update hupdate).1.strategies
      · exact hs
  | move move => exact hs
  | sweep => exact hs
  | breaker event => exact hs
  | room room => exact hs
  | directory directory => exact hs
  | exemptions exemptions => exact hs

theorem Ready.happen (hs : s.Ready) (h : event.isRoom = false) : (s.happen event).Ready := by
  have hfittings := fittings_happen s event
  refine ⟨?_, ?_, ?_, ?_, strategies_happen hs.strategies event⟩
  · rw [hfittings]
    exact hs.yields
  · rw [hfittings]
    exact hs.plain
  · rw [room_happen s h]
    exact hs.tracking
  · rw [locks_happen]
    exact hs.idle

theorem Ready.perform (hs : s.Ready) (act : Act) : (s.perform act).Ready := by
  cases act with
  | check endpoint client interruptAfter => exact (sole_check hs endpoint client interruptAfter).ready hs
  | interrupt => exact ⟨hs.yields, hs.plain, hs.tracking, hs.idle, hs.strategies⟩
  | clear => exact ⟨hs.yields, hs.plain, hs.tracking, hs.idle, hs.strategies⟩
  | happen event elsewhere => exact hs.happen elsewhere

theorem ready_performAll (hs : s.Ready) (acts : List Act) : (s.performAll acts).Ready := by
  induction acts generalizing s with
  | nil => exact hs
  | cons act rest ih => exact ih (hs.perform act)

theorem tally_cons (key : RecordKey) (p : Except Error Verdict → Bool) (a : RecordKey × Except Error Verdict)
    (answers : List (RecordKey × Except Error Verdict)) :
    tally key p (a :: answers) = (a.1 == key && p a.2).toNat + tally key p answers := by
  unfold tally
  rw [List.countP_cons, Nat.add_comm]
  cases a.1 == key && p a.2 <;> rfl

/-- **Every act keeps the books**: checks as they are answered, and the others as they are. -/
theorem Booked.perform (hs : s.Booked key passes denials) (hready : s.Ready) (act : Act) :
    (s.perform act).Booked key (passes + tally key isPass (s.answer? act).toList)
      (denials + tally key isDenial (s.answer? act).toList) := by
  cases act with
  | check endpoint client interruptAfter =>
      have hbooked := (sole_check hready endpoint client interruptAfter).booked hready.plain hs
      unfold answer?
      rw [Option.toList_some, tally_cons, tally_cons]
      exact hbooked
  | interrupt => exact ⟨hs.counts, hs.requests⟩
  | clear => exact ⟨hs.counts, hs.requests⟩
  | happen event elsewhere =>
      refine ⟨?_, ?_⟩
      · show (s.happen event).stores.metrics.read key.endpoint key.client = _
        rw [metrics_happen]
        exact hs.counts
      · show requestsOf ((s.happen event).stored? key) = _
        rw [stored?_happen]
        exact hs.requests

theorem tally_le_length (key : RecordKey) (p : Except Error Verdict → Bool)
    (answers : List (RecordKey × Except Error Verdict)) : tally key p answers ≤ answers.length :=
  List.countP_le_length

/-- There is at most one answer to each act. -/
theorem length_answers_le (s : Service) (acts : List Act) : (s.answers acts).length ≤ acts.length := by
  induction acts generalizing s with
  | nil => exact Nat.le_refl _
  | cons act rest ih =>
      have hact : (s.answer? act).toList.length ≤ 1 := Option.length_toList_le
      have hrest := ih (s.perform act)
      rw [answers, List.length_append, List.length_cons]
      omega

theorem tally_append (key : RecordKey) (p : Except Error Verdict → Bool)
    (first second : List (RecordKey × Except Error Verdict)) :
    tally key p (first ++ second) = tally key p first + tally key p second :=
  List.countP_append

theorem booked_performAll (hs : s.Booked key passes denials) (hready : s.Ready) (acts : List Act) :
    (s.performAll acts).Booked key (passes + tally key isPass (s.answers acts))
      (denials + tally key isDenial (s.answers acts)) := by
  induction acts generalizing s passes denials with
  | nil => exact hs
  | cons act rest ih =>
      have hrest := ih (hs.perform hready act) (hready.perform act)
      unfold answers
      rw [tally_append, tally_append, ← Nat.add_assoc, ← Nat.add_assoc]
      exact hrest

/-- The number of waits that were written down grows with the answers that come after one. -/
theorem slept_perform (hready : s.Ready) (act : Act) :
    (s.perform act).room.slept.length =
      s.room.slept.length + (s.answer? act).toList.countP (isWait ·.2) := by
  cases act with
  | check endpoint client interruptAfter =>
      have hslept := (sole_check hready endpoint client interruptAfter).slept_eq
      unfold answer?
      rw [Option.toList_some, List.countP_singleton]
      refine hslept.trans ?_
      cases isWait (s.check endpoint client interruptAfter).1 <;> rfl
  | interrupt => rfl
  | clear => rfl
  | happen event elsewhere => exact congrArg (·.slept.length) (room_happen s elsewhere)

theorem slept_performAll (hready : s.Ready) (acts : List Act) :
    (s.performAll acts).room.slept.length = s.room.slept.length + (s.answers acts).countP (isWait ·.2) := by
  induction acts generalizing s with
  | nil => rfl
  | cons act rest ih =>
      have hrest := ih (hready.perform act)
      rw [slept_perform hready act, Nat.add_assoc] at hrest
      unfold answers
      rw [List.countP_append]
      exact hrest

/-! ## A new service -/

section New

variable {settings : Settings} {fittings : Fittings} {given : Option Breaker} {stores : Stores} {clock : Clock}

/-- A new service has its stores as they were given, and an empty waiting room. -/
theorem stores_build {sleeper : Sleeper} (h : Service.build settings fittings sleeper given stores clock = .ok s) :
    s.stores = stores ∧ s.room = .start sleeper := by
  rw [Service.build] at h
  split at h
  · cases h
  · split at h
    · cases h
    · obtain rfl := Except.ok.inj h
      exact ⟨rfl, rfl⟩

theorem ready_build (h : Service.build settings fittings .tracking given stores clock = .ok s)
    (hyields : fittings.yields = false) (hplain : fittings.resolver.Plain) : s.Ready := by
  have hfittings := Traffic.fittings_build h
  refine ⟨?_, ?_, ?_, ?_, (inStep_build h).1.strategies⟩
  · rw [hfittings]
    exact hyields
  · rw [hfittings]
    exact hplain
  · rw [(stores_build h).2]
    rfl
  · rw [(Traffic.frame_build h).1]
    exact RecordLocks.idle_empty

/-- **The outcomes of every run add up.**  A service starts with an empty repository that lets nobody go first, with
empty metrics, with a resolver that does not speak for the throttling (`Resolver.plain_settings`,
`Resolver.plain_table`), and with waits that are only written down.  Clients ask one after another; in between,
interrupts are raised and taken back, settings change, and anything else may happen outside of the waiting room.  Then

* for each client on each endpoint, the metrics count the answers that let it go on and those that tell of a denial,
  and the stored record counts the former, in a word that stops at the largest one;
* in as many acts as a word counts, neither count of the metrics leaves its word;
* as many waits were written down as there are answers that come after one;
* every check is accounted for. -/
theorem outcomes_accounted (hbuild : Service.build settings fittings .tracking given stores clock = .ok s)
    (hrepository : stores.repository = .empty) (hmetrics : stores.metrics = .empty)
    (hyields : fittings.yields = false) (hplain : fittings.resolver.Plain) (acts : List Act) :
    let last := s.performAll acts
    let answers := s.answers acts
    (∀ key : RecordKey,
      last.stores.metrics.read key.endpoint key.client = ⟨tally key isPass answers, tally key isDenial answers⟩ ∧
        requestsOf (last.stored? key) = Word.saturate (tally key isPass answers) ∧
        (tally key isPass answers ≤ Word.max → requestsOf (last.stored? key) = tally key isPass answers) ∧
        (acts.length ≤ Word.max →
          (last.stores.metrics.read key.endpoint key.client).successes ≤ Word.max ∧
            (last.stores.metrics.read key.endpoint key.client).exceeded ≤ Word.max)) ∧
      last.room.slept.length = answers.countP (isWait ·.2) ∧
      ∀ early late endpoint client interruptAfter, acts = early ++ .check endpoint client interruptAfter :: late →
        Accounted (s.performAll early) endpoint client
          ((s.performAll early).check endpoint client interruptAfter).1
          ((s.performAll early).check endpoint client interruptAfter).2 := by
  intro last answers
  have hready : s.Ready := ready_build hbuild hyields hplain
  obtain ⟨hstores, hroom⟩ := stores_build hbuild
  refine ⟨fun key => ?_, ?_, ?_⟩
  · have hnew : s.Booked key 0 0 := by
      refine ⟨?_, ?_⟩
      · rw [hstores, hmetrics]
        rfl
      · rw [stored?, hstores, hrepository]
        rfl
    have hbooked := booked_performAll hnew hready acts
    rw [Nat.zero_add, Nat.zero_add] at hbooked
    have hle : ∀ p, tally key p answers ≤ acts.length := by
      intro p
      exact Nat.le_trans (tally_le_length key p answers) (s.length_answers_le acts)
    refine ⟨hbooked.counts, hbooked.requests, fun hword => ?_, fun hacts => ?_⟩
    · rw [hbooked.requests]
      exact Word.saturate_of_le hword
    · rw [hbooked.counts]
      exact ⟨Nat.le_trans (hle isPass) hacts, Nat.le_trans (hle isDenial) hacts⟩
  · have hslept := slept_performAll hready acts
    rw [hroom] at hslept
    exact hslept.trans (Nat.zero_add _)
  · intro early late endpoint client interruptAfter _
    have hearly := ready_performAll hready early
    exact (sole_check hearly endpoint client interruptAfter).accounted hearly

end New

/-- Where nobody has a policy for the cellar. -/
def cellarless : Resolver := .table (Table.ofList [("cellar@default", Except.error (.unknownTier "cellar"))])

/-- The service of a gallery, where one visitor in a window goes on, and whoever comes too soon waits. -/
def gallery : Service :=
  { Traffic.opening with
    fittings := { Fittings.standard with resolver := cellarless }
    live := ⟨⟨1, { Traffic.press with defaultStrategy := .delay }⟩, []⟩ }

/-- Ann comes too soon three times: she waits, is not kept, and is turned away by the settings of the press, under
which she has a new window.  In the cellar she has no policy. -/
def visits : List Act :=
  [.check "hall" "ann" none, .check "hall" "ann" none, .interrupt, .check "hall" "ann" (some (.ofMillis 5)), .clear,
    .check "cellar" "ann" none, .happen (.update Traffic.press) rfl, .check "hall" "ann" none,
    .check "hall" "ann" none]

/-- Ann's two visits to the hall are counted, her three denials and her one wait; her way to the cellar leaves no
trace. -/
theorem gallery_outcomes_accounted :
    let last := gallery.performAll visits
    (gallery.answers visits).map Prod.snd =
        [.ok .allowed, .ok (.denied (.ofMillis 1000)), .error (.interrupted "ann" "hall" (.ofMillis 1000)),
          .error (.unknownTier "cellar"), .ok .allowed, .error (.rejected "ann" "hall" (.ofMillis 1000))] ∧
      last.stores.metrics.read "hall" "ann" = ⟨2, 3⟩ ∧ requestsOf (last.stored? ⟨"ann", "hall"⟩) = 2 ∧
      last.stores.metrics.read "cellar" "ann" = ⟨0, 0⟩ ∧ last.room.slept.length = 1 ∧
      Accounted (gallery.performAll (visits.take 8)) "hall" "ann" (.error (.rejected "ann" "hall" (.ofMillis 1000)))
        last := by
  intro last
  have hbuild : Service.build { Traffic.press with defaultStrategy := .delay } gallery.fittings .tracking none .empty
      ⟨1000⟩ = .ok gallery := rfl
  have hplain : cellarless.Plain := by
    refine Resolver.plain_table fun key error herror => ?_
    have hpolicy : Table.get? (Table.empty.set "cellar@default" (Except.error (.unknownTier "cellar"))) key =
        some (.error error : Except Error Policy) := herror
    rw [Table.get?_set] at hpolicy
    split at hpolicy
    · obtain rfl := Except.error.inj (Option.some.inj hpolicy)
      rfl
    · cases hpolicy
  have hanswers : (gallery.answers visits).map Prod.snd =
      [.ok .allowed, .ok (.denied (.ofMillis 1000)), .error (.interrupted "ann" "hall" (.ofMillis 1000)),
        .error (.unknownTier "cellar"), .ok .allowed, .error (.rejected "ann" "hall" (.ofMillis 1000))] := by
    decide +kernel
  obtain ⟨hbooks, hslept, haccounted⟩ := outcomes_accounted hbuild rfl rfl rfl hplain visits
  obtain ⟨hhall, hrequests, -⟩ := hbooks ⟨"ann", "hall"⟩
  obtain ⟨hcellar, -⟩ := hbooks ⟨"ann", "cellar"⟩
  have hrejected : ((gallery.performAll (visits.take 8)).check "hall" "ann" none).1 =
      .error (.rejected "ann" "hall" (.ofMillis 1000)) := by
    decide +kernel
  have hlast := haccounted (visits.take 8) [] "hall" "ann" none rfl
  rw [hrejected] at hlast
  exact ⟨hanswers, hhall.trans (by decide +kernel), hrequests.trans (by decide +kernel),
    hcellar.trans (by decide +kernel), hslept.trans (by decide +kernel), hlast⟩

end Service
end AdmissionControl
