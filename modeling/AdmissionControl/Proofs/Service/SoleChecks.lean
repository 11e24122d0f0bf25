import AdmissionControl.Proofs.Service.Serving

/-!
# Checks one after another

A check is a burst of one request.  Where the repository lets nobody go first and waits are only written down, the
request has its answer after its first round, whatever else was set for it.  The answer and the service after it then
follow from the decision about the request and from the waiting room.

* `Resolver.Plain`, `Decision.isThrottle_eq` — a decision that fails does not fail in the name of the throttling.
* `Sole` — what a check can come to, case by case.  Later proofs look at these cases and not at the machine.
* `Ready`, `sole_check` — **a service that is ready serves a check like this**, and is ready for the next one.
-/

namespace AdmissionControl

/-! ## Errors of decisions -/

/-- Whether the error tells what the throttling made of a denial. -/
def Error.isThrottle (e : Error) : Bool := e.isRejected || e.isInterrupted

/-- A resolver whose errors are about policies: it does not speak for the throttling. -/
def Resolver.Plain (resolver : Resolver) : Prop :=
  ∀ endpoint tier timeRange settings error,
    resolver.resolve endpoint tier timeRange settings = .error error → error.isThrottle = false

theorem Settings.isThrottle_of_policyFor {settings : Settings} {tier : Tier} {error : Error}
    (h : settings.policyFor tier = .error error) : error.isThrottle = false := by
  unfold policyFor at h
  split at h
  · cases h
  · split at h
    · unfold Policy.build at h
      split at h
      · cases h
      · obtain rfl := Except.error.inj h
        rfl
    · obtain rfl := Except.error.inj h
      rfl

theorem Resolver.plain_settings : Plain .settings :=
  fun _ _ _ _ _ h => Settings.isThrottle_of_policyFor h

/-- A table of policies is plain if the errors in it are. -/
theorem Resolver.plain_table {policies : Table String (Except Error Policy)}
    (h : ∀ key error, policies.get? key = some (.error error) → error.isThrottle = false) :
    Plain (.table policies) := by
  intro endpoint tier timeRange settings error herror
  unfold resolve at herror
  dsimp only at herror
  split at herror
  · rename_i policy hpolicy
    exact h _ error (hpolicy.trans (congrArg some herror))
  · exact Settings.isThrottle_of_policyFor herror

theorem Limiter.Checked.isThrottle_eq {l l' : Limiter} {breaker breaker' : Breaker} {breakerNow now : Nat}
    {record : Record} {error : Error} (h : l.Checked breaker breakerNow now record (.error error) l' breaker') :
    error.isThrottle = false := by
  cases h with
  | settled hgate =>
      obtain ⟨fault, -, rfl⟩ := fault_of_gate hgate
      rfl
  | timedOut hgate henter => rfl

theorem Locking.isThrottle_of_build {retries : Nat} {timeout : Duration} {error : Error}
    (h : build retries timeout = .error error) : error.isThrottle = false := by
  unfold build at h
  split at h
  · split at h
    · obtain rfl := Except.error.inj h
      rfl
    · cases h
  · obtain rfl := Except.error.inj h
    rfl

theorem Limiters.isThrottle_of_obtain {ls : Limiters} {kind : AlgorithmKind} {settings : Settings} {error : Error}
    (h : ls.obtain kind settings = .error error) : error.isThrottle = false := by
  unfold obtain Settings.limiter at h
  split at h
  · cases h
  · split at h
    · cases h
    · rename_i hlimiter
      obtain rfl := Except.error.inj h
      split at hlimiter
      · cases hlimiter
      · rename_i hlocking
        obtain rfl := Except.error.inj hlimiter
        exact Locking.isThrottle_of_build hlocking

theorem Limiters.Served.isThrottle_eq {ls ls' : Limiters} {exemptions : Exemptions} {breaker breaker' : Breaker}
    {breakerNow now : Nat} {endpoint : String} {record : Record} {settings : Settings} {error : Error}
    (h : Served ls exemptions breaker breakerNow now endpoint record settings (.error error) ls' breaker') :
    error.isThrottle = false := by
  cases h with
  | failed hexempt hobtain => exact isThrottle_of_obtain hobtain
  | checked hexempt hobtain hchecked => exact hchecked.isThrottle_eq

namespace Service

variable {s s' : Service} {endpoint client : String}

/-- A decision that fails does not fail in the name of the throttling. -/
theorem Decision.isThrottle_eq {identified : Client} {stored : Record} {error : Error}
    (h : Decision s endpoint identified stored (.error error) s') (hplain : s.fittings.resolver.Plain) :
    error.isThrottle = false := by
  cases h with
  | unresolved hpolicy => exact hplain _ _ _ _ _ hpolicy
  | failed hpolicy hcheck => exact (Limiters.served_of_check hcheck).isThrottle_eq

/-- A decision keeps the strategies in step with the settings, and comes with the one that these ask for. -/
theorem Decision.strategies {identified : Client} {stored : Record} {outcome : Except Error (Admission × Strategy)}
    (h : Decision s endpoint identified stored outcome s')
    (hmade : s.strategies.MadeFrom s.live.current.settings) :
    s'.strategies.MadeFrom s'.live.current.settings ∧
      ∀ admission strategy, outcome = .ok (admission, strategy) →
        strategy = .ofKind s.live.current.settings (s.live.current.settings.strategyFor endpoint identified.tier) := by
  cases h with
  | unresolved hpolicy => exact ⟨hmade, fun _ _ houtcome => nomatch houtcome⟩
  | failed hpolicy hcheck => exact ⟨hmade, fun _ _ houtcome => nomatch houtcome⟩
  | answered hpolicy hcheck =>
      obtain ⟨hstrategy, hmade'⟩ := hmade.obtain endpoint identified.tier
      refine ⟨hmade', fun admission strategy houtcome => ?_⟩
      exact (Prod.mk.inj (Except.ok.inj houtcome)).2.symm.trans hstrategy

/-! ## A check is a push -/

/-- Where the repository lets nobody go first, a request goes as far as it can in one round. -/
theorem poll_eq_push (hyields : s.fittings.yields = false) (n : Nat) (r : Request) : s.poll n r = s.push n r := by
  induction n generalizing s r with
  | zero => rfl
  | succ n ih =>
      unfold poll push
      cases hadvance : s.advance r with
      | none => rfl
      | some moved =>
          obtain ⟨r', s'⟩ := moved
          have hyields' : s'.fittings.yields = false := by
            rw [(advance_of_eq_some hadvance).fittings_eq]
            exact hyields
          dsimp only
          rw [hyields', Bool.false_and, if_neg Bool.false_ne_true]
          exact ih hyields' r'

/-- A request that has its answer after one round needs no other. -/
theorem check_of_push (hyields : s.fittings.yields = false) {r' : Request} {answer : Except Error Verdict}
    (hpush : s.push pollBound (.fresh endpoint client) = (r', s')) (hanswer : r'.answer? = some answer)
    (interruptAfter : Option Duration) : s.check endpoint client interruptAfter = (answer, s') := by
  have hround : s.round [.fresh endpoint client] = ([r'], s') := by
    unfold round
    rw [poll_eq_push hyields, hpush]
    rfl
  have hall : ([r'].all (·.answer?.isSome)) = true := by
    rw [List.all_cons, hanswer]
    rfl
  have hburst : s.burst [.fresh endpoint client] interruptAfter = ([r'], s') := by
    unfold burst roundBound rounds
    rw [hround]
    exact if_pos hall
  unfold check
  rw [hburst]
  dsimp only
  rw [hanswer]
  rfl

/-- What a caller is told when it leaves the waiting room. -/
def told (endpoint client : String) (verdict : Verdict) : Option ThrottleFault → Except Error Verdict
  | none => .ok verdict
  | some fault => .error (fault.toError client endpoint)

theorem leave_eq_told (r : Request) (verdict : Verdict) (fault : Option ThrottleFault) :
    r.leave verdict fault = r.atStage (.done (told r.endpoint r.client verdict fault)) := by
  cases fault <;> rfl

/-- A caller that does not have to stay is told at once. -/
theorem throttle_of_leaves {verdict : Verdict} {strategy : Strategy} {fault : Option ThrottleFault}
    (hseat : (s.room.enter (strategy.plan verdict)).1 = .leaves fault) (r : Request) :
    s.throttle r verdict strategy =
      (r.atStage (.done (told r.endpoint r.client verdict fault)),
        { s with room := (s.room.enter (strategy.plan verdict)).2 }) := by
  unfold throttle
  rcases hentered : s.room.enter (strategy.plan verdict) with ⟨seat, room⟩
  rw [hentered] at hseat
  obtain rfl : seat = .leaves fault := hseat
  dsimp only
  rw [leave_eq_told]

/-- A decided request whose caller does not have to stay has its answer at once. -/
theorem push_finish_of_leaves {verdict : Verdict} {strategy : Strategy} {fault : Option ThrottleFault}
    (hseat : (s.room.enter (strategy.plan verdict)).1 = .leaves fault) (r : Request) (identified : Client)
    (ticket n : Nat) :
    (s.finish r identified ticket verdict strategy).2.push (n + 1) (s.finish r identified ticket verdict strategy).1 =
      (r.atStage (.done (told r.endpoint r.client verdict fault)),
        { (s.finish r identified ticket verdict strategy).2 with
          room := (s.room.enter (strategy.plan verdict)).2 }) := by
  have hadvance : (s.finish r identified ticket verdict strategy).2.advance
      (s.finish r identified ticket verdict strategy).1 =
        some (r.atStage (.done (told r.endpoint r.client verdict fault)),
          { (s.finish r identified ticket verdict strategy).2 with
            room := (s.room.enter (strategy.plan verdict)).2 }) :=
    congrArg some (throttle_of_leaves (s := (s.finish r identified ticket verdict strategy).2) hseat
      (s.finish r identified ticket verdict strategy).1)
  rw [push, hadvance]
  exact push_of_none n rfl

/-! ## What a check can come to -/

/-- How a denied caller comes out of the waiting room, where waits are only written down. -/
inductive Dismissed (room : WaitingRoom) (strategy : Strategy) (hint : Duration) :
    Option ThrottleFault → WaitingRoom → Prop
  /-- Its strategy turns it away. -/
  | rejected (hkind : strategy.kind = .reject) : Dismissed room strategy hint (some (.rejected hint)) room
  /-- The waits are interrupted. -/
  | interrupted (hkind : strategy.kind ≠ .reject) (hinterrupted : room.isInterrupted = true) :
      Dismissed room strategy hint (some (.interrupted hint)) room
  /-- Its wait is written down. -/
  | waited {time : Duration} (hkind : strategy.kind ≠ .reject) (hquiet : room.isInterrupted = false)
      (hplan : strategy.plan (.denied hint) = .wait time hint) :
      Dismissed room strategy hint none { room with slept := room.slept ++ [time] }

/-- A denied caller is turned away by its strategy, or is to wait. -/
theorem kind_or_plan (strategy : Strategy) (hint : Duration) :
    strategy.kind = .reject ∧ strategy.plan (.denied hint) = .reject hint ∨
      strategy.kind ≠ .reject ∧ ∃ time, strategy.plan (.denied hint) = .wait time hint := by
  cases strategy with
  | reject => exact .inl ⟨rfl, rfl⟩
  | delay => exact .inr ⟨StrategyKind.noConfusion, hint, rfl⟩
  | backoff initial multiplier => exact .inr ⟨StrategyKind.noConfusion, _, rfl⟩

/-- Where waits are only written down, a denied caller comes out at once. -/
theorem exists_dismissed {room : WaitingRoom} (htracking : room.sleeper = .tracking) (strategy : Strategy)
    (hint : Duration) :
    ∃ fault, (room.enter (strategy.plan (.denied hint))).1 = .leaves fault ∧
      Dismissed room strategy hint fault (room.enter (strategy.plan (.denied hint))).2 := by
  rcases kind_or_plan strategy hint with ⟨hkind, hplan⟩ | ⟨hkind, time, hplan⟩
  · rw [hplan]
    exact ⟨_, rfl, .rejected hkind⟩
  · obtain ⟨sleeper, isInterrupted, timer, slept⟩ := room
    obtain rfl : sleeper = .tracking := htracking
    rw [hplan]
    cases isInterrupted with
    | true => exact ⟨_, rfl, .interrupted hkind rfl⟩
    | false => exact ⟨none, rfl, .waited hkind rfl hplan⟩

/-- What a check can come to that meets no other, where waits are only written down. -/
inductive Sole (s : Service) (endpoint client : String) : Except Error Verdict → Service → Prop
  /-- Nothing can be decided. -/
  | undecided {error : Error} {s₁ : Service} (htrial : s.trial (.fresh endpoint client) = (.error error, s₁)) :
      Sole s endpoint client (.error error)
        { s₁ with locks := s₁.locks.drop (s.ticketOf (.fresh endpoint client)) }
  /-- The request is admitted: it is saved and counted. -/
  | allowed {admission : Admission} {strategy : Strategy} {s₁ : Service}
      (htrial : s.trial (.fresh endpoint client) = (.ok (admission, strategy), s₁))
      (hverdict : admission.verdict = .allowed) :
      Sole s endpoint client (.ok .allowed)
        ((s₁.save ⟨client, endpoint⟩ admission.record.countRequest).finish (.fresh endpoint client)
          (s.identified (.fresh endpoint client)) (s.ticketOf (.fresh endpoint client)) .allowed strategy).2
  /-- The request is denied: it is counted, and its caller goes through the waiting room. -/
  | denied {admission : Admission} {strategy : Strategy} {s₁ : Service} {hint : Duration}
      {fault : Option ThrottleFault} {room : WaitingRoom}
      (htrial : s.trial (.fresh endpoint client) = (.ok (admission, strategy), s₁))
      (hverdict : admission.verdict = .denied hint) (hdismissed : Dismissed s.room strategy hint fault room) :
      Sole s endpoint client (told endpoint client (.denied hint) fault)
        { (s₁.finish (.fresh endpoint client) (s.identified (.fresh endpoint client))
            (s.ticketOf (.fresh endpoint client)) (.denied hint) strategy).2 with room := room }

/-- A decision leaves the waiting room and what the service is made of. -/
theorem premises_of_trial {outcome : Except Error (Admission × Strategy)} {r : Request}
    (htrial : s.trial r = (outcome, s')) : s'.fittings = s.fittings ∧ s'.room = s.room :=
  (decision_of_eq htrial).premises

/-- A decision comes with the strategy that the live settings have for the endpoint and for the tier of the client, and
keeps those that were made. -/
theorem strategies_of_trial {outcome : Except Error (Admission × Strategy)} {r : Request}
    (htrial : s.trial r = (outcome, s')) (hmade : s.strategies.MadeFrom s.live.current.settings) :
    s'.strategies.MadeFrom s'.live.current.settings ∧
      ∀ admission strategy, outcome = .ok (admission, strategy) →
        strategy = .ofKind s.live.current.settings
          (s.live.current.settings.strategyFor r.endpoint (s.identified r).tier) :=
  (decision_of_eq htrial).strategies hmade

/-- A service that serves checks one after another: its repository lets nobody go first, waits are only written
down, and what is kept between checks is in order. -/
structure Ready (s : Service) : Prop where
  /-- The repository lets nobody go first. -/
  yields : s.fittings.yields = false
  /-- The resolver does not speak for the throttling. -/
  plain : s.fittings.resolver.Plain
  /-- Waits are written down. -/
  tracking : s.room.sleeper = .tracking
  /-- No request is under way. -/
  idle : s.locks.Idle
  /-- Every strategy is the one of the live settings. -/
  strategies : s.strategies.MadeFrom s.live.current.settings

/-- **A check of a service that is ready** comes to one of these cases, whatever interrupt is set for it. -/
theorem sole_check (hs : s.Ready) (endpoint client : String) (interruptAfter : Option Duration) :
    Sole s endpoint client (s.check endpoint client interruptAfter).1
      (s.check endpoint client interruptAfter).2 := by
  let r : Request := .fresh endpoint client
  have hidle : s.push pollBound r = (s.greet r).push 6 (r.atStage (.loading (s.identified r) (s.ticketOf r))) :=
    push_of_idle 6 rfl hs.idle
  -- each case computes the push stage by stage, and reads the check off it
  have hcheck : ∀ {answer : Except Error Verdict} {s' : Service},
      (s.greet r).push 6 (r.atStage (.loading (s.identified r) (s.ticketOf r))) = (r.atStage (.done answer), s') →
      Sole s endpoint client answer s' →
      Sole s endpoint client (s.check endpoint client interruptAfter).1
        (s.check endpoint client interruptAfter).2 := by
    intro answer s' hpush hsole
    rw [check_of_push hs.yields (hidle.trans hpush) rfl interruptAfter]
    exact hsole
  rcases htrial : s.trial r with ⟨outcome, s₁⟩
  have hroom : s₁.room = s.room := (premises_of_trial htrial).2
  cases outcome with
  | error error =>
      refine hcheck ?_ (.undecided htrial)
      rw [push, advance_of_failed htrial]
      exact push_of_none 5 rfl
  | ok decided =>
      obtain ⟨admission, strategy⟩ := decided
      cases hverdict : admission.verdict with
      | allowed =>
          have hallowed : admission.isAllowed = true := congrArg Verdict.isAllowed hverdict
          have hsaves : s₁.advance (r.atStage (.saving (s.identified r) (s.ticketOf r) admission strategy)) =
              some ((s₁.save r.key admission.record.countRequest).finish r (s.identified r) (s.ticketOf r)
                .allowed strategy) := by
            rw [← hverdict]
            rfl
          refine hcheck ?_ (.allowed htrial hverdict)
          rw [push, advance_of_admitted htrial hallowed]
          dsimp only
          rw [push, hsaves]
          have hseat : ((s₁.save r.key admission.record.countRequest).room.enter (strategy.plan .allowed)).1 =
              .leaves none := rfl
          exact push_finish_of_leaves hseat r _ _ 3
      | denied hint =>
          have hdenied : admission.isAllowed = false := congrArg Verdict.isAllowed hverdict
          obtain ⟨fault, hseat, hdismissed⟩ := exists_dismissed hs.tracking strategy hint
          refine hcheck ?_ (.denied htrial hverdict hdismissed)
          rw [push, advance_of_denied htrial hdenied, hverdict]
          dsimp only
          rw [← hroom] at hseat ⊢
          exact push_finish_of_leaves hseat r _ _ 4

theorem Dismissed.sleeper_eq {room room' : WaitingRoom} {strategy : Strategy} {hint : Duration}
    {fault : Option ThrottleFault} (h : Dismissed room strategy hint fault room') : room'.sleeper = room.sleeper := by
  cases h with
  | rejected hkind => rfl
  | interrupted hkind hinterrupted => rfl
  | waited hkind hquiet hplan => rfl

/-- **A service that is ready for a check is ready for the next one.** -/
theorem Sole.ready {answer : Except Error Verdict} (h : Sole s endpoint client answer s') (hs : s.Ready) :
    s'.Ready := by
  cases h with
  | undecided htrial =>
      obtain ⟨hfittings, hroom⟩ := premises_of_trial htrial
      exact ⟨hfittings ▸ hs.yields, hfittings ▸ hs.plain, hroom ▸ hs.tracking, idle_drop_of_trial htrial hs.idle,
        (strategies_of_trial htrial hs.strategies).1⟩
  | allowed htrial hverdict =>
      obtain ⟨hfittings, hroom⟩ := premises_of_trial htrial
      exact ⟨hfittings ▸ hs.yields, hfittings ▸ hs.plain, hroom ▸ hs.tracking, (idle_drop_of_trial htrial hs.idle :),
        (strategies_of_trial htrial hs.strategies).1⟩
  | denied htrial hverdict hdismissed =>
      obtain ⟨hfittings, -⟩ := premises_of_trial htrial
      exact ⟨hfittings ▸ hs.yields, hfittings ▸ hs.plain, hdismissed.sleeper_eq.trans hs.tracking,
        (idle_drop_of_trial htrial hs.idle :), (strategies_of_trial htrial hs.strategies).1⟩

end Service
end AdmissionControl
