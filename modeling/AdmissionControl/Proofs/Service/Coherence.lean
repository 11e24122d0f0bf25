import AdmissionControl.Proofs.Limiter.Course
import AdmissionControl.Proofs.Service.NoLostUpdate
import AdmissionControl.Proofs.Settings.Sound

/-!
# Everything comes from one snapshot

The live snapshot can change at any time.  Four things depend on it: the limiters and the strategies, which are
made when they are first needed and kept, the breaker, which has settings of its own, and the decisions, which
use all of them.

* `InStep` — what was made is what the live settings would make, and the breaker has their settings.  Every
  decision and everything else that can happen keeps it (`inStep_moves`), a direct change of the breaker's
  settings apart.
* `exists_unmade` — what is kept was made under the live snapshot, and not under an earlier one that may have
  asked for the same.
* `Snapshot.answer`, `InStep.answersBy` — what a snapshot answers by itself, and **a decision is the answer of the
  live snapshot**.
* `Traffic.answers_by_snapshot` — the same for every request of every run, up to its throttling.
-/

namespace AdmissionControl

/-! ## Settings of a breaker -/

namespace Breaker

variable {b : Breaker}

theorem settings_query (b : Breaker) (now : Nat) : (b.query now).2.settings = b.settings := by
  unfold query
  cases b.state with
  | halfOpen => rfl
  | closed =>
      dsimp only
      split
      · rfl
      · rfl
  | opened =>
      dsimp only
      split
      · rfl
      · rfl

theorem settings_observe (b : Breaker) (isAllowed : Bool) (now : Nat) :
    (b.observe isAllowed now).settings = b.settings := by
  cases isAllowed with
  | true => show b.succeed.settings = _; unfold succeed; cases b.state <;> rfl
  | false => show (b.fail now).settings = _; unfold fail; cases b.state <;> rfl

/-- Whether an event gives the breaker other settings, or tries to. -/
def Event.isReconfigure : Event → Bool
  | reconfigure .. => true
  | query | success | failure | reset => false

theorem settings_react {event : Event} (h : event.isReconfigure = false) (now : Nat) :
    (b.react now event).2.settings = b.settings := by
  cases event with
  | query => exact b.settings_query now
  | success => exact b.settings_observe true now
  | failure => exact b.settings_observe false now
  | reset => rfl
  | reconfigure threshold reset => exact absurd h.symm Bool.false_ne_true

end Breaker

theorem Limiter.settings_gate (record : Record) (b : Breaker) (now : Nat) :
    (gate record b now).2.settings = b.settings := by
  rw [breaker_gate]
  split
  · exact b.settings_query now
  · rfl

theorem Limiter.Checked.settings_eq {l l' : Limiter} {breaker breaker' : Breaker} {breakerNow now : Nat}
    {record : Record} {outcome : Except Error Admission}
    (h : l.Checked breaker breakerNow now record outcome l' breaker') : breaker'.settings = breaker.settings := by
  cases h with
  | settled hgate => exact settings_gate ..
  | timedOut hgate henter => exact settings_gate ..
  | estimated hgate hestimate => exact (Breaker.settings_observe ..).trans (settings_gate ..)
  | decided hgate henter => exact (Breaker.settings_observe ..).trans (settings_gate ..)

theorem Limiters.Served.settings_eq {ls ls' : Limiters} {exemptions : Exemptions} {breaker breaker' : Breaker}
    {breakerNow now : Nat} {endpoint : String} {record : Record} {settings : Settings}
    {outcome : Except Error Admission}
    (h : Served ls exemptions breaker breakerNow now endpoint record settings outcome ls' breaker') :
    breaker'.settings = breaker.settings := by
  cases h with
  | exempt hexempt => rfl
  | failed hexempt hobtain => rfl
  | checked hexempt hobtain hchecked => exact hchecked.settings_eq

/-! ## Strategies -/

namespace Strategies

variable {strategies : Strategies} {settings : Settings}

/-- Every strategy is the one that the settings make for its endpoint and tier. -/
def MadeFrom (settings : Settings) (strategies : Strategies) : Prop :=
  ∀ endpoint tier strategy, strategies.made.get? (endpoint, tier) = some strategy →
    strategy = .ofKind settings (settings.strategyFor endpoint tier)

theorem madeFrom_empty (settings : Settings) : MadeFrom settings empty := by
  intro endpoint tier strategy hnone
  exact absurd hnone (by simp [empty])

theorem MadeFrom.obtain (h : MadeFrom settings strategies) (endpoint : String) (tier : Tier) :
    (strategies.obtain endpoint tier settings).1 = .ofKind settings (settings.strategyFor endpoint tier) ∧
      MadeFrom settings (strategies.obtain endpoint tier settings).2 := by
  unfold Strategies.obtain
  cases hmade : strategies.made.get? (endpoint, tier) with
  | some strategy => exact ⟨h endpoint tier strategy hmade, h⟩
  | none =>
      refine ⟨rfl, ?_⟩
      intro endpoint' tier' strategy hget
      rw [Table.get?_set] at hget
      split at hget
      · rename_i hkey
        obtain ⟨rfl, rfl⟩ := Prod.mk.inj hkey
        exact (Option.some.inj hget).symm
      · exact h endpoint' tier' strategy hget

end Strategies

/-! ## A service in step with its settings -/

namespace Service

variable {s s' : Service} {r r' : Request} {endpoint : String} {client : Client} {stored : Record}
  {outcome : Except Error (Admission × Strategy)}

/-- A service whose parts are as its live settings have them. -/
structure InStep (s : Service) : Prop where
  /-- The settings are sound. -/
  sound : s.live.current.settings.fault? = none
  /-- Every limiter is set up as they have it. -/
  limiters : s.limiters.MadeFrom s.live.current.settings
  /-- Every strategy is theirs. -/
  strategies : s.strategies.MadeFrom s.live.current.settings
  /-- The breaker has the settings that they have for it. -/
  breaker : s.live.current.settings.breakerSettings = .ok s.breaker.settings

theorem InStep.load (h : s.InStep) (key : RecordKey) : (s.load key).InStep :=
  ⟨h.sound, h.limiters, h.strategies, h.breaker⟩

theorem Decision.inStep (h : Decision s endpoint client stored outcome s') (hs : s.InStep) : s'.InStep := by
  have hcoherent : s'.Coherent := h.coherent hs.limiters
  cases h with
  | unresolved hpolicy => exact hs
  | failed hpolicy hcheck =>
      refine ⟨hs.sound, hcoherent, hs.strategies, ?_⟩
      exact hs.breaker.trans (congrArg _ (Limiters.served_of_check hcheck).settings_eq.symm)
  | answered hpolicy hcheck =>
      refine ⟨hs.sound, hcoherent, (hs.strategies.obtain endpoint client.tier).2, ?_⟩
      exact hs.breaker.trans (congrArg _ (Limiters.served_of_check hcheck).settings_eq.symm)

theorem Advance.inStep (h : Advance s r r' s') (hs : s.InStep) : s'.InStep := by
  cases h with
  | fails hstage hdecision =>
      have hdecided := hdecision.inStep (hs.load r.key)
      exact ⟨hdecided.sound, hdecided.limiters, hdecided.strategies, hdecided.breaker⟩
  | admits hstage hdecision hallowed => exact hdecision.inStep (hs.load r.key)
  | denies hstage hdecision hdenied =>
      have hdecided := hdecision.inStep (hs.load r.key)
      exact ⟨hdecided.sound, hdecided.limiters, hdecided.strategies, hdecided.breaker⟩
  | enters hstage hholds => exact hs
  | wakes hstage hfault => exact hs
  | joins hstage => exact ⟨hs.sound, hs.limiters, hs.strategies, hs.breaker⟩
  | saves hstage => exact ⟨hs.sound, hs.limiters, hs.strategies, hs.breaker⟩
  | leaves hstage hseat => exact ⟨hs.sound, hs.limiters, hs.strategies, hs.breaker⟩
  | waits hstage hseat => exact ⟨hs.sound, hs.limiters, hs.strategies, hs.breaker⟩

theorem eq_of_accept {settings accepted : Settings} {breakerSettings : Breaker.Settings}
    (h : LiveSettings.accept settings = .ok (accepted, breakerSettings)) :
    accepted.fault? = none ∧ accepted.breakerSettings = .ok breakerSettings := by
  cases hfault : settings.fault? with
  | some fault =>
      rw [LiveSettings.accept_of_fault hfault] at h
      cases h
  | none =>
      rw [LiveSettings.accept_of_sound hfault] at h
      obtain ⟨rfl, rfl⟩ := Prod.mk.inj (Except.ok.inj h)
      exact ⟨hfault, Settings.breakerSettings_of_sound hfault⟩

/-- A change of the settings that is accepted: the version goes up by one, nothing that was made is kept, and the
breaker takes its new settings. -/
theorem inStep_update {settings : Settings} {change : Update} (h : s.update settings = .ok (change, s')) :
    s'.InStep ∧ s'.limiters = .empty ∧ s'.strategies = .empty ∧
      s'.live.current.version = s.live.current.version + 1 := by
  unfold update LiveSettings.update at h
  split at h
  · exact absurd h (by simp)
  · rename_i change' live breaker hupdate
    obtain ⟨-, rfl⟩ := Prod.mk.inj (Except.ok.inj h)
    split at hupdate
    · exact absurd hupdate (by simp)
    · rename_i accepted breakerSettings haccept
      obtain ⟨hsound, hbreaker⟩ := eq_of_accept haccept
      obtain ⟨-, rfl, rfl⟩ : _ ∧ _ ∧ _ := by simpa only [Except.ok.injEq, Prod.mk.injEq] using hupdate
      exact ⟨⟨hsound, Limiters.madeFrom_empty _, Strategies.madeFrom_empty _, hbreaker⟩, rfl, rfl, rfl⟩

theorem inStep_happen {e : Event} (hs : s.InStep) (he : ∀ event, e = .breaker event → event.isReconfigure = false) :
    (s.happen e).InStep := by
  cases e with
  | update settings =>
      rw [happen]
      split
      · rename_i change s' hupdate
        exact (inStep_update hupdate).1
      · exact hs
  | sweep => exact ⟨hs.sound, hs.limiters.sweep s.now, hs.strategies, hs.breaker⟩
  | breaker event =>
      refine ⟨hs.sound, hs.limiters, hs.strategies, hs.breaker.trans ?_⟩
      exact congrArg _ (Breaker.settings_react (he event rfl) s.breakerNow).symm
  | move move => exact ⟨hs.sound, hs.limiters, hs.strategies, hs.breaker⟩
  | room room => exact ⟨hs.sound, hs.limiters, hs.strategies, hs.breaker⟩
  | directory directory => exact ⟨hs.sound, hs.limiters, hs.strategies, hs.breaker⟩
  | exemptions exemptions => exact ⟨hs.sound, hs.limiters, hs.strategies, hs.breaker⟩

theorem inStep_build {settings : Settings} {fittings : Fittings} {sleeper : Sleeper} {given : Option Breaker}
    {stores : Stores} {clock : Clock} (h : Service.build settings fittings sleeper given stores clock = .ok s) :
    s.InStep ∧ s.limiters = .empty ∧ s.strategies = .empty := by
  unfold Service.build LiveSettings.start at h
  split at h
  · exact absurd h (by simp)
  · split at h
    · exact absurd h (by simp)
    · rename_i live breaker hstart
      obtain rfl := Except.ok.inj h
      split at hstart
      · exact absurd hstart (by simp)
      · rename_i accepted breakerSettings haccept
        obtain ⟨hsound, hbreaker⟩ := eq_of_accept haccept
        obtain ⟨rfl, rfl⟩ := Prod.mk.inj (Except.ok.inj hstart)
        exact ⟨⟨hsound, Limiters.madeFrom_empty _, Strategies.madeFrom_empty _, hbreaker⟩, rfl, rfl⟩

/-! ## Answers of a snapshot -/

/-- The limiter with which a service serves an algorithm: the one that it keeps, or a fresh one. -/
def limiterOf (s : Service) (kind : AlgorithmKind) (fresh : Limiter) : Limiter :=
  (s.limiters.made.get? kind).getD fresh

end Service

/-- What a snapshot answers a client with a stored record, by the given limiter and with the breaker, the clock and
the exemptions of a service.  Policy and strategy are read off the snapshot. -/
def Snapshot.answer (snapshot : Snapshot) (s : Service) (limiter : Limiter) (endpoint : String) (client : Client)
    (stored : Record) : Except Error (Admission × Strategy) :=
  match s.fittings.resolver.resolve endpoint client.tier s.fittings.timeRange snapshot.settings with
  | .error error => .error error
  | .ok policy =>
      let record := stored.retarget client policy
      let outcome :=
        if s.stores.exemptions.contains record.client then .ok (.pass record)
        else (limiter.check s.breaker s.breakerNow s.now record).1
      match outcome with
      | .error error => .error error
      | .ok admission =>
          .ok (admission, .ofKind snapshot.settings (snapshot.settings.strategyFor endpoint client.tier))

theorem Limiters.obtain_eq (ls : Limiters) {kind : AlgorithmKind} {settings : Settings} {fresh : Limiter}
    (hfresh : settings.limiter kind = .ok fresh) :
    ∃ ls', ls.obtain kind settings = .ok ((ls.made.get? kind).getD fresh, ls') := by
  unfold obtain
  cases ls.made.get? kind with
  | some limiter => exact ⟨_, rfl⟩
  | none =>
      rw [hfresh]
      exact ⟨_, rfl⟩

/-- The outcome of a check on an endpoint, by the limiter that serves the endpoint's algorithm. -/
theorem Limiters.check_eq (ls : Limiters) {settings : Settings} {endpoint : String} {fresh : Limiter}
    (hfresh : settings.limiter (settings.algorithmFor endpoint) = .ok fresh) (exemptions : Exemptions)
    (breaker : Breaker) (breakerNow now : Nat) (record : Record) :
    (ls.check exemptions breaker breakerNow now endpoint record settings).1 =
      if exemptions.contains record.client then .ok (.pass record)
      else
        (((ls.made.get? (settings.algorithmFor endpoint)).getD fresh).check breaker breakerNow now record).1 := by
  obtain ⟨ls', hobtain⟩ := obtain_eq ls hfresh
  unfold check
  split
  · rfl
  · dsimp only
    rw [hobtain]

namespace Service

variable {s s' : Service} {r r' : Request} {endpoint : String} {client : Client} {stored : Record}
  {outcome : Except Error (Admission × Strategy)} {snapshot : Snapshot}

/-- An outcome is the answer of a snapshot: the limiter that gives it is set up as the snapshot has it for the
endpoint's algorithm, the breaker before it has the snapshot's settings, and the rest is read off the snapshot. -/
def AnswersBy (s : Service) (snapshot : Snapshot) (endpoint : String) (client : Client) (stored : Record)
    (outcome : Except Error (Admission × Strategy)) : Prop :=
  ∃ fresh, snapshot.settings.limiter (snapshot.settings.algorithmFor endpoint) = .ok fresh ∧
    fresh.SameSetup (s.limiterOf (snapshot.settings.algorithmFor endpoint) fresh) ∧
    snapshot.settings.breakerSettings = .ok s.breaker.settings ∧
    outcome = snapshot.answer s (s.limiterOf (snapshot.settings.algorithmFor endpoint) fresh) endpoint client stored

theorem InStep.sameSetup_limiterOf (hs : s.InStep) {kind : AlgorithmKind} {fresh : Limiter}
    (hfresh : s.live.current.settings.limiter kind = .ok fresh) : fresh.SameSetup (s.limiterOf kind fresh) := by
  unfold limiterOf
  cases hmade : s.limiters.made.get? kind with
  | none => exact .refl fresh
  | some limiter =>
      obtain ⟨fresh', hfresh', hsame⟩ := hs.limiters kind limiter hmade
      obtain rfl := Except.ok.inj (hfresh.symm.trans hfresh')
      exact hsame

/-- **A decision is the answer of the live snapshot.** -/
theorem InStep.answersBy (hs : s.InStep) (endpoint : String) (client : Client) (stored : Record) :
    s.AnswersBy s.live.current endpoint client stored (s.decide endpoint client stored).1 := by
  obtain ⟨fresh, hfresh⟩ :=
    Settings.exists_limiter hs.sound (s.live.current.settings.algorithmFor endpoint)
  refine ⟨fresh, hfresh, hs.sameSetup_limiterOf hfresh, hs.breaker, ?_⟩
  have hdecision := decision_decide s endpoint client stored
  have hcheck := Limiters.check_eq s.limiters hfresh s.stores.exemptions s.breaker s.breakerNow s.now
  generalize s.decide endpoint client stored = result at hdecision
  obtain ⟨outcome, s'⟩ := result
  unfold Snapshot.answer limiterOf
  cases hdecision with
  | unresolved hpolicy => rw [hpolicy]
  | failed hpolicy herror =>
      rw [hpolicy]
      dsimp only
      rw [← hcheck, herror]
  | answered hpolicy hanswer =>
      rw [hpolicy]
      dsimp only
      rw [← hcheck, hanswer, (hs.strategies.obtain endpoint client.tier).1]

/-! ## Along a run -/

/-- The verdict of a request that was decided and waits for its throttling, with the strategy for it. -/
def Request.decided? (r : Request) : Option (Verdict × Strategy) :=
  match r.stage with
  | .saving _ _ admission strategy => some (admission.verdict, strategy)
  | .throttling verdict strategy => some (verdict, strategy)
  | .arriving | .queued .. | .loading .. | .waiting .. | .done _ => none

theorem Decision.decide_eq (h : Decision s endpoint client stored outcome s') :
    s.decide endpoint client stored = (outcome, s') := by
  unfold decide
  dsimp only
  cases h with
  | unresolved hpolicy => rw [hpolicy]
  | failed hpolicy hcheck =>
      rw [hpolicy]
      dsimp only
      rw [hcheck]
  | answered hpolicy hcheck =>
      rw [hpolicy]
      dsimp only
      rw [hcheck]

/-- A request gets its verdict and its strategy from one decision, and keeps them until it is throttled. -/
theorem Advance.decided?_eq_some {verdict : Verdict} {strategy : Strategy} (h : Advance s r r' s')
    (hdecided : r'.decided? = some (verdict, strategy)) :
    r.decided? = some (verdict, strategy) ∨
      ∃ client ticket record, r.stage = .loading client ticket ∧
        ((s.load r.key).decide r.endpoint client (s.record r.key)).1 = .ok (⟨verdict, record⟩, strategy) := by
  cases h with
  | @admits client ticket admission strategy' s' hstage hdecision hallowed =>
      right
      obtain ⟨rfl, rfl⟩ := Prod.mk.inj (Option.some.inj hdecided)
      exact ⟨client, ticket, admission.record, hstage, congrArg Prod.fst hdecision.decide_eq⟩
  | @denies client ticket admission strategy' s' hstage hdecision hdenied =>
      right
      obtain ⟨rfl, rfl⟩ := Prod.mk.inj (Option.some.inj hdecided)
      exact ⟨client, ticket, admission.record, hstage, congrArg Prod.fst hdecision.decide_eq⟩
  | @saves client ticket admission strategy' hstage =>
      left
      unfold Request.decided?
      rw [hstage]
      exact hdecided
  | @leaves verdict' strategy' fault hstage hseat =>
      exact absurd hdecided (by cases fault <;> simp [Request.decided?, Request.leave, Request.atStage])
  | @wakes deadline hint fault hstage hfault =>
      exact absurd hdecided (by cases fault <;> simp [Request.decided?, Request.leave, Request.atStage])
  | joins hstage => exact absurd hdecided (by simp [Request.decided?, Request.atStage])
  | enters hstage hholds => exact absurd hdecided (by simp [Request.decided?, Request.atStage])
  | fails hstage hdecision => exact absurd hdecided (by simp [Request.decided?, Request.atStage])
  | waits hstage hseat => exact absurd hdecided (by simp [Request.decided?, Request.atStage])

namespace Traffic

variable {t t' : Traffic} {m : Move} {ms : List Move}

/-- Whether a move gives the breaker other settings directly, or tries to. -/
def Move.reconfigures : Move → Bool
  | .happen (.breaker event) => event.isReconfigure
  | .happen _ | .advance _ => false

theorem moves_append (t : Traffic) (early late : List Move) :
    t.moves (early ++ late) = (t.moves early).moves late :=
  List.foldl_append

theorem moves_snoc (t : Traffic) (ms : List Move) (m : Move) : t.moves (ms ++ [m]) = (t.moves ms).move m :=
  moves_append t ms [m]

theorem Moved.inStep (h : Moved t m t') (hm : m.reconfigures = false) (ht : t.service.InStep) :
    t'.service.InStep := by
  cases h with
  | stays hstays => exact ht
  | advances hr hadvance => exact hadvance.inStep ht
  | @happens event =>
      apply inStep_happen ht
      intro breakerEvent hevent
      rw [hevent] at hm
      exact hm

theorem inStep_moves (ht : t.service.InStep) (hms : ∀ m ∈ ms, m.reconfigures = false) :
    (t.moves ms).service.InStep := by
  induction ms generalizing t with
  | nil => exact ht
  | cons m rest ih =>
      obtain ⟨hm, hrest⟩ := List.forall_mem_cons.1 hms
      exact ih ((moved_move t m).inStep hm ht) hrest

/-! ### Versions -/

/-- A move leaves the live settings, or is an accepted change of them. -/
theorem live_move (t : Traffic) (m : Move) :
    (t.move m).service.live = t.service.live ∨
      ∃ settings change s', t.service.update settings = .ok (change, s') ∧ (t.move m).service = s' := by
  cases hupdate : m.isUpdate with
  | false => exact Or.inl (live_of_moved (moved_move t m) hupdate)
  | true =>
      match m, hupdate with
      | .happen (.update settings), _ =>
          show (t.service.happen (.update settings)).live = _ ∨ _
          rw [move, happen]
          split
          · rename_i change s' haccepted
            exact Or.inr ⟨settings, change, s', haccepted, rfl⟩
          · exact Or.inl rfl

/-- **A version names one snapshot**: versions only go up, and while the version is the same, so is the snapshot. -/
theorem version_moves (t : Traffic) (ms : List Move) :
    t.service.live.current.version ≤ (t.moves ms).service.live.current.version ∧
      ((t.moves ms).service.live.current.version = t.service.live.current.version →
        (t.moves ms).service.live.current = t.service.live.current) := by
  induction ms generalizing t with
  | nil => exact ⟨Nat.le_refl _, fun _ => rfl⟩
  | cons m rest ih =>
      obtain ⟨hle, hsame⟩ := ih (t.move m)
      rw [moves_cons]
      rcases live_move t m with hlive | ⟨settings, change, s', haccepted, hs'⟩
      · rw [hlive] at hle hsame
        exact ⟨hle, hsame⟩
      · have hnext := (inStep_update haccepted).2.2.2
        rw [← hs'] at hnext
        refine ⟨by omega, ?_⟩
        intro heq
        omega

/-- **What is kept was made under the live snapshot.**  If something is there after a run, but was neither there at
the start nor after any accepted change of the settings, then there was a time at which the snapshot was already
the one that is live now, and it was not there yet. -/
theorem exists_unmade {α : Type} {made : α} (kept : Service → Option α) (hstart : kept t.service = none)
    (hupdate : ∀ s settings change s', Service.update s settings = .ok (change, s') → kept s' = none)
    (h : kept (t.moves ms).service = some made) :
    ∃ early late, ms = early ++ late ∧
      (t.moves early).service.live.current = (t.moves ms).service.live.current ∧
      kept (t.moves early).service = none := by
  induction ms using List.reverseRecOn generalizing made with
  | nil => exact absurd (hstart.symm.trans h) (by simp)
  | append_singleton ms m ih =>
      rw [moves_snoc] at h ⊢
      rcases live_move (t.moves ms) m with hlive | ⟨settings, change, s', haccepted, hs'⟩
      · rw [hlive]
        cases hbefore : kept (t.moves ms).service with
        | none => exact ⟨ms, [m], rfl, rfl, hbefore⟩
        | some old =>
            obtain ⟨early, late, rfl, hsame, hunmade⟩ := ih hbefore
            exact ⟨early, late ++ [m], List.append_assoc .., hsame, hunmade⟩
      · rw [hs', hupdate _ _ _ _ haccepted] at h
        exact absurd h (by simp)

/-! ### Decisions of a run -/

/-- A request that waits for its throttling was decided at some time of the run, in one go. -/
theorem decided_moves {s : Service} {requests : List (String × String)} {r : Request} {verdict : Verdict}
    {strategy : Strategy} (hr : r ∈ ((start s requests).moves ms).requests)
    (hdecided : r.decided? = some (verdict, strategy)) :
    ∃ early late client record, ms = early ++ late ∧
      ((((start s requests).moves early).service.load r.key).decide r.endpoint client
        (((start s requests).moves early).service.record r.key)).1 = .ok (⟨verdict, record⟩, strategy) := by
  induction ms using List.reverseRecOn generalizing r with
  | nil =>
      obtain ⟨request, -, rfl⟩ := List.mem_map.1 hr
      exact absurd hdecided (by simp [Request.decided?, Request.fresh])
  | append_singleton ms m ih =>
      have hkept : r ∈ ((start s requests).moves ms).requests →
          ∃ early late client record, ms ++ [m] = early ++ late ∧
            ((((start s requests).moves early).service.load r.key).decide r.endpoint client
              (((start s requests).moves early).service.record r.key)).1 = .ok (⟨verdict, record⟩, strategy) := by
        intro hbefore
        obtain ⟨early, late, client, record, rfl, hdecision⟩ := ih hbefore hdecided
        exact ⟨early, late ++ [m], client, record, List.append_assoc .., hdecision⟩
      rw [moves_snoc] at hr
      have hmoved := moved_move ((start s requests).moves ms) m
      generalize ((start s requests).moves ms).move m = last at hr hmoved
      cases hmoved with
      | stays hstays => exact hkept hr
      | happens => exact hkept hr
      | @advances i r₀ r' s' hr₀ hadvance =>
          rcases List.mem_or_eq_of_mem_set hr with hmem | rfl
          · exact hkept hmem
          · have hkey : r.key = r₀.key := hadvance.key_eq
            have hendpoint : r.endpoint = r₀.endpoint := congrArg RecordKey.endpoint hkey
            rcases hadvance.decided?_eq_some hdecided with hearlier | ⟨client, ticket, record, -, hdecision⟩
            · obtain ⟨early, late, client, record, rfl, hdecision⟩ := ih (List.mem_of_getElem? hr₀) hearlier
              rw [← hkey, ← hendpoint] at hdecision
              exact ⟨early, late ++ [_], client, record, List.append_assoc .., hdecision⟩
            · rw [← hkey, ← hendpoint] at hdecision
              exact ⟨ms, [_], client, record, rfl, hdecision⟩

/-- **Everything comes from one snapshot.**  After any run of requests, of accepted and refused changes of the
settings, of sweeps and of whatever else may happen short of a direct change of the breaker's settings,

* a limiter that is kept is set up as the live snapshot has it, and was made while that snapshot was live;
* so is a strategy that is kept;
* the breaker has the settings that the live snapshot has for it;
* since any earlier time, the version has not gone down, and it is the same only if the snapshot is;
* a decision that a request makes now is the answer of the live snapshot;
* the verdict and the strategy with which a request goes into its throttling are the answer of a snapshot that
  was live at one time of the run, and nothing of them comes from another one. -/
theorem answers_by_snapshot {settings : Settings} {fittings : Fittings} {sleeper : Sleeper}
    {given : Option Breaker} {stores : Stores} {clock : Clock} {s : Service}
    (hbuild : Service.build settings fittings sleeper given stores clock = .ok s)
    (requests : List (String × String)) (ms : List Move) (hdirect : ∀ m ∈ ms, m.reconfigures = false) :
    let t := (start s requests).moves ms
    let snapshot := t.service.live.current
    (∀ kind limiter, t.service.limiters.made.get? kind = some limiter →
      (∃ fresh, snapshot.settings.limiter kind = .ok fresh ∧ fresh.SameSetup limiter) ∧
        ∃ early late, ms = early ++ late ∧
          ((start s requests).moves early).service.live.current = snapshot ∧
          ((start s requests).moves early).service.limiters.made.get? kind = none) ∧
      (∀ endpoint tier strategy, t.service.strategies.made.get? (endpoint, tier) = some strategy →
        strategy = .ofKind snapshot.settings (snapshot.settings.strategyFor endpoint tier) ∧
          ∃ early late, ms = early ++ late ∧
            ((start s requests).moves early).service.live.current = snapshot ∧
            ((start s requests).moves early).service.strategies.made.get? (endpoint, tier) = none) ∧
      snapshot.settings.breakerSettings = .ok t.service.breaker.settings ∧
      (∀ early late, ms = early ++ late →
        ((start s requests).moves early).service.live.current.version ≤ snapshot.version ∧
          (snapshot.version = ((start s requests).moves early).service.live.current.version →
            snapshot = ((start s requests).moves early).service.live.current)) ∧
      (∀ r client ticket, r ∈ t.requests → r.stage = .loading client ticket →
        (t.service.load r.key).AnswersBy snapshot r.endpoint client (t.service.record r.key)
          ((t.service.load r.key).decide r.endpoint client (t.service.record r.key)).1) ∧
      ∀ r verdict strategy, r ∈ t.requests → r.decided? = some (verdict, strategy) →
        ∃ early late client record, ms = early ++ late ∧
          (((start s requests).moves early).service.load r.key).AnswersBy
            ((start s requests).moves early).service.live.current r.endpoint client
            (((start s requests).moves early).service.record r.key) (.ok (⟨verdict, record⟩, strategy)) := by
  intro t snapshot
  obtain ⟨hstart, hlimiters, hstrategies⟩ := inStep_build hbuild
  have hs : t.service.InStep := inStep_moves hstart hdirect
  refine ⟨?limiters, ?strategies, hs.breaker, ?versions, ?decides, ?decided⟩
  case limiters =>
    intro kind limiter hmade
    refine ⟨hs.limiters kind limiter hmade, exists_unmade (·.limiters.made.get? kind) ?_ ?_ hmade⟩
    · show s.limiters.made.get? kind = none
      rw [hlimiters]
      rfl
    · intro u accepted change u' haccepted
      rw [(inStep_update haccepted).2.1]
      rfl
  case strategies =>
    intro endpoint tier strategy hmade
    refine ⟨hs.strategies endpoint tier strategy hmade,
      exists_unmade (·.strategies.made.get? (endpoint, tier)) ?_ ?_ hmade⟩
    · show s.strategies.made.get? (endpoint, tier) = none
      rw [hstrategies]
      rfl
    · intro u accepted change u' haccepted
      rw [(inStep_update haccepted).2.2.1]
      rfl
  case versions =>
    intro early late hms
    have hlate := version_moves ((start s requests).moves early) late
    rw [← moves_append, ← hms] at hlate
    exact hlate
  case decides =>
    intro r client ticket hr hstage
    exact (hs.load r.key).answersBy r.endpoint client _
  case decided =>
    intro r verdict strategy hr hdecided
    obtain ⟨early, late, client, record, rfl, hdecision⟩ := decided_moves hr hdecided
    refine ⟨early, late, client, record, rfl, ?_⟩
    rw [← hdecision]
    have hearly : ((start s requests).moves early).service.InStep :=
      inStep_moves hstart fun m hm => hdirect m (List.mem_append_left _ hm)
    exact (hearly.load r.key).answersBy r.endpoint client _

/-- One request at a time, in a window of a second, and whoever comes too soon is turned away. -/
def press : Settings :=
  { kiosk with
    rates := ⟨some 1, some 1, some 1, some 1, some 1, some 1⟩
    defaultAlgorithm := .fixedWindow
    defaultStrategy := .reject }

/-- Ann gets a paper at the kiosk.  While her second request is about to be decided, settings without locks are
refused, and then those of the press go live. -/
def renewal : List Move :=
  ([0, 0, 0, 0, 0, 1, 1].map .advance) ++
    [.happen (.update { press with lockRetries := 0 }), .happen (.update press)] ++
    ([1, 1, 2, 2, 2].map .advance)

/-- Ann's third request is denied and is to be turned away, by the window and the strategy of the press. -/
theorem third_paper_answered_by_press :
    let t := (start opening callers).moves renewal
    let snapshot : Snapshot := ⟨2, press⟩
    t.service.live.current = snapshot ∧
      (∀ kind limiter, t.service.limiters.made.get? kind = some limiter →
        ∃ fresh, press.limiter kind = .ok fresh ∧ fresh.SameSetup limiter) ∧
      (t.service.limiters.made.get? .fixedWindow).isSome ∧
      press.breakerSettings = .ok t.service.breaker.settings ∧
      ∃ early late client record, renewal = early ++ late ∧
        (((start opening callers).moves early).service.load ⟨"ann", "paper"⟩).AnswersBy
          ((start opening callers).moves early).service.live.current "paper" client
          (((start opening callers).moves early).service.record ⟨"ann", "paper"⟩)
          (.ok (⟨.denied (.ofMillis 1000), record⟩, .reject)) := by
  intro t snapshot
  have hbuild : Service.build kiosk .standard .tracking none .empty ⟨1000⟩ = .ok opening := rfl
  have hdirect : ∀ m ∈ renewal, m.reconfigures = false := by decide
  have hlive : t.service.live.current = snapshot := by decide +kernel
  obtain ⟨hlimiters, -, hbreaker, -, -, hdecided⟩ := answers_by_snapshot hbuild callers renewal hdirect
  change t.service.live.current.settings.breakerSettings = _ at hbreaker
  rw [hlive] at hbreaker
  refine ⟨hlive, ?_, by decide +kernel, hbreaker, ?_⟩
  · intro kind limiter hmade
    obtain ⟨hmadeFrom, -⟩ := hlimiters kind limiter hmade
    change ∃ fresh, t.service.live.current.settings.limiter kind = .ok fresh ∧ _ at hmadeFrom
    rwa [hlive] at hmadeFrom
  · exact hdecided ⟨"paper", "ann", .throttling (.denied (.ofMillis 1000)) .reject⟩ _ _
      (List.mem_of_getElem? (i := 2) rfl) rfl

end Traffic
end Service
end AdmissionControl
