import AdmissionControl.Proofs.Limiter.Slots
import AdmissionControl.Proofs.Service.Exemption
import AdmissionControl.Proofs.Service.LoneRequests
import AdmissionControl.Proofs.Service.Serving

/-!
# What a check can answer

Sound settings leave little that can go wrong later.  Everything that is made of them on demand can be made, and while
checks come one after another no lock is ever held by somebody else.  So the only errors that a check still has are
about the client, its tier or its name, and about the throttling of a denial.

* `Limiter.Free`, `Limiters.Free` — nobody holds a lock.  Checks one after another keep it so.
* `Decision.cases_of_error`, `Decision.cases_of_ok` — why a decision fails, and what it needs to succeed.
* `Answers` — the answers that a check may have, depending on the client.
* `Underway`, `carried_underway` — the invariant of a check, stage by stage; `Quiet` — that between checks.
* `sound_settings_suffice` — **nothing else fails**, in every run of checks one after another.
-/

namespace AdmissionControl

/-! ## Locks that nobody holds -/

namespace Limiter

variable {l l' : Limiter} {breaker breaker' : Breaker} {breakerNow now : Nat} {record : Record}
  {outcome : Except Error Admission} {admission : Admission} {error : Error}

/-- Nobody holds a lock. -/
def Free (l : Limiter) : Prop := ∀ client, l.isHeld client = false

theorem free_ofRule (rule : Rule) (locking : Locking) (inactivity : Duration) :
    Free (ofRule rule locking inactivity) := by
  intro client
  simp [ofRule, isHeld]

theorem Free.look (h : l.Free) (client : String) (now : Nat) : (l.look client now).2.Free := by
  intro x
  simp [h x]

theorem Free.sweep (h : l.Free) (now : Nat) : (l.sweep now).Free := by
  intro x
  simp [h x]

/-- Who takes a lock, decides and gives the lock back leaves no lock held. -/
theorem Free.leave_of_enter (h : l.Free) {client : String} (henter : l.enter client = some l') :
    ((l'.decide record now).2.leave client).Free := by
  obtain ⟨-, hself, hothers, -⟩ := isHeld_of_enter henter
  intro x
  by_cases hx : x = client
  · rw [hx]
    apply isHeld_leave_self
    exact hself
  · rw [isHeld_leave_of_ne hx]
    exact (hothers x hx).trans (h x)

theorem Checked.free (h : Checked l breaker breakerNow now record outcome l' breaker') (hl : l.Free) : l'.Free := by
  cases h with
  | settled hgate => exact hl
  | estimated hgate hestimate => exact hl.look _ _
  | timedOut hgate henter => exact hl.look _ _
  | decided hgate henter => exact Free.leave_of_enter (hl.look _ _) henter

/-- Where nobody holds a lock, a check fails only for a record that is not sound. -/
theorem Checked.fault_of_error (h : Checked l breaker breakerNow now record (.error error) l' breaker') (hl : l.Free) :
    ∃ fault, record.fault? = some fault ∧ error = .invalid fault := by
  cases h with
  | settled hgate => exact fault_of_gate hgate
  | timedOut hgate henter =>
      have hslot : (l.look record.client.id now).2.hasSlot record.client.id = true := by simp [hasSlot_look]
      have hheld := isHeld_of_enter_eq_none hslot henter
      rw [hl.look record.client.id now record.client.id] at hheld
      cases hheld

/-- The gate lets nothing through that is not sound. -/
theorem fault?_of_gate (h : ∀ error, (gate record breaker now).1 ≠ .settled (.error error)) : record.fault? = none := by
  cases hfault : record.fault? with
  | none => rfl
  | some fault =>
      apply absurd _ (h (.invalid fault))
      simp [gate, hfault]

theorem Checked.fault?_of_ok (h : Checked l breaker breakerNow now record (.ok admission) l' breaker') :
    record.fault? = none := by
  cases h with
  | settled hgate => exact fault?_of_gate fun error herror => nomatch hgate.symm.trans herror
  | estimated hgate hestimate => exact fault?_of_gate fun error herror => nomatch hgate.symm.trans herror
  | decided hgate henter => exact fault?_of_gate fun error herror => nomatch hgate.symm.trans herror

end Limiter

namespace Limiters

variable {ls ls' : Limiters} {exemptions : Exemptions} {breaker breaker' : Breaker} {breakerNow now : Nat}
  {endpoint : String} {record : Record} {settings : Settings} {kind : AlgorithmKind} {limiter : Limiter}
  {outcome : Except Error Admission} {admission : Admission} {error : Error}

/-- Nobody holds a lock of any limiter. -/
def Free (ls : Limiters) : Prop := ∀ kind limiter, ls.made.get? kind = some limiter → limiter.Free

theorem free_empty : Free empty := by
  intro kind limiter hnone
  exact absurd hnone (by simp [empty])

theorem Free.set (h : ls.Free) (hlimiter : limiter.Free) : Free ⟨ls.made.set kind limiter⟩ := by
  intro other found hfound
  rw [Table.get?_set] at hfound
  split at hfound
  · obtain rfl := Option.some.inj hfound
    exact hlimiter
  · exact h other found hfound

theorem Free.sweep (h : ls.Free) (now : Nat) : (ls.sweep now).2.Free := by
  intro kind limiter hswept
  obtain ⟨before, hbefore, rfl⟩ := Option.map_eq_some_iff.1 ((ls.made.get?_map _ kind).symm.trans hswept)
  exact (h kind before hbefore).sweep now

theorem free_of_limiter (h : settings.limiter kind = .ok limiter) : limiter.Free := by
  unfold Settings.limiter at h
  split at h
  · obtain rfl := Except.ok.inj h
    exact Limiter.free_ofRule _ _ _
  · cases h

theorem Free.obtain (h : ls.Free) (hobtain : ls.obtain kind settings = .ok (limiter, ls')) :
    limiter.Free ∧ ls'.Free := by
  unfold Limiters.obtain at hobtain
  split at hobtain
  · rename_i hmade
    obtain ⟨rfl, rfl⟩ := Prod.mk.inj (Except.ok.inj hobtain)
    exact ⟨h kind _ hmade, h⟩
  · split at hobtain
    · rename_i hfresh
      obtain ⟨rfl, rfl⟩ := Prod.mk.inj (Except.ok.inj hobtain)
      exact ⟨free_of_limiter hfresh, h.set (free_of_limiter hfresh)⟩
    · cases hobtain

/-- A limiter of sound settings can always be had. -/
theorem exists_obtain (ls : Limiters) (hsound : settings.fault? = none) (kind : AlgorithmKind) :
    ∃ obtained, ls.obtain kind settings = .ok obtained := by
  obtain ⟨fresh, hfresh⟩ := Settings.exists_limiter hsound kind
  unfold obtain
  split
  · exact ⟨_, rfl⟩
  · rw [hfresh]
    exact ⟨_, rfl⟩

theorem Served.free (h : Served ls exemptions breaker breakerNow now endpoint record settings outcome ls' breaker')
    (hls : ls.Free) : ls'.Free := by
  cases h with
  | exempt hexempt => exact hls
  | failed hexempt hobtain => exact hls
  | checked hexempt hobtain hchecked =>
      obtain ⟨hlimiter, hmade⟩ := hls.obtain hobtain
      exact hmade.set (hchecked.free hlimiter)

/-- Under sound settings, and where nobody holds a lock, a check fails only for a record that is not sound, and never
for an exempt client. -/
theorem Served.fault_of_error
    (h : Served ls exemptions breaker breakerNow now endpoint record settings (.error error) ls' breaker')
    (hls : ls.Free) (hsound : settings.fault? = none) :
    exemptions.contains record.client = false ∧ ∃ fault, record.fault? = some fault ∧ error = .invalid fault := by
  cases h with
  | failed hexempt hobtain =>
      obtain ⟨obtained, hobtained⟩ := ls.exists_obtain hsound (settings.algorithmFor endpoint)
      cases hobtained.symm.trans hobtain
  | checked hexempt hobtain hchecked => exact ⟨hexempt, hchecked.fault_of_error (hls.obtain hobtain).1⟩

theorem Served.fault?_of_ok
    (h : Served ls exemptions breaker breakerNow now endpoint record settings (.ok admission) ls' breaker') :
    exemptions.contains record.client = true ∨ record.fault? = none := by
  cases h with
  | exempt hexempt => exact .inl hexempt
  | checked hexempt hobtain hchecked => exact .inr hchecked.fault?_of_ok

end Limiters

/-- What can be wrong with a record whose policy can be enforced. -/
theorem Record.fault?_of_isValid {record : Record} (h : record.policy.isValid = true) :
    record.fault? = if Text.isBlankText record.client.id then some .blankClient else none := by
  simp [fault?, h]

namespace Service

variable {s s₀ s' : Service} {r r' : Request} {endpoint : String} {identified : Client} {stored : Record}
  {outcome : Except Error (Admission × Strategy)} {error : Error}

/-! ## Why a decision fails -/

/-- The live settings have no policy for a client: its tier has no rate, and is not the internal one. -/
def Unsupported (s : Service) (client : Client) : Prop :=
  client.tier ≠ .internal ∧ s.live.current.settings.rates.get? client.tier = none

/-- A client has no name and is not exempt. -/
def Nameless (s : Service) (client : Client) : Prop :=
  Text.isBlankText client.id = true ∧ s.stores.exemptions.contains client = false

section Decisions

variable (hresolver : s.fittings.resolver = .settings) (hsound : s.live.current.settings.fault? = none)
include hresolver hsound

theorem resolve_eq_error_iff :
    s.fittings.resolver.resolve endpoint identified.tier s.fittings.timeRange s.live.current.settings = .error error ↔
      s.Unsupported identified ∧ error = .unknownTier identified.tier.name := by
  rw [hresolver]
  refine Iff.trans (Settings.policyFor_eq_error_iff hsound) ?_
  rw [Unsupported, and_assoc]

theorem supported_of_resolve {policy : Policy}
    (h : s.fittings.resolver.resolve endpoint identified.tier s.fittings.timeRange s.live.current.settings =
      .ok policy) : ¬s.Unsupported identified ∧ policy.isValid = true := by
  refine ⟨fun hunsupported => ?_, ?_⟩
  · cases h.symm.trans ((resolve_eq_error_iff hresolver hsound).2 ⟨hunsupported, rfl⟩)
  · rw [hresolver] at h
    exact Settings.isValid_of_policyFor h

/-- A decision fails for a client without a policy, or for one without a name. -/
theorem Decision.cases_of_error (h : Decision s endpoint identified stored (.error error) s')
    (hfree : s.limiters.Free) :
    s.Unsupported identified ∧ error = .unknownTier identified.tier.name ∨
      ¬s.Unsupported identified ∧ s.Nameless identified ∧ error = .invalid .blankClient := by
  cases h with
  | unresolved hpolicy => exact .inl ((resolve_eq_error_iff hresolver hsound).1 hpolicy)
  | failed hpolicy hcheck =>
      right
      obtain ⟨hsupported, hvalid⟩ := supported_of_resolve hresolver hsound hpolicy
      obtain ⟨hexempt, fault, hfault, rfl⟩ := (Limiters.served_of_check hcheck).fault_of_error hfree hsound
      rw [Record.fault?_of_isValid hvalid] at hfault
      split at hfault
      · rename_i hblank
        obtain rfl := Option.some.inj hfault
        exact ⟨hsupported, ⟨hblank, hexempt⟩, rfl⟩
      · cases hfault

/-- A decision about a client needs a policy for it, and a name. -/
theorem Decision.cases_of_ok {decided : Admission × Strategy}
    (h : Decision s endpoint identified stored (.ok decided) s') :
    ¬s.Unsupported identified ∧ ¬s.Nameless identified := by
  cases h with
  | answered hpolicy hcheck =>
      obtain ⟨hsupported, hvalid⟩ := supported_of_resolve hresolver hsound hpolicy
      refine ⟨hsupported, ?_⟩
      rintro ⟨hblank, hexempt⟩
      rcases (Limiters.served_of_check hcheck).fault?_of_ok with hcontains | hfault
      · cases hcontains.symm.trans hexempt
      · rw [Record.fault?_of_isValid hvalid] at hfault
        split at hfault
        · cases hfault
        · rename_i hnamed
          exact hnamed hblank

end Decisions

theorem Decision.free (h : Decision s endpoint identified stored outcome s') (hfree : s.limiters.Free) :
    s'.limiters.Free := by
  cases h with
  | unresolved hpolicy => exact hfree
  | failed hpolicy hcheck => exact (Limiters.served_of_check hcheck).free hfree
  | answered hpolicy hcheck => exact (Limiters.served_of_check hcheck).free hfree

/-! ## The answers of a check -/

/-- The answers that a check of a client, as whom `identified` is known, may have. -/
structure Answers (s : Service) (endpoint : String) (identified : Client) (answer : Except Error Verdict) : Prop where
  /-- The tier is unknown exactly if the live settings have no policy for it. -/
  unknownTier_iff : ∀ name, answer = .error (.unknownTier name) ↔
    s.Unsupported identified ∧ name = identified.tier.name
  /-- The request is invalid exactly if, beyond that, the client has no name and is not exempt. -/
  invalid_iff : ∀ fault, answer = .error (.invalid fault) ↔
    ¬s.Unsupported identified ∧ s.Nameless identified ∧ fault = .blankClient
  /-- In all other cases there is no error but that of a caller that was turned away or not kept to the end. -/
  otherwise : ¬s.Unsupported identified → ¬s.Nameless identified → ∀ error, answer = .error error →
    ∃ hint, error = .rejected identified.id endpoint hint ∨ error = .interrupted identified.id endpoint hint

theorem answers_of_error
    (h : s.Unsupported identified ∧ error = .unknownTier identified.tier.name ∨
      ¬s.Unsupported identified ∧ s.Nameless identified ∧ error = .invalid .blankClient) :
    Answers s endpoint identified (.error error) := by
  rcases h with ⟨hunsupported, rfl⟩ | ⟨hsupported, hnameless, rfl⟩
  · exact ⟨by simp [hunsupported, eq_comm], by simp [hunsupported], fun hsupported => absurd hunsupported hsupported⟩
  · refine ⟨by simp [hsupported], by simp [hsupported, hnameless, eq_comm], fun _ hnamed => absurd hnameless hnamed⟩

/-- A client with a policy and a name is let go on, turned away or not kept to the end. -/
theorem answers_of_named {answer : Except Error Verdict} (hsupported : ¬s.Unsupported identified)
    (hnamed : ¬s.Nameless identified)
    (h : ∀ error, answer = .error error →
      ∃ hint, error = .rejected identified.id endpoint hint ∨ error = .interrupted identified.id endpoint hint) :
    Answers s endpoint identified answer := by
  refine ⟨fun name => ⟨fun hanswer => ?_, fun hname => absurd hname.1 hsupported⟩,
    fun fault => ⟨fun hanswer => ?_, fun hfault => absurd hfault.2.1 hnamed⟩, fun _ _ => h⟩
  · obtain ⟨hint, hrejected | hinterrupted⟩ := h _ hanswer
    · cases hrejected
    · cases hinterrupted
  · obtain ⟨hint, hrejected | hinterrupted⟩ := h _ hanswer
    · cases hrejected
    · cases hinterrupted

/-! ## A check on its way -/

/-- What a check leaves as it was, and that nobody holds a lock. -/
structure Steady (s₀ s : Service) : Prop where
  /-- The settings are still the same. -/
  live_eq : s.live = s₀.live
  /-- So is what the service is made of. -/
  fittings_eq : s.fittings = s₀.fittings
  /-- So are the exempt clients. -/
  exemptions_eq : s.stores.exemptions = s₀.stores.exemptions
  /-- Nobody holds a lock of a limiter. -/
  free : s.limiters.Free

namespace Steady

variable (h : s₀.Steady s)
include h

theorem load (key : RecordKey) : s₀.Steady (s.load key) := ⟨h.live_eq, h.fittings_eq, h.exemptions_eq, h.free⟩

theorem withRoom (room : WaitingRoom) : s₀.Steady { s with room := room } :=
  ⟨h.live_eq, h.fittings_eq, h.exemptions_eq, h.free⟩

theorem withLocks (locks : RecordLocks) : s₀.Steady { s with locks := locks } :=
  ⟨h.live_eq, h.fittings_eq, h.exemptions_eq, h.free⟩

theorem finish (r : Request) (client : Client) (ticket : Nat) (verdict : Verdict) (strategy : Strategy) :
    s₀.Steady (s.finish r client ticket verdict strategy).2 :=
  ⟨h.live_eq, h.fittings_eq, h.exemptions_eq, h.free⟩

theorem sweep : s₀.Steady s.sweep := ⟨h.live_eq, h.fittings_eq, h.exemptions_eq, h.free.sweep s.now⟩

theorem decide (hdecision : Decision s endpoint identified stored outcome s') : s₀.Steady s' := by
  obtain ⟨-, hstores, hlive⟩ := hdecision.frame
  refine ⟨hlive.trans h.live_eq, hdecision.premises.1.trans h.fittings_eq, ?_, hdecision.free h.free⟩
  rw [hstores]
  exact h.exemptions_eq

theorem unsupported_iff (client : Client) : s.Unsupported client ↔ s₀.Unsupported client := by
  rw [Unsupported, Unsupported, h.live_eq]

theorem nameless_iff (client : Client) : s.Nameless client ↔ s₀.Nameless client := by
  rw [Nameless, Nameless, h.exemptions_eq]

end Steady

/-- What is true when the only request has come to a stage. -/
def Reached (s₀ : Service) (endpoint : String) (identified : Client) (s : Service) : Stage → Prop
  | .arriving => s.locks.Idle ∧ (s.stores.directory.identify identified.id).1 = identified
  | .queued client ticket => client = identified ∧ s.locks.holds ticket = true ∧ (s.locks.drop ticket).Idle
  | .loading client ticket => client = identified ∧ (s.locks.drop ticket).Idle
  | .saving _ ticket _ _ => (¬s₀.Unsupported identified ∧ ¬s₀.Nameless identified) ∧ (s.locks.drop ticket).Idle
  | .throttling .. | .waiting .. => (¬s₀.Unsupported identified ∧ ¬s₀.Nameless identified) ∧ s.locks.Idle
  | .done answer => Answers s₀ endpoint identified answer ∧ s.locks.Idle

/-- What is true of a service and of the only request that is under way in it, since the service was `s₀`. -/
structure Underway (s₀ : Service) (endpoint : String) (identified : Client) (s : Service) (r : Request) : Prop where
  /-- The request is on the endpoint. -/
  endpoint_eq : r.endpoint = endpoint
  /-- It is one of the client. -/
  client_eq : r.client = identified.id
  /-- What the check depends on is as it was. -/
  steady : s₀.Steady s
  /-- The request is where it can be. -/
  reached : s₀.Reached endpoint identified s r.stage

/-- A caller that leaves the waiting room has one of the answers. -/
theorem Underway.leave (h : s₀.Underway endpoint identified s r) (room : WaitingRoom)
    (hdecided : (¬s₀.Unsupported identified ∧ ¬s₀.Nameless identified) ∧ s.locks.Idle) (verdict : Verdict)
    (fault : Option ThrottleFault) :
    s₀.Underway endpoint identified { s with room := room } (r.leave verdict fault) := by
  obtain ⟨⟨hsupported, hnamed⟩, hidle⟩ := hdecided
  cases fault with
  | none =>
      refine ⟨h.endpoint_eq, h.client_eq, h.steady.withRoom room, ?_, hidle⟩
      exact answers_of_named hsupported hnamed (by simp)
  | some fault =>
      refine ⟨h.endpoint_eq, h.client_eq, h.steady.withRoom room, ?_, hidle⟩
      apply answers_of_named hsupported hnamed
      intro error herror
      obtain rfl := Except.error.inj herror
      rw [h.client_eq, h.endpoint_eq]
      cases fault with
      | rejected hint => exact ⟨hint, .inl rfl⟩
      | interrupted hint => exact ⟨hint, .inr rfl⟩

section Checks

variable (hresolver : s₀.fittings.resolver = .settings) (hsound : s₀.live.current.settings.fault? = none)
include hresolver hsound

/-- What a decision on the way of a check comes to, in terms of the service as it was. -/
theorem Steady.cases_of_decision (h : s₀.Steady s)
    (hdecision : Decision s endpoint identified stored outcome s') :
    (∃ error, outcome = .error error ∧ Answers s₀ endpoint identified (.error error)) ∨
      (∃ decided, outcome = .ok decided) ∧ ¬s₀.Unsupported identified ∧ ¬s₀.Nameless identified := by
  have hresolver' : s.fittings.resolver = .settings := by rw [h.fittings_eq, hresolver]
  have hsound' : s.live.current.settings.fault? = none := by rw [h.live_eq, hsound]
  cases outcome with
  | error error =>
      have hcases := hdecision.cases_of_error hresolver' hsound' h.free
      rw [h.unsupported_iff, h.nameless_iff] at hcases
      exact .inl ⟨error, rfl, answers_of_error hcases⟩
  | ok decided =>
      have hcases := hdecision.cases_of_ok hresolver' hsound'
      rw [h.unsupported_iff, h.nameless_iff] at hcases
      exact .inr ⟨⟨decided, rfl⟩, hcases⟩

/-- **The invariant of a check**: each move of its request brings it from one stage to the next. -/
theorem Underway.advance (h : s₀.Underway endpoint identified s r) (hadvance : Advance s r r' s') :
    s₀.Underway endpoint identified s' r' := by
  have hreached := h.reached
  have hloaded := h.steady.load r.key
  cases hadvance with
  | joins hstage =>
      rw [hstage] at hreached
      obtain ⟨hidle, hidentified⟩ := hreached
      have hclient : (s.stores.directory.identify r.client).1 = identified := by rw [h.client_eq, hidentified]
      have hsteady := h.steady
      refine ⟨h.endpoint_eq, h.client_eq, ?_, hclient, hidle.holds_join r.key, hidle.drop_join r.key⟩
      exact ⟨hsteady.live_eq, hsteady.fittings_eq, hsteady.exemptions_eq, hsteady.free⟩
  | enters hstage hholds =>
      rw [hstage] at hreached
      obtain ⟨hclient, -, hidle⟩ := hreached
      exact ⟨h.endpoint_eq, h.client_eq, h.steady, hclient, hidle⟩
  | @fails client ticket error s₁ hstage hdecision =>
      rw [hstage] at hreached
      obtain ⟨rfl, hidle⟩ := hreached
      have hdropped : (s₁.locks.drop ticket).Idle := by
        rw [hdecision.frame.1]
        exact hidle
      refine ⟨h.endpoint_eq, h.client_eq, (hloaded.decide hdecision).withLocks _, ?_, hdropped⟩
      rw [← h.endpoint_eq]
      rcases hloaded.cases_of_decision hresolver hsound hdecision with ⟨error', herror, hanswers⟩ | ⟨⟨_, hok⟩, -⟩
      · obtain rfl := Except.error.inj herror
        exact hanswers
      · cases hok
  | @admits client ticket admission strategy _ hstage hdecision hallowed =>
      rw [hstage] at hreached
      obtain ⟨rfl, hidle⟩ := hreached
      have hheld : (s'.locks.drop ticket).Idle := by
        rw [hdecision.frame.1]
        exact hidle
      refine ⟨h.endpoint_eq, h.client_eq, hloaded.decide hdecision, ?_, hheld⟩
      rcases hloaded.cases_of_decision hresolver hsound hdecision with ⟨error, herror, -⟩ | ⟨-, hdecided⟩
      · cases herror
      · exact hdecided
  | @denies client ticket admission strategy s₁ hstage hdecision hdenied =>
      rw [hstage] at hreached
      obtain ⟨rfl, hidle⟩ := hreached
      have hdropped : (s₁.locks.drop ticket).Idle := by
        rw [hdecision.frame.1]
        exact hidle
      refine ⟨h.endpoint_eq, h.client_eq, (hloaded.decide hdecision).finish _ _ _ _ _, ?_, hdropped⟩
      rcases hloaded.cases_of_decision hresolver hsound hdecision with ⟨error, herror, -⟩ | ⟨-, hdecided⟩
      · cases herror
      · exact hdecided
  | saves hstage =>
      rw [hstage] at hreached
      have hsteady := h.steady
      refine ⟨h.endpoint_eq, h.client_eq, ?_, hreached⟩
      exact ⟨hsteady.live_eq, hsteady.fittings_eq, hsteady.exemptions_eq, hsteady.free⟩
  | leaves hstage hseat =>
      rw [hstage] at hreached
      exact h.leave _ hreached _ _
  | waits hstage hseat =>
      rw [hstage] at hreached
      exact ⟨h.endpoint_eq, h.client_eq, h.steady.withRoom _, hreached⟩
  | wakes hstage hfault =>
      rw [hstage] at hreached
      exact h.leave s.room hreached _ _

theorem carried_underway (endpoint : String) (identified : Client) : Carried (s₀.Underway endpoint identified) where
  advance h hadvance := h.advance hresolver hsound hadvance
  room room h := by
    refine ⟨h.endpoint_eq, h.client_eq, h.steady.withRoom room, ?_⟩
    have hreached := h.reached
    revert hreached
    cases Request.stage _ <;> exact id
  sweep h := by
    refine ⟨h.endpoint_eq, h.client_eq, h.steady.sweep, ?_⟩
    have hreached := h.reached
    revert hreached
    cases Request.stage _ <;> exact id
  holds h hstage := by
    have hreached := h.reached
    rw [hstage] at hreached
    exact hreached.2.1

end Checks

/-! ## Checks one after another -/

/-- A service with sound settings in which no request is under way. -/
structure Quiet (s : Service) : Prop where
  /-- Policies come from the settings. -/
  resolver : s.fittings.resolver = .settings
  /-- The settings are sound. -/
  sound : s.live.current.settings.fault? = none
  /-- Nobody holds a lock of a limiter. -/
  free : s.limiters.Free
  /-- Nobody holds a lock of a record. -/
  idle : s.locks.Idle

/-- **One check** of a quiet service has one of the answers, and leaves the service quiet. -/
theorem Quiet.check (h : s.Quiet) (endpoint client : String) (interruptAfter : Option Duration) :
    Answers s endpoint (s.identified (.fresh endpoint client)) (s.check endpoint client interruptAfter).1 ∧
      (s.check endpoint client interruptAfter).2.Quiet := by
  have hid : (s.identified (.fresh endpoint client)).id = client := identified_id s (.fresh endpoint client)
  have hfresh : s.Underway endpoint (s.identified (.fresh endpoint client)) s (.fresh endpoint client) := by
    refine ⟨rfl, hid.symm, ⟨rfl, rfl, rfl, h.free⟩, h.idle, ?_⟩
    rw [hid]
    rfl
  obtain ⟨r', hunderway, hanswer⟩ :=
    (carried_underway h.resolver h.sound endpoint _).check hfresh interruptAfter
  obtain ⟨-, -, hsteady, hreached⟩ := hunderway
  have hstage : r'.stage = .done (s.check endpoint client interruptAfter).1 := by
    unfold Request.answer? at hanswer
    split at hanswer
    · rename_i hdone
      rw [hdone, Option.some.inj hanswer]
    · cases hanswer
  rw [hstage] at hreached
  obtain ⟨hanswers, hidle⟩ := hreached
  refine ⟨hanswers, ?_, ?_, hsteady.free, hidle⟩
  · rw [hsteady.fittings_eq, h.resolver]
  · rw [hsteady.live_eq, h.sound]

theorem Quiet.happen (h : s.Quiet) (event : Event) : (s.happen event).Quiet := by
  cases event with
  | update settings =>
      rw [Service.happen]
      split
      · rename_i change s' hupdate
        obtain ⟨hlocks, -, hlimiters⟩ := frame_update hupdate
        refine ⟨?_, (inStep_update hupdate).1.sound, ?_, ?_⟩
        · rw [(premises_update hupdate).1, h.resolver]
        · rw [hlimiters]
          exact Limiters.free_empty
        · rw [hlocks]
          exact h.idle
      · exact h
  | sweep => exact ⟨h.resolver, h.sound, h.free.sweep s.now, h.idle⟩
  | move move => exact ⟨h.resolver, h.sound, h.free, h.idle⟩
  | breaker event => exact ⟨h.resolver, h.sound, h.free, h.idle⟩
  | room room => exact ⟨h.resolver, h.sound, h.free, h.idle⟩
  | directory directory => exact ⟨h.resolver, h.sound, h.free, h.idle⟩
  | exemptions exemptions => exact ⟨h.resolver, h.sound, h.free, h.idle⟩

/-- What comes next in a run in which checks come one after another. -/
inductive Occasion
  /-- A client asks on an endpoint, with an interrupt after a while if one is set. -/
  | check (endpoint client : String) (interruptAfter : Option Duration)
  /-- Anything else happens. -/
  | happen (event : Event)

/-- The service after an occasion. -/
def meet (s : Service) : Occasion → Service
  | .check endpoint client interruptAfter => (s.check endpoint client interruptAfter).2
  | .happen event => s.happen event

/-- The service after occasions one after another. -/
def meetAll (s : Service) (occasions : List Occasion) : Service := occasions.foldl meet s

theorem Quiet.meetAll (h : s.Quiet) (occasions : List Occasion) : (s.meetAll occasions).Quiet := by
  induction occasions generalizing s with
  | nil => exact h
  | cons occasion rest ih =>
      apply ih
      cases occasion with
      | check endpoint client interruptAfter => exact (h.check endpoint client interruptAfter).2
      | happen event => exact h.happen event

theorem quiet_build {settings : Settings} {fittings : Fittings} {sleeper : Sleeper} {given : Option Breaker}
    {stores : Stores} {clock : Clock} (hbuild : Service.build settings fittings sleeper given stores clock = .ok s)
    (hresolver : fittings.resolver = .settings) : s.Quiet := by
  obtain ⟨hinStep, hlimiters, -⟩ := inStep_build hbuild
  refine ⟨?_, hinStep.sound, ?_, ?_⟩
  · rw [Traffic.fittings_build hbuild]
    exact hresolver
  · rw [hlimiters]
    exact Limiters.free_empty
  · rw [(Traffic.frame_build hbuild).1]
    exact RecordLocks.idle_empty

/-- **Sound settings suffice.**  Whatever settings are accepted, the breaker, the locks and the limiter of every
algorithm can be made from them.  And in every run of a service whose policies come from the settings, with checks one
after another and anything else in between, whichever way callers are kept waiting, a check

* finds the tier of its client unknown exactly if the tier is not the internal one and has no live rate;
* otherwise, is invalid exactly if the client has no name and is not exempt;
* otherwise, has no error but that its caller was turned away or not kept to the end. -/
theorem sound_settings_suffice {settings : Settings} {fittings : Fittings} {sleeper : Sleeper} {given : Option Breaker}
    {stores : Stores} {clock : Clock} (hbuild : Service.build settings fittings sleeper given stores clock = .ok s)
    (hresolver : fittings.resolver = .settings) (occasions : List Occasion) (endpoint client : String)
    (interruptAfter : Option Duration) :
    (∀ accepted : Settings, accepted.validate = .ok accepted →
      (∃ breakerSettings, accepted.breakerSettings = .ok breakerSettings) ∧
        (∃ locking, accepted.locking = .ok locking) ∧ ∀ kind, ∃ limiter, accepted.limiter kind = .ok limiter) ∧
      let t := s.meetAll occasions
      Answers t endpoint (t.identified (.fresh endpoint client)) (t.check endpoint client interruptAfter).1 := by
  constructor
  · intro accepted haccepted
    obtain ⟨hsound, -⟩ := Settings.validate_eq_ok_iff.1 haccepted
    obtain ⟨locking, hlocking, -⟩ := Settings.locking_of_sound hsound
    exact ⟨⟨_, Settings.breakerSettings_of_sound hsound⟩, ⟨locking, hlocking⟩, Settings.exists_limiter hsound⟩
  · intro t
    have hquiet : t.Quiet := (quiet_build hbuild hresolver).meetAll occasions
    exact (hquiet.check endpoint client interruptAfter).1

/-- An evening at the club where whoever is denied waits on a timer, and the repository lets others go first. -/
def lateEvening : Service :=
  { Traffic.evening with
    fittings := { Fittings.standard with yields := true }
    live := ⟨⟨1, { Traffic.club with defaultStrategy := .delay }⟩, []⟩
    room := .start .timer }

/-- Ann is let in and then has to wait to the end.  In between, settings without locks are refused. -/
def nightfall : List Occasion :=
  [.check "door" "ann" none, .happen (.update { Traffic.club with lockTimeout := 0 }), .check "door" "ann" none]

/-- The owner has no policy, and who has no name is turned down.  Ann's denial has opened the breaker, and her wait for
it is cut short. -/
theorem answers_at_nightfall :
    let t := lateEvening.meetAll nightfall
    Answers t "door" ⟨"owner", .vip⟩ (.error (.unknownTier "VIP")) ∧
      Answers t "door" ⟨" ", .standard⟩ (.error (.invalid .blankClient)) ∧
      Answers t "door" ⟨"ann", .standard⟩ (.error (.interrupted "ann" "door" (.ofMillis 30000))) := by
  intro t
  have hbuild : Service.build { Traffic.club with defaultStrategy := .delay } { Fittings.standard with yields := true }
      .timer none Traffic.staff ⟨1000⟩ = .ok lateEvening := rfl
  have howner : (t.check "door" "owner" none).1 = .error (.unknownTier "VIP") := by decide +kernel
  have hblank : (t.check "door" " " none).1 = .error (.invalid .blankClient) := by decide +kernel
  have hann : (t.check "door" "ann" (some (.ofMillis 5))).1 =
      .error (.interrupted "ann" "door" (.ofMillis 30000)) := by
    decide +kernel
  have hanswers := fun client interruptAfter =>
    (sound_settings_suffice hbuild rfl nightfall "door" client interruptAfter).2
  exact ⟨howner ▸ hanswers "owner" none, hblank ▸ hanswers " " none, hann ▸ hanswers "ann" (some (.ofMillis 5))⟩

end Service
end AdmissionControl
