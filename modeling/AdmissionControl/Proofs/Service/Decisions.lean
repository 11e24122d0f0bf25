import AdmissionControl.Proofs.Limiter.Locks
import AdmissionControl.Proofs.Rule.Records
import AdmissionControl.Proofs.Service.Moves

/-!
# What a decision leaves of the limiters

* `Limiters.MadeFrom` — every limiter is set up as the live settings have it, in every run (`coherent_moves`).
* `Decision.spends` — so an admission on an endpoint with a quota spends from the quota of the settings.
-/

namespace AdmissionControl

/-! ## Limiters -/

namespace Limiter

variable {l l' : Limiter} {breaker breaker' : Breaker} {breakerNow now : Nat} {record : Record}
  {outcome : Except Error Admission} {admission : Admission}

/-- What a check with nothing else going on can come to. -/
inductive Checked (l : Limiter) (breaker : Breaker) (breakerNow now : Nat) (record : Record) :
    Except Error Admission → Limiter → Breaker → Prop
  /-- The gate settles it. -/
  | settled {outcome : Except Error Admission}
      (hgate : (gate record breaker breakerNow).1 = .settled outcome) :
      Checked l breaker breakerNow now record outcome l (gate record breaker breakerNow).2
  /-- It is denied without the lock. -/
  | estimated {admission : Admission} (hgate : (gate record breaker breakerNow).1 = .limited)
      (hestimate : l.algorithm.estimate record now = some admission) :
      Checked l breaker breakerNow now record (.ok admission) (l.look record.client.id now).2
        ((gate record breaker breakerNow).2.observe admission.isAllowed breakerNow)
  /-- Somebody holds the lock. -/
  | timedOut (hgate : (gate record breaker breakerNow).1 = .limited)
      (henter : (l.look record.client.id now).2.enter record.client.id = none) :
      Checked l breaker breakerNow now record
        (.error ((l.look record.client.id now).2.lockTimeout record.client.id))
        (l.look record.client.id now).2 (gate record breaker breakerNow).2
  /-- The algorithm decides under the lock. -/
  | decided {l' : Limiter} (hgate : (gate record breaker breakerNow).1 = .limited)
      (henter : (l.look record.client.id now).2.enter record.client.id = some l') :
      Checked l breaker breakerNow now record (.ok (l'.decide record now).1)
        ((l'.decide record now).2.leave record.client.id)
        ((gate record breaker breakerNow).2.observe (l'.decide record now).1.isAllowed breakerNow)

theorem checked_check (l : Limiter) (breaker : Breaker) (breakerNow now : Nat) (record : Record) :
    Checked l breaker breakerNow now record (l.check breaker breakerNow now record).1
      (l.check breaker breakerNow now record).2.1 (l.check breaker breakerNow now record).2.2 := by
  rw [check]
  rcases hgate : gate record breaker breakerNow with ⟨g, b⟩
  obtain rfl : (gate record breaker breakerNow).2 = b := congrArg Prod.snd hgate
  have hg : (gate record breaker breakerNow).1 = g := congrArg Prod.fst hgate
  cases g with
  | settled outcome => exact .settled hg
  | limited =>
      dsimp only
      cases hglance : ((l.look record.client.id now).2.glance (l.look record.client.id now).1 record now).join with
      | some admission =>
          refine .estimated hg ?_
          rw [glance] at hglance
          split at hglance
          · exact absurd hglance (by simp)
          · rwa [Option.join_some, algorithm_look] at hglance
      | none =>
          dsimp only
          cases henter : (l.look record.client.id now).2.enter record.client.id with
          | none => exact .timedOut hg henter
          | some l' => exact .decided hg henter

/-- What the gate admits without the algorithm has no limit, and its record stays as it is. -/
theorem record_of_gate (h : (gate record breaker breakerNow).1 = .settled (.ok admission)) :
    admission.record = record ∧ (admission.isAllowed = true → record.policy.isUnrestricted = true) := by
  rw [gate] at h
  split at h
  · exact absurd (Gate.settled.inj h) (by simp)
  · split at h
    · obtain rfl := Except.ok.inj (Gate.settled.inj h)
      exact ⟨rfl, fun hallowed => absurd hallowed Bool.false_ne_true⟩
    · split at h
      · rename_i hunrestricted
        obtain rfl := Except.ok.inj (Gate.settled.inj h)
        exact ⟨rfl, fun _ => hunrestricted⟩
      · exact absurd h Gate.noConfusion

theorem Checked.alike (h : Checked l breaker breakerNow now record (.ok admission) l' breaker') :
    record.Alike admission.record := by
  cases h with
  | settled hgate =>
      rw [(record_of_gate hgate).1]
      exact .refl record
  | estimated hgate hestimate => exact Rule.alike_estimate hestimate
  | decided hgate henter => exact Rule.alike_decide ..

/-- Behind a quota, whoever is limited and admitted spends from it. -/
theorem Checked.spends {q : Quota} (h : Checked l breaker breakerNow now record (.ok admission) l' breaker')
    (hrule : l.algorithm.rule = .quota q) (hlimit : q.limit ≤ Word.max)
    (hlimited : record.policy.isUnrestricted = false) (hallowed : admission.isAllowed = true) :
    Quota.Spends q.limit record admission.record := by
  cases h with
  | settled hgate =>
      have hunrestricted := (record_of_gate hgate).2 hallowed
      exact absurd (hlimited.symm.trans hunrestricted) Bool.false_ne_true
  | estimated hgate hestimate =>
      rw [Algorithm.estimate_of_quota hrule] at hestimate
      obtain ⟨-, -, rfl⟩ := Quota.estimate_eq_some_iff.1 hestimate
      exact absurd hallowed Bool.false_ne_true
  | @decided entered hgate henter =>
      have halgorithm : entered.algorithm = l.algorithm :=
        (isHeld_of_enter henter).2.2.2.trans (algorithm_look ..)
      have hdecide : (entered.decide record now).1 = q.decide record now := by
        show (entered.algorithm.decide record now).1 = q.decide record now
        rw [halgorithm]
        exact Algorithm.decide_of_quota hrule record now
      rw [hdecide] at hallowed ⊢
      exact Quota.spends_decide hlimit hallowed

/-! ### Setups -/

/-- Two limiters that are set up in the same way. -/
structure SameSetup (l l' : Limiter) : Prop where
  /-- They follow the same rule. -/
  rule_eq : l'.algorithm.rule = l.algorithm.rule
  /-- They try locks in the same way. -/
  locking_eq : l'.locking = l.locking
  /-- They forget clients after the same time. -/
  inactivity_eq : l'.inactivity = l.inactivity

theorem SameSetup.refl (l : Limiter) : l.SameSetup l := ⟨rfl, rfl, rfl⟩

theorem SameSetup.trans {l'' : Limiter} (h : l.SameSetup l') (h' : l'.SameSetup l'') : l.SameSetup l'' :=
  ⟨h'.rule_eq.trans h.rule_eq, h'.locking_eq.trans h.locking_eq, h'.inactivity_eq.trans h.inactivity_eq⟩

theorem sameSetup_look (l : Limiter) (client : String) (now : Nat) : l.SameSetup (l.look client now).2 := by
  rw [look]
  split
  · exact ⟨rfl, rfl, rfl⟩
  · exact ⟨rfl, rfl, rfl⟩

theorem sameSetup_of_enter {client : String} (h : l.enter client = some l') : l.SameSetup l' := by
  rw [enter] at h
  split at h
  · split at h
    · exact absurd h (by simp)
    · obtain rfl := Option.some.inj h
      exact ⟨rfl, rfl, rfl⟩
  · exact absurd h (by simp)

theorem sameSetup_leave (l : Limiter) (client : String) : l.SameSetup (l.leave client) := by
  rw [leave]
  split
  · exact ⟨rfl, rfl, rfl⟩
  · exact .refl l

theorem sameSetup_sweep (l : Limiter) (now : Nat) : l.SameSetup (l.sweep now) := by
  refine ⟨?_, rfl, rfl⟩
  rw [algorithm_sweep, Algorithm.rule_run]

theorem Checked.sameSetup (h : Checked l breaker breakerNow now record outcome l' breaker') :
    l.SameSetup l' := by
  cases h with
  | settled hgate => exact .refl l
  | estimated hgate hestimate => exact sameSetup_look ..
  | timedOut hgate henter => exact sameSetup_look ..
  | @decided entered hgate henter =>
      have hdecide : entered.SameSetup (entered.decide record now).2 := ⟨rfl, rfl, rfl⟩
      exact (sameSetup_look ..).trans ((sameSetup_of_enter henter).trans (hdecide.trans (sameSetup_leave ..)))

end Limiter

namespace Limiters

variable {ls ls' : Limiters} {settings : Settings} {kind : AlgorithmKind} {limiter : Limiter}

/-- Every limiter is set up as the settings have it. -/
def MadeFrom (settings : Settings) (ls : Limiters) : Prop :=
  ∀ kind limiter, ls.made.get? kind = some limiter →
    ∃ fresh, settings.limiter kind = .ok fresh ∧ fresh.SameSetup limiter

theorem madeFrom_empty (settings : Settings) : MadeFrom settings empty := by
  intro kind limiter hnone
  exact absurd hnone (by simp [empty])

theorem rule_of_limiter {fresh : Limiter} (h : settings.limiter kind = .ok fresh) :
    fresh.algorithm.rule = settings.rule kind := by
  rw [Settings.limiter] at h
  split at h
  · obtain rfl := Except.ok.inj h
    rfl
  · exact absurd h (by simp)

/-- To put a limiter that is set up right keeps the others. -/
theorem MadeFrom.set {fresh : Limiter} (h : MadeFrom settings ls) (hfresh : settings.limiter kind = .ok fresh)
    (hsame : fresh.SameSetup limiter) : MadeFrom settings ⟨ls.made.set kind limiter⟩ := by
  intro other limiter' hother
  rw [Table.get?_set] at hother
  by_cases hkind : other = kind
  · rw [if_pos hkind] at hother
    obtain rfl := Option.some.inj hother
    rw [hkind]
    exact ⟨fresh, hfresh, hsame⟩
  · rw [if_neg hkind] at hother
    exact h other limiter' hother

theorem MadeFrom.obtain (h : MadeFrom settings ls) (hobtain : ls.obtain kind settings = .ok (limiter, ls')) :
    (∃ fresh, settings.limiter kind = .ok fresh ∧ fresh.SameSetup limiter) ∧ MadeFrom settings ls' := by
  rw [Limiters.obtain] at hobtain
  cases hmade : ls.made.get? kind with
  | some made =>
      rw [hmade] at hobtain
      obtain ⟨rfl, rfl⟩ := Prod.mk.inj (Except.ok.inj hobtain)
      exact ⟨h kind made hmade, h⟩
  | none =>
      rw [hmade] at hobtain
      dsimp only at hobtain
      cases hfresh : settings.limiter kind with
      | error error =>
          rw [hfresh] at hobtain
          exact absurd hobtain (by simp)
      | ok fresh =>
          rw [hfresh] at hobtain
          obtain ⟨rfl, rfl⟩ := Prod.mk.inj (Except.ok.inj hobtain)
          exact ⟨⟨fresh, rfl, .refl fresh⟩, h.set hfresh (.refl fresh)⟩

theorem MadeFrom.sweep (h : MadeFrom settings ls) (now : Nat) : MadeFrom settings (ls.sweep now).2 := by
  intro kind limiter hswept
  obtain ⟨before, hbefore, rfl⟩ := Option.map_eq_some_iff.1 ((ls.made.get?_map _ kind).symm.trans hswept)
  obtain ⟨fresh, hfresh, hsame⟩ := h kind before hbefore
  exact ⟨fresh, hfresh, hsame.trans (before.sameSetup_sweep now)⟩

variable {exemptions : Exemptions} {breaker breaker' : Breaker} {breakerNow now : Nat} {endpoint : String}
  {record : Record} {outcome : Except Error Admission}

/-- What a check on an endpoint can come to. -/
inductive Served (ls : Limiters) (exemptions : Exemptions) (breaker : Breaker) (breakerNow now : Nat)
    (endpoint : String) (record : Record) (settings : Settings) :
    Except Error Admission → Limiters → Breaker → Prop
  /-- The client is exempt. -/
  | exempt (hexempt : exemptions.contains record.client = true) :
      Served ls exemptions breaker breakerNow now endpoint record settings (.ok (.pass record)) ls breaker
  /-- No limiter can be made. -/
  | failed {error : Error} (hexempt : exemptions.contains record.client = false)
      (hobtain : ls.obtain (settings.algorithmFor endpoint) settings = .error error) :
      Served ls exemptions breaker breakerNow now endpoint record settings (.error error) ls breaker
  /-- The limiter of the endpoint's algorithm checks the record. -/
  | checked {limiter limiter' : Limiter} {made : Limiters} {outcome : Except Error Admission}
      {breaker' : Breaker} (hexempt : exemptions.contains record.client = false)
      (hobtain : ls.obtain (settings.algorithmFor endpoint) settings = .ok (limiter, made))
      (hchecked : limiter.Checked breaker breakerNow now record outcome limiter' breaker') :
      Served ls exemptions breaker breakerNow now endpoint record settings outcome
        ⟨made.made.set (settings.algorithmFor endpoint) limiter'⟩ breaker'

theorem served_of_check
    (h : ls.check exemptions breaker breakerNow now endpoint record settings = (outcome, ls', breaker')) :
    Served ls exemptions breaker breakerNow now endpoint record settings outcome ls' breaker' := by
  rw [check] at h
  cases hexempt : exemptions.contains record.client with
  | true =>
      rw [if_pos hexempt] at h
      obtain ⟨rfl, rfl, rfl⟩ : _ ∧ _ ∧ _ := by simpa only [Prod.mk.injEq] using h
      exact .exempt hexempt
  | false =>
      rw [if_neg (by rw [hexempt]; exact Bool.false_ne_true)] at h
      dsimp only at h
      cases hobtain : ls.obtain (settings.algorithmFor endpoint) settings with
      | error error =>
          rw [hobtain] at h
          obtain ⟨rfl, rfl, rfl⟩ : _ ∧ _ ∧ _ := by simpa only [Prod.mk.injEq] using h
          exact .failed hexempt hobtain
      | ok obtained =>
          obtain ⟨limiter, made⟩ := obtained
          rw [hobtain] at h
          obtain ⟨rfl, rfl, rfl⟩ : _ ∧ _ ∧ _ := by simpa only [Prod.mk.injEq] using h
          exact .checked hexempt hobtain (limiter.checked_check breaker breakerNow now record)

theorem Served.alike {admission : Admission}
    (h : Served ls exemptions breaker breakerNow now endpoint record settings (.ok admission) ls' breaker') :
    record.Alike admission.record := by
  cases h with
  | exempt hexempt => exact .refl record
  | checked hexempt hobtain hchecked => exact hchecked.alike

theorem Served.madeFrom
    (h : Served ls exemptions breaker breakerNow now endpoint record settings outcome ls' breaker')
    (hmade : MadeFrom settings ls) : MadeFrom settings ls' := by
  cases h with
  | exempt hexempt => exact hmade
  | failed hexempt hobtain => exact hmade
  | checked hexempt hobtain hchecked =>
      obtain ⟨⟨fresh, hfresh, hsame⟩, hmade'⟩ := hmade.obtain hobtain
      exact hmade'.set hfresh (hsame.trans hchecked.sameSetup)

end Limiters

/-! ## Services -/

namespace Service

variable {s s' : Service} {r r' : Request} {endpoint : String} {client : Client} {stored : Record}
  {outcome : Except Error (Admission × Strategy)} {admission : Admission} {strategy : Strategy}

/-- What was made from the settings was made from the live ones. -/
def Coherent (s : Service) : Prop := s.limiters.MadeFrom s.live.current.settings

theorem Decision.coherent (h : Decision s endpoint client stored outcome s') (hs : s.Coherent) : s'.Coherent := by
  cases h with
  | unresolved hpolicy => exact hs
  | failed hpolicy hcheck => exact (Limiters.served_of_check hcheck).madeFrom hs
  | answered hpolicy hcheck => exact (Limiters.served_of_check hcheck).madeFrom hs

/-- A decision leaves the count of requests as it is. -/
theorem Decision.requests_eq (h : Decision s endpoint client stored (.ok (admission, strategy)) s') :
    admission.record.requests = stored.requests := by
  cases h with
  | answered hpolicy hcheck => exact (Limiters.served_of_check hcheck).alike.requests_eq

/-- Whether a client has a limit on an endpoint: it is not exempt, and its policy is no free pass. -/
def limits (s : Service) (endpoint : String) (client : Client) : Bool :=
  !s.stores.exemptions.contains client &&
    match s.fittings.resolver.resolve endpoint client.tier s.fittings.timeRange s.live.current.settings with
    | .ok policy => !policy.isUnrestricted
    | .error _ => true

/-- **On an endpoint with a quota, whoever has a limit and is admitted spends from the quota of the settings.** -/
theorem Decision.spends (h : Decision s endpoint client stored (.ok (admission, strategy)) s')
    (hs : s.Coherent) (hquota : s.live.current.settings.algorithmFor endpoint = .quota)
    (hlimits : s.limits endpoint client = true) (hallowed : admission.isAllowed = true) :
    Quota.Spends s.live.current.settings.quotaLimit.toNat stored admission.record := by
  cases h with
  | @answered policy _ limiters breaker hpolicy hcheck =>
      rw [limits, hpolicy, Bool.and_eq_true, Bool.not_eq_true', Bool.not_eq_true'] at hlimits
      obtain ⟨hbound, hlimited⟩ := hlimits
      cases Limiters.served_of_check hcheck with
      | exempt hexempt => exact absurd (hbound.symm.trans hexempt) Bool.false_ne_true
      | checked hexempt hobtain hchecked =>
          rw [hquota] at hobtain
          obtain ⟨⟨fresh, hfresh, hsame⟩, -⟩ := hs.obtain hobtain
          have hrule := hsame.rule_eq.trans (Limiters.rule_of_limiter hfresh)
          have hword : s.live.current.settings.quotaLimit.toNat ≤ Word.max :=
            Nat.le_of_lt_succ s.live.current.settings.quotaLimit.toNat_lt
          -- to retarget a record changes nothing about its quota
          have hspends := hchecked.spends hrule hword hlimited hallowed
          exact ⟨hspends.le_limit, hspends.uses⟩

/-! ### Coherence in every run -/

theorem coherent_happen (hs : s.Coherent) (e : Event) : (s.happen e).Coherent := by
  cases e with
  | update settings =>
      rw [happen]
      split
      · rename_i change s' hupdate
        rw [Coherent, (frame_update hupdate).2.2]
        exact Limiters.madeFrom_empty _
      · exact hs
  | sweep => exact hs.sweep s.now
  | move move => exact hs
  | breaker event => exact hs
  | room room => exact hs
  | directory directory => exact hs
  | exemptions exemptions => exact hs

theorem Advance.coherent (h : Advance s r r' s') (hs : s.Coherent) : s'.Coherent := by
  cases h with
  | fails hstage hdecision => exact hdecision.coherent hs
  | admits hstage hdecision hallowed => exact hdecision.coherent hs
  | denies hstage hdecision hdenied => exact hdecision.coherent hs
  | joins hstage => exact hs
  | enters hstage hholds => exact hs
  | saves hstage => exact hs
  | leaves hstage hseat => exact hs
  | waits hstage hseat => exact hs
  | wakes hstage hfault => exact hs

theorem Traffic.Moved.coherent {t t' : Traffic} {m : Traffic.Move} (h : Traffic.Moved t m t')
    (ht : t.service.Coherent) : t'.service.Coherent := by
  cases h with
  | stays hstays => exact ht
  | advances hr hadvance => exact hadvance.coherent ht
  | happens => exact coherent_happen ht _

theorem Traffic.coherent_moves {t : Traffic} (ht : t.service.Coherent) (ms : List Traffic.Move) :
    (t.moves ms).service.Coherent := by
  induction ms generalizing t with
  | nil => exact ht
  | cons m rest ih => exact ih ((Traffic.moved_move t m).coherent ht)

end Service
end AdmissionControl
