import AdmissionControl.Proofs.Service.Coherence
import AdmissionControl.Proofs.Service.Progress

/-!
# Exempt clients

An exempt client is asked for its policy like everybody else, and then let through: no limiter is made or asked for
it, the breaker is not asked and hears nothing, and nobody waits.  So whatever state the service is in, an exempt
client passes exactly when there is a policy for its tier.

* `Decision.of_exempt` — a decision about an exempt client.
* `Traffic.Attended`, `Traffic.Attended.advance` — how far the request of an exempt client has come in a run, and what
  each of its moves leaves.
* `Traffic.exempt_passes` — **an exempt client passes if it has a policy**, in every run, without a wait and without
  a trace in limiters and breaker.
-/

namespace AdmissionControl

namespace Service

variable {s s' : Service} {r r' : Request} {endpoint : String} {client : Client} {stored : Record}
  {outcome : Except Error (Admission × Strategy)}

/-- The policy for a tier on an endpoint, by the live settings. -/
def policyFor (s : Service) (endpoint : String) (tier : Tier) : Except Error Policy :=
  s.fittings.resolver.resolve endpoint tier s.fittings.timeRange s.live.current.settings

/-- Two services with the same limiters, the same breaker and the same waiting room. -/
structure SameLimits (s s' : Service) : Prop where
  /-- Every limiter is as it was, with everything it keeps of its clients. -/
  limiters : s'.limiters = s.limiters
  /-- The breaker is as it was. -/
  breaker : s'.breaker = s.breaker
  /-- Nobody has begun to wait, or waited. -/
  room : s'.room = s.room

theorem SameLimits.refl (s : Service) : s.SameLimits s := ⟨rfl, rfl, rfl⟩

/-! ## One move -/

/-- A decision about an exempt client: it is let through if it has a policy. -/
theorem Decision.of_exempt (h : Decision s endpoint client stored outcome s')
    (hexempt : client.id ∈ s.stores.exemptions.ids) :
    s.SameLimits s' ∧
      outcome.map (·.1.verdict) = (s.policyFor endpoint client.tier).map fun _ => Verdict.allowed := by
  have hcontains : ∀ policy, s.stores.exemptions.contains (stored.retarget client policy).client = true := by
    intro policy
    exact decide_eq_true hexempt
  cases h with
  | unresolved hpolicy =>
      refine ⟨.refl s, ?_⟩
      rw [policyFor, hpolicy]
      rfl
  | @failed policy error limiters breaker hpolicy hcheck =>
      cases Limiters.served_of_check hcheck with
      | failed hbound hobtain => exact absurd (hbound.symm.trans (hcontains policy)) Bool.false_ne_true
      | checked hbound hobtain hchecked => exact absurd (hbound.symm.trans (hcontains policy)) Bool.false_ne_true
  | @answered policy admission limiters breaker hpolicy hcheck =>
      cases Limiters.served_of_check hcheck with
      | checked hbound hobtain hchecked => exact absurd (hbound.symm.trans (hcontains policy)) Bool.false_ne_true
      | exempt _ =>
          refine ⟨⟨rfl, rfl, rfl⟩, ?_⟩
          rw [policyFor, hpolicy]
          rfl

theorem Advance.exemptions_eq (h : Advance s r r' s') : s'.stores.exemptions = s.stores.exemptions := by
  have hdecides : ∀ {client stored outcome s''}, Decision (s.load r.key) r.endpoint client stored outcome s'' →
      s''.stores.exemptions = s.stores.exemptions := by
    intro client stored outcome s'' hdecision
    rw [hdecision.frame.2.1]
    rfl
  cases h with
  | fails hstage hdecision => exact (hdecides hdecision :)
  | admits hstage hdecision hallowed => exact hdecides hdecision
  | denies hstage hdecision hdenied => exact (hdecides hdecision :)
  | joins hstage => rfl
  | enters hstage hholds => rfl
  | saves hstage => rfl
  | leaves hstage hseat => rfl
  | waits hstage hseat => rfl
  | wakes hstage hfault => rfl

namespace Traffic

variable {t t' : Traffic} {i : Nat} {late : List Move}

/-- A client is the one as whom a request was identified by one of its own moves. -/
def Identified (t : Traffic) (i : Nat) (late : List Move) (id : String) (client : Client) : Prop :=
  ∃ joined, joined ++ [.advance i] <+: late ∧
    client = ((t.moves joined).service.stores.directory.identify id).1

/-- An answer is what an exempt client is answered: one of the request's own moves looks for the policy of the client,
and lets the client pass if there is one. -/
def Waved (t : Traffic) (i : Nat) (late : List Move) (r : Request) (answer : Except Error Verdict) : Prop :=
  ∃ decided client, decided ++ [.advance i] <+: late ∧ t.Identified i decided r.client client ∧
    answer = ((t.moves decided).service.policyFor r.endpoint client.tier).map fun _ => .allowed

/-- How far the request of an exempt client has come after some moves. -/
def Attended (t : Traffic) (i : Nat) (late : List Move) (r : Request) : Prop :=
  match r.stage with
  | .arriving => True
  | .queued client _ => t.Identified i late r.client client
  | .loading client _ => t.Identified i late r.client client
  | .saving _ _ admission _ => t.Waved i late r (.ok admission.verdict)
  | .throttling verdict _ => t.Waved i late r (.ok verdict)
  | .waiting .. => False
  | .done answer => t.Waved i late r answer

theorem Identified.later {id : String} {client : Client} (h : t.Identified i late id client) (m : Move) :
    t.Identified i (late ++ [m]) id client := by
  obtain ⟨joined, hjoined, hclient⟩ := h
  exact ⟨joined, hjoined.trans (List.prefix_append ..), hclient⟩

theorem Waved.later {answer : Except Error Verdict} (h : t.Waved i late r answer) (m : Move) :
    t.Waved i (late ++ [m]) r answer := by
  obtain ⟨decided, client, hdecided, hclient, hanswer⟩ := h
  exact ⟨decided, client, hdecided.trans (List.prefix_append ..), hclient, hanswer⟩

/-- What a request is told is what its client is told. -/
theorem Waved.of_key_eq {answer : Except Error Verdict} (h : t.Waved i late r answer) (hkey : r'.key = r.key) :
    t.Waved i late r' answer := by
  have hclient : r'.client = r.client := congrArg RecordKey.client hkey
  have hendpoint : r'.endpoint = r.endpoint := congrArg RecordKey.endpoint hkey
  unfold Waved
  rw [hclient, hendpoint]
  exact h

theorem Waved.eq_allowed {verdict : Verdict} (h : t.Waved i late r (.ok verdict)) : verdict = .allowed := by
  obtain ⟨decided, client, -, -, hanswer⟩ := h
  cases hpolicy : (t.moves decided).service.policyFor r.endpoint client.tier with
  | error error =>
      rw [hpolicy] at hanswer
      cases hanswer
  | ok policy =>
      rw [hpolicy] at hanswer
      exact Except.ok.inj hanswer

theorem Attended.later (h : t.Attended i late r) (m : Move) : t.Attended i (late ++ [m]) r := by
  unfold Attended at h ⊢
  cases hstage : r.stage with
  | arriving => trivial
  | queued client ticket =>
      rw [hstage] at h
      exact h.later m
  | loading client ticket =>
      rw [hstage] at h
      exact h.later m
  | saving client ticket admission strategy =>
      rw [hstage] at h
      exact h.later m
  | throttling verdict strategy =>
      rw [hstage] at h
      exact h.later m
  | waiting deadline hint =>
      rw [hstage] at h
      exact h
  | done answer =>
      rw [hstage] at h
      exact h.later m

/-- Nobody who was let through waits. -/
theorem enter_allowed (room : WaitingRoom) (strategy : Strategy) :
    room.enter (strategy.plan .allowed) = (.leaves none, room) := rfl

/-- **A move of an exempt client's request** leaves limiters, breaker and waiting room as they are, and the request is
attended to as before. -/
theorem Attended.advance (h : t.Attended i late r) (hexempt : r.client ∈ (t.moves late).service.stores.exemptions.ids)
    (hadvance : Advance (t.moves late).service r r' s') :
    (t.moves late).service.SameLimits s' ∧ t.Attended i (late ++ [.advance i]) r' := by
  have hkey := hadvance.key_eq
  -- a decision about the client, once it is known as whom the request was identified
  have hdecides : ∀ {client stored outcome s''}, t.Identified i late r.client client →
      Decision ((t.moves late).service.load r.key) r.endpoint client stored outcome s'' →
      (t.moves late).service.SameLimits s'' ∧
        t.Waved i (late ++ [.advance i]) r (outcome.map (·.1.verdict)) := by
    intro client stored outcome s'' hclient hdecision
    have hid : client.id = r.client := by
      obtain ⟨joined, -, rfl⟩ := hclient
      unfold Directory.identify
      split
      · rfl
      · rfl
    obtain ⟨hsame, houtcome⟩ := hdecision.of_exempt (hid ▸ hexempt)
    exact ⟨⟨hsame.limiters, hsame.breaker, hsame.room⟩, late, client, List.prefix_rfl, hclient, houtcome⟩
  unfold Attended at h
  cases hadvance with
  | joins hstage => exact ⟨⟨rfl, rfl, rfl⟩, late, List.prefix_rfl, rfl⟩
  | enters hstage hholds =>
      rw [hstage] at h
      exact ⟨.refl _, h.later _⟩
  | fails hstage hdecision =>
      rw [hstage] at h
      obtain ⟨hsame, hwaved⟩ := hdecides h hdecision
      exact ⟨⟨hsame.limiters, hsame.breaker, hsame.room⟩, hwaved.of_key_eq hkey⟩
  | admits hstage hdecision hallowed =>
      rw [hstage] at h
      obtain ⟨hsame, hwaved⟩ := hdecides h hdecision
      exact ⟨hsame, hwaved.of_key_eq hkey⟩
  | denies hstage hdecision hdenied =>
      rw [hstage] at h
      obtain ⟨-, hwaved⟩ := hdecides h hdecision
      have hallowed := hwaved.eq_allowed
      dsimp only at hallowed
      rw [Admission.isAllowed, hallowed] at hdenied
      cases hdenied
  | saves hstage =>
      rw [hstage] at h
      exact ⟨⟨rfl, rfl, rfl⟩, (h.later _).of_key_eq hkey⟩
  | leaves hstage hseat =>
      rw [hstage] at h
      obtain rfl := h.eq_allowed
      rw [enter_allowed] at hseat ⊢
      obtain rfl := WaitingRoom.Seat.leaves.inj hseat
      exact ⟨⟨rfl, rfl, rfl⟩, (h.later _).of_key_eq hkey⟩
  | waits hstage hseat =>
      rw [hstage] at h
      obtain rfl := h.eq_allowed
      rw [enter_allowed] at hseat
      cases hseat
  | wakes hstage hfault =>
      rw [hstage] at h
      cases h

/-! ## A run -/

theorem exempt_moves {id : String} (hexempt : id ∈ t.service.stores.exemptions.ids)
    (hkept : ∀ exemptions, .happen (.exemptions exemptions) ∈ late → id ∈ exemptions.ids) :
    id ∈ (t.moves late).service.stores.exemptions.ids := by
  induction late using List.reverseRecOn with
  | nil => exact hexempt
  | append_singleton late m ih =>
      have hbefore := ih fun exemptions hmem => hkept exemptions (List.mem_append_left _ hmem)
      rw [moves_snoc]
      have hmoved := moved_move (t.moves late) m
      generalize (t.moves late).move m = t' at hmoved
      cases hmoved with
      | stays hstays => exact hbefore
      | advances hr hadvance =>
          rw [hadvance.exemptions_eq]
          exact hbefore
      | @happens event =>
          cases event with
          | exemptions exemptions => exact hkept exemptions (by simp)
          | update settings =>
              rw [happen]
              split
              · rename_i change s' hupdate
                rw [(frame_update hupdate).2.1]
                exact hbefore
              · exact hbefore
          | move move => exact hbefore
          | sweep => exact hbefore
          | breaker event => exact hbefore
          | room room => exact hbefore
          | directory directory => exact hbefore

/-- In every run, the request of an exempt client is attended to. -/
theorem attended_moves (hr : t.requests[i]? = some r) (hstage : r.stage = .arriving)
    (hexempt : r.client ∈ t.service.stores.exemptions.ids)
    (hkept : ∀ exemptions, .happen (.exemptions exemptions) ∈ late → r.client ∈ exemptions.ids) :
    ∃ r', (t.moves late).requests[i]? = some r' ∧ r'.key = r.key ∧ t.Attended i late r' := by
  induction late using List.reverseRecOn with
  | nil =>
      refine ⟨r, hr, rfl, ?_⟩
      unfold Attended
      rw [hstage]
      trivial
  | append_singleton late m ih =>
      have hbefore : ∀ exemptions, .happen (.exemptions exemptions) ∈ late → r.client ∈ exemptions.ids := by
        intro exemptions hmem
        exact hkept exemptions (List.mem_append_left _ hmem)
      obtain ⟨r', hr', hkey, hattended⟩ := ih hbefore
      rw [moves_snoc]
      have hmoved := moved_move (t.moves late) m
      generalize (t.moves late).move m = t' at hmoved
      cases hmoved with
      | stays hstays => exact ⟨r', hr', hkey, hattended.later _⟩
      | happens => exact ⟨r', hr', hkey, hattended.later _⟩
      | @advances j x x' s' hx hadvance =>
          by_cases hij : j = i
          · subst hij
            obtain rfl := Option.some.inj (hr'.symm.trans hx)
            have hclient : r'.client = r.client := congrArg RecordKey.client hkey
            have hstill := exempt_moves hexempt hbefore
            rw [← hclient] at hstill
            have hlt := (List.getElem?_eq_some_iff.1 hx).1
            exact ⟨x', List.getElem?_set_self hlt, hadvance.key_eq.trans hkey, (hattended.advance hstill hadvance).2⟩
          · refine ⟨r', ?_, hkey, hattended.later _⟩
            rw [List.getElem?_set_ne hij]
            exact hr'

/-- In every run, a move of an exempt client's request leaves limiters, breaker and waiting room as they are. -/
theorem sameLimits_move (hr : t.requests[i]? = some r) (hstage : r.stage = .arriving)
    (hexempt : r.client ∈ t.service.stores.exemptions.ids)
    (hkept : ∀ exemptions, .happen (.exemptions exemptions) ∈ late → r.client ∈ exemptions.ids) :
    (t.moves late).service.SameLimits (t.moves (late ++ [.advance i])).service := by
  obtain ⟨r', hr', hkey, hattended⟩ := attended_moves hr hstage hexempt hkept
  have hclient : r'.client = r.client := congrArg RecordKey.client hkey
  have hstill := exempt_moves hexempt hkept
  rw [← hclient] at hstill
  rw [moves_snoc]
  have hmoved := moved_move (t.moves late) (.advance i)
  generalize (t.moves late).move (.advance i) = t' at hmoved
  cases hmoved with
  | stays hstays => exact .refl _
  | advances hx hadvance =>
      obtain rfl := Option.some.inj (hr'.symm.trans hx)
      exact (hattended.advance hstill hadvance).1

theorem Attended.deadline?_eq_none (h : t.Attended i late r) : r.deadline? = none := by
  unfold Attended at h
  unfold Request.deadline?
  split
  · rename_i deadline hint hstage
    rw [hstage] at h
    cases h
  · rfl

theorem Attended.waved {answer : Except Error Verdict} (h : t.Attended i late r) (hanswer : r.answer? = some answer) :
    t.Waved i late r answer := by
  unfold Attended at h
  unfold Request.answer? at hanswer
  split at hanswer
  · rename_i done hstage
    obtain rfl := Option.some.inj hanswer
    rw [hstage] at h
    exact h
  · cases hanswer

/-- Some more moves of requests bring an exempt client its answer. -/
theorem exists_waved (hstaffed : Staffed (t.moves late)) (horderly : Orderly (t.moves late))
    (hr : t.requests[i]? = some r) (hstage : r.stage = .arriving)
    (hexempt : r.client ∈ t.service.stores.exemptions.ids)
    (hkept : ∀ exemptions, .happen (.exemptions exemptions) ∈ late → r.client ∈ exemptions.ids) :
    ∃ (indices : List Nat) (r' : Request) (answer : Except Error Verdict),
      (t.moves (late ++ indices.map .advance)).requests[i]? = some r' ∧ r'.answer? = some answer ∧
        t.Waved i (late ++ indices.map .advance) r answer := by
  obtain ⟨r₀, hr₀, -⟩ := attended_moves hr hstage hexempt hkept
  obtain ⟨indices, r', hr', hsettled⟩ := exists_settled hstaffed horderly hr₀
  rw [← moves_append] at hr'
  have hkept' : ∀ exemptions, .happen (.exemptions exemptions) ∈ late ++ indices.map Move.advance →
      r.client ∈ exemptions.ids := by
    intro exemptions hmem
    rcases List.mem_append.1 hmem with hlate | hadvances
    · exact hkept exemptions hlate
    · obtain ⟨j, -, hj⟩ := List.mem_map.1 hadvances
      cases hj
  obtain ⟨r'', hr'', hkey, hattended⟩ := attended_moves hr hstage hexempt hkept'
  obtain rfl := Option.some.inj (hr'.symm.trans hr'')
  -- whoever is attended to does not wait, so that being settled is having an answer
  rw [Request.isSettled, hattended.deadline?_eq_none, Option.isSome_none, Bool.or_false] at hsettled
  obtain ⟨answer, hanswer⟩ := Option.isSome_iff_exists.1 hsettled
  exact ⟨indices, r', answer, hr', hanswer, (hattended.waved hanswer).of_key_eq hkey.symm⟩

/-- The live settings are always sound. -/
theorem sound_moves (hsound : t.service.live.current.settings.fault? = none) (ms : List Move) :
    (t.moves ms).service.live.current.settings.fault? = none := by
  induction ms generalizing t with
  | nil => exact hsound
  | cons m rest ih =>
      refine ih ?_
      rcases live_move t m with hlive | ⟨settings, change, s', haccepted, hs'⟩
      · rw [hlive]
        exact hsound
      · rw [hs']
        exact (inStep_update haccepted).1.sound

/-- **An exempt client passes if it has a policy.**  Whatever has happened to a service since it was built, a request
of an exempt client that comes in now, and then goes its way among other requests and everything else that may
happen while the client stays exempt,

* leaves limiters, breaker and waiting room as they are with each of its moves;
* never waits in the waiting room, and is answered, if at all, that it may pass if there is a policy for the tier of
  the client, and with the reason why there is none otherwise;
* is always answered so after some more moves of requests.

If policies come from the settings, there is none only for a tier without a rate that is not the internal one. -/
theorem exempt_passes {settings : Settings} {fittings : Fittings} {sleeper : Sleeper} {given : Option Breaker}
    {stores : Stores} {clock : Clock}
    (hbuild : Service.build settings fittings sleeper given stores clock = .ok s)
    (requests : List (String × String)) (early late : List Move)
    (hr : ((start s requests).moves early).requests[i]? = some r) (hstage : r.stage = .arriving)
    (hexempt : r.client ∈ ((start s requests).moves early).service.stores.exemptions.ids)
    (hkept : ∀ exemptions, .happen (.exemptions exemptions) ∈ late → r.client ∈ exemptions.ids) :
    let t := (start s requests).moves early
    (∀ before, before ++ [.advance i] <+: late →
        (t.moves before).service.SameLimits (t.moves (before ++ [.advance i])).service) ∧
      (∃ r', (t.moves late).requests[i]? = some r' ∧ r'.deadline? = none ∧
        ∀ answer, r'.answer? = some answer → t.Waved i late r answer) ∧
      (∃ (indices : List Nat) (r' : Request) (answer : Except Error Verdict),
        (t.moves (late ++ indices.map .advance)).requests[i]? = some r' ∧ r'.answer? = some answer ∧
          t.Waved i (late ++ indices.map .advance) r answer) ∧
      (fittings.resolver = .settings → ∀ before tier error,
        (t.moves before).service.policyFor r.endpoint tier = .error error ↔
          tier ≠ .internal ∧ (t.moves before).service.live.current.settings.rates.get? tier = none ∧
            error = .unknownTier tier.name) := by
  intro t
  have hlocks : s.locks = RecordLocks.empty := (frame_build hbuild).1
  have horderly : Orderly (t.moves late) := orderly_moves (orderly_moves (orderly_start hlocks requests) early) late
  have hstaffed : Staffed (t.moves late) :=
    staffed_moves (staffed_moves (staffed_start hlocks requests) (orderly_start hlocks requests) early)
      (orderly_moves (orderly_start hlocks requests) early) late
  refine ⟨?moves, ?answer, ?answered, ?policy⟩
  case moves =>
    intro before hbefore
    refine sameLimits_move hr hstage hexempt fun exemptions hmem => hkept exemptions ?_
    exact hbefore.subset (List.mem_append_left _ hmem)
  case answer =>
    obtain ⟨r', hr', hkey, hattended⟩ := attended_moves hr hstage hexempt hkept
    refine ⟨r', hr', hattended.deadline?_eq_none, ?_⟩
    intro answer hanswer
    exact (hattended.waved hanswer).of_key_eq hkey.symm
  case answered => exact exists_waved hstaffed horderly hr hstage hexempt hkept
  case policy =>
    intro hresolver before tier error
    have hstart : s.live.current.settings.fault? = none := (inStep_build hbuild).1.sound
    have hfittings : (t.moves before).service.fittings.resolver = .settings := by
      rw [fittings_moves, fittings_moves]
      exact (congrArg Fittings.resolver (fittings_build hbuild)).trans hresolver
    rw [policyFor, hfittings]
    exact Settings.policyFor_eq_error_iff (sound_moves (sound_moves hstart early) before)

/-- One request at a time for standard and custom clients, and two denials open the breaker.  Other tiers have no
rate. -/
def club : Settings :=
  { press with
    rates := ⟨some 1, none, none, none, some 1, none⟩
    breakerThreshold := 1 }

/-- The porter and the owner of the club are exempt; the one is a custom client, the other a very important one. -/
def staff : Stores :=
  { Stores.empty with
    directory := ⟨Table.ofList [("porter", .custom), ("owner", .vip)]⟩
    exemptions := ⟨["porter", "owner"]⟩ }

/-- The service of the club when it opens. -/
def evening : Service where
  fittings := .standard
  live := ⟨⟨1, club⟩, []⟩
  breaker := .fresh ⟨1, .ofMillis 30000⟩
  hasGivenBreaker := false
  limiters := .empty
  strategies := .empty
  room := .start .tracking
  locks := .empty
  stores := staff
  clock := ⟨1000⟩

/-- Ann comes to the door three times, and then the porter does. -/
def guests : List (String × String) := [("door", "ann"), ("door", "ann"), ("door", "ann"), ("door", "porter")]

/-- Ann is let in once and then turned away twice, which opens the breaker. -/
def rush : List Move := [0, 0, 0, 0, 0, 1, 1, 1, 1, 2, 2, 2, 2].map .advance

/-- The porter passes while the breaker is open. -/
theorem porter_passes :
    let t := (start evening guests).moves rush
    let late : List Move := [3, 3, 3, 3, 3].map .advance
    t.service.breaker.state = .opened ∧
      (t.moves (late.take 2)).service.SameLimits (t.moves (late.take 3)).service ∧
      ∃ r', (t.moves late).requests[3]? = some r' ∧ r'.answer? = some (.ok .allowed) ∧
        t.Waved 3 late (.fresh "door" "porter") (.ok .allowed) := by
  intro t late
  have hbuild : Service.build club .standard .tracking none staff ⟨1000⟩ = .ok evening := rfl
  have hr : t.requests[3]? = some (.fresh "door" "porter") := rfl
  have hexempt : "porter" ∈ t.service.stores.exemptions.ids := by decide +kernel
  have hkept : ∀ exemptions, .happen (.exemptions exemptions) ∈ late → "porter" ∈ exemptions.ids := by
    intro exemptions hmem
    simp [late] at hmem
  obtain ⟨hsame, ⟨r', hr', -, hwaved⟩, -⟩ := exempt_passes hbuild guests rush late hr rfl hexempt hkept
  have hanswer : ((t.moves late).requests[3]?).bind Request.answer? = some (.ok .allowed) := by decide +kernel
  change (t.moves late).requests[3]? = some r' at hr'
  rw [hr'] at hanswer
  exact ⟨by decide +kernel, hsame (late.take 2) ⟨_, rfl⟩, r', hr', hanswer, hwaved _ hanswer⟩

/-- The owner is exempt too, but turned away: there is no policy for a very important client. -/
theorem owner_turned_away :
    Service.build club .standard .tracking none staff ⟨1000⟩ = .ok evening ∧
      "owner" ∈ evening.stores.exemptions.ids ∧
      (evening.check "door" "owner" none).1 = .error (.unknownTier "VIP") := by
  refine ⟨rfl, by decide, ?_⟩
  rfl

end Traffic
end Service
end AdmissionControl
